import PolyOnTest.Protocol

/-!
# Reporters

The built-in reporters as their callers see them: which events they have taken,
and how often they were told to finish.  `on_event` of a built-in reporter never
fails.  `finish` writes a file, which the system may refuse.
-/

namespace PolyOnTest.Builtins

/-- The ids of the built-in reporters. -/
inductive ReporterKind
  | console
  | junit
  | json
  deriving DecidableEq, Repr

/-- A reporter with the calls that it has got. -/
structure Reporter where
  kind : ReporterKind
  received : List Event
  finished : Nat
  deriving DecidableEq, Repr

/-- What the system answers when a reporter writes its report of some events. -/
abbrev Disk := ReporterKind → List Event → Except String Unit

/-- A system that refuses the report of `junit`. -/
def fullDisk : Disk := fun kind _ =>
  if kind = .junit then .error "no space left on device" else .ok ()

namespace Reporter

/-- `ConsoleReporter::new`, `JunitReporter::new` and `JsonReporter::new`. -/
def new (kind : ReporterKind) : Reporter := ⟨kind, [], 0⟩

/-- `Reporter::on_event`. -/
def onEvent (ev : Event) (r : Reporter) : Reporter :=
  { r with received := r.received ++ [ev] }

/-- `Reporter::finish`. -/
def finish (disk : Disk) (r : Reporter) : Reporter × Except String Unit :=
  ({ r with finished := r.finished + 1 }, disk r.kind r.received)

/-- A reporter that has taken some more events. -/
def receive (evs : List Event) (r : Reporter) : Reporter :=
  { r with received := r.received ++ evs }

@[simp] theorem receive_nil (r : Reporter) : r.receive [] = r := by
  simp [receive]

@[simp] theorem map_receive_nil (rs : List Reporter) : rs.map (receive []) = rs :=
  (List.map_congr_left fun r _ => receive_nil r).trans (List.map_id rs)

@[simp] theorem receive_received (evs : List Event) (r : Reporter) :
    (r.receive evs).received = r.received ++ evs := rfl

@[simp] theorem receive_receive (a b : List Event) (r : Reporter) :
    (r.receive a).receive b = r.receive (a ++ b) := by
  simp [receive]

theorem map_receive_receive (a b : List Event) (rs : List Reporter) :
    (rs.map (receive a)).map (receive b) = rs.map (receive (a ++ b)) := by
  rw [List.map_map]
  exact List.map_congr_left fun r _ => receive_receive a b r

end Reporter

/-- The loop that finishes all reporters.  A `?` leaves it at the first refusal. -/
def finishAll (disk : Disk) : List Reporter → List Reporter × Except String Unit
  | [] => ([], .ok ())
  | r :: rs =>
      match r.finish disk with
      | (r, .error e) => (r :: rs, .error e)
      | (r, .ok ()) =>
          let (rs, result) := finishAll disk rs
          (r :: rs, result)

/-- The reports can be written. -/
def Writable (disk : Disk) (rs : List Reporter) : Prop :=
  ∀ r ∈ rs, disk r.kind r.received = .ok ()

theorem finishAll_ok_iff (disk : Disk) (rs : List Reporter) :
    (finishAll disk rs).2 = .ok () ↔ Writable disk rs := by
  induction rs with
  | nil => simp [finishAll, Writable]
  | cons r rs ih =>
      unfold Writable at ih
      rw [finishAll, Writable, List.forall_mem_cons, ← ih, Reporter.finish]
      cases disk r.kind r.received with
      | error e => simp
      | ok u => simp

/-- Finishing adds no event. -/
theorem finishAll_received (disk : Disk) (rs : List Reporter) :
    (finishAll disk rs).1.map Reporter.received = rs.map Reporter.received := by
  induction rs with
  | nil => rfl
  | cons r rs ih =>
      rw [finishAll, Reporter.finish]
      cases disk r.kind r.received with
      | error e => rfl
      | ok u => simpa using ih

end PolyOnTest.Builtins
