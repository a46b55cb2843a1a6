import PolyOnTest.Fff.Fake

/-!
# What a fake says about its calls

`Ledger` is what a test wants to know of a fake: all calls since the last reset,
the return value that was configured and the custom fake that was set.  It has
neither counters nor arrays.  `Shows` relates it to the variables of the fake,
the bounded histories among them, and each step keeps the relation: `enter` is
the one that matters, where a call behind the end of the histories is counted
but not stored.

`Shows.run` takes it through every sequence of calls and assignments, as long as
an `int` can count the calls.  `valueFunc2_records` reads off what the variables
of a fake with two arguments hold.
-/

namespace PolyOnTest.Fff

open CodeLib

/-- The calls since the last reset, the configured return value and the custom
fake. -/
structure Ledger (X R F : Type) where
  log : List X
  ret : R
  customFake : Option F

namespace Ledger

variable {len : HistoryLen} {X R F ω : Type}

/-- A new fake, and one that was reset. -/
def define (d : R) : Ledger X R F := ⟨[], d, none⟩

/-- One call more. -/
def enter (l : Ledger X R F) (x : X) : Ledger X R F := { l with log := l.log ++ [x] }

/-- An assignment. -/
def assign (l : Ledger X R F) : Assign R F → Ledger X R F
  | .setReturn r => { l with ret := r }
  | .setCustomFake g => { l with customFake := g }
  | .reset d => define d

/-- What happens to the ledger with the variables. -/
def touch (l : Ledger X R F) : Touch X R F → Ledger X R F
  | .enter x => l.enter x
  | .assign a => l.assign a

theorem length_assign_le (l : Ledger X R F) (a : Assign R F) :
    (l.assign a).log.length ≤ l.log.length := by
  cases a with
  | setReturn r => exact Nat.le_refl _
  | setCustomFake g => exact Nat.le_refl _
  | reset d => exact Nat.zero_le _

variable [Zero X]

/-- The count, the last call, and the first calls up to the length of the
histories. -/
def records (l : Ledger X R F) : Records len X F :=
  ⟨l.log.length, l.log.getLastD 0, fun i => recorded l.log i, l.customFake⟩

/-- A call returns what the custom fake returns, if one is set, and else the
configured value. -/
def call (custom : Customs len X R F ω) (l : Ledger X R F) (x : X) (w : ω) :
    Ledger X R F × ω × R :=
  let l := l.enter x
  match l.customFake with
  | some g =>
      let run := custom g l.records l.ret x w
      (run.touches.foldl touch l, run.world, run.result)
  | none => (l, w, l.ret)

/-- A sequence of calls and assignments. -/
def run (custom : Customs len X R F ω) (l : Ledger X R F) (w : ω) :
    List (Op X R F) → Outcome (Ledger X R F) R ω
  | [] => ⟨l, w, []⟩
  | .assign a :: ops => run custom (l.assign a) w ops
  | .call x :: ops =>
      let (l, w, r) := l.call custom x w
      let rest := run custom l w ops
      { rest with returned := r :: rest.returned }

end Ledger

/-- A custom fake that does not call the function. -/
def Quiet {len : HistoryLen} {X R F ω : Type} (custom : Customs len X R F ω) : Prop :=
  ∀ g s r x w, ∀ t ∈ (custom g s r x w).touches, ∃ a, t = .assign a

section Shows

variable {len : HistoryLen} {C X R F ω : Type} [Zero X] [Columns C len X]

/-- The variables hold what the ledger says. -/
structure Shows (l : Ledger X R F) (f : Fake C R F) : Prop where
  callCount : f.callCount = Int32.ofNat l.log.length
  last : Columns.last f.args = l.log.getLastD 0
  slot : ∀ i, Columns.slot f.args i = recorded l.log i
  in_bounds : Columns.overrun f.args = false
  ret : f.ret = l.ret
  customFake : f.customFake = l.customFake

namespace Shows

variable {l : Ledger X R F} {f : Fake C R F}

theorem define (d : R) : Shows (Ledger.define d) (Fake.define d : Fake C R F) where
  callCount := rfl
  last := Columns.last_blank
  slot := fun i => Columns.slot_blank i
  in_bounds := Columns.overrun_blank
  ret := rfl
  customFake := rfl

/-- The number of the call is the index of its slot, if there is one. -/
theorem enter (h : Shows l f) (hlen : l.log.length < 2 ^ 31) (x : X) :
    Shows (l.enter x) (f.enter x) where
  callCount := by
    show f.callCount + 1 = Int32.ofNat (l.log ++ [x]).length
    rw [h.callCount, List.length_append, List.length_singleton, Int32.ofNat_add]
    rfl
  last := by
    show Columns.last (Columns.record _ x _) = (l.log ++ [x]).getLastD 0
    rw [Columns.last_record, List.getLastD_concat]
  slot := fun i => by
    show Columns.slot (Columns.record _ x _) i = recorded (l.log ++ [x]) i
    rw [Columns.slot_record, h.callCount, Int32.toInt_ofNat_of_lt hlen, recorded_append,
      h.slot i]
    simp only [Int.ofNat_inj]
  in_bounds := by
    show Columns.overrun (Columns.record _ x _) = false
    have hcount : 0 ≤ f.callCount.toInt := by
      rw [h.callCount, Int32.toInt_ofNat_of_lt hlen]
      omega
    rw [Columns.overrun_record _ _ _ hcount, h.in_bounds]
  ret := h.ret
  customFake := h.customFake

theorem assign (h : Shows l f) (a : Assign R F) : Shows (l.assign a) (f.assign a) := by
  cases a with
  | setReturn r => exact { h with ret := rfl }
  | setCustomFake g => exact { h with customFake := rfl }
  | reset d =>
      exact ⟨rfl, Columns.last_clear _, fun i => Columns.slot_clear _ i,
        (Columns.overrun_clear _).trans h.in_bounds, rfl, rfl⟩

theorem records (h : Shows l f) (hlen : l.log.length < 2 ^ 31) : f.records = l.records := by
  rw [Fake.records, Ledger.records, h.callCount, Int32.toInt_ofNat_of_lt hlen, h.last,
    h.customFake, funext h.slot]

/-- Assignments of a custom fake. -/
theorem touches (h : Shows l f) {ts : List (Touch X R F)}
    (hts : ∀ t ∈ ts, ∃ a, t = .assign a) :
    Shows (ts.foldl Ledger.touch l) (ts.foldl Fake.touch f) ∧
      (ts.foldl Ledger.touch l).log.length ≤ l.log.length := by
  induction ts generalizing l f with
  | nil => exact ⟨h, Nat.le_refl _⟩
  | cons t ts ih =>
      obtain ⟨a, rfl⟩ := hts t (by simp)
      obtain ⟨hrest, hle⟩ := ih (h.assign a) fun t ht => hts t (by simp [ht])
      exact ⟨hrest, Nat.le_trans hle (l.length_assign_le a)⟩

/-- A call keeps the relation, and both sides return the same. -/
theorem call (h : Shows l f) {custom : Customs len X R F ω} (hcustom : Quiet custom)
    (hlen : l.log.length + 1 < 2 ^ 31) (x : X) (w : ω) :
    Shows (l.call custom x w).1 (f.call custom x w).1 ∧
      (f.call custom x w).2 = (l.call custom x w).2 ∧
      (l.call custom x w).1.log.length ≤ l.log.length + 1 := by
  have henter := h.enter (by omega) x
  have hlog : (l.enter x).log.length = l.log.length + 1 := List.length_append
  have hrecords := henter.records (by omega)
  rw [Fake.call, Ledger.call]
  dsimp only
  rw [henter.customFake]
  cases (l.enter x).customFake with
  | none => exact ⟨henter, by rw [henter.ret], Nat.le_of_eq hlog⟩
  | some g =>
    dsimp only
    rw [hrecords, henter.ret]
    obtain ⟨hshows, hle⟩ := henter.touches (hcustom g (l.enter x).records (l.enter x).ret x w)
    exact ⟨hshows, rfl, by omega⟩

/-- By induction over the sequence: each call uses one of the numbers that are
left. -/
theorem run {custom : Customs len X R F ω} (hcustom : Quiet custom) {ops : List (Op X R F)}
    (h : Shows l f) (hlen : l.log.length + ops.length < 2 ^ 31) (w : ω) :
    Shows (l.run custom w ops).state (f.run custom w ops).state ∧
      (f.run custom w ops).world = (l.run custom w ops).world ∧
      (f.run custom w ops).returned = (l.run custom w ops).returned ∧
      (l.run custom w ops).state.log.length ≤ l.log.length + ops.length := by
  induction ops generalizing l f w with
  | nil => exact ⟨h, rfl, rfl, Nat.le_refl _⟩
  | cons op ops ih =>
      rw [List.length_cons] at hlen ⊢
      cases op with
      | assign a =>
        have hle := l.length_assign_le a
        obtain ⟨hshows, hworld, hreturned, hlog⟩ := ih (h.assign a) (by omega) w
        exact ⟨hshows, hworld, hreturned, Nat.le_trans hlog (by omega)⟩
      | call x =>
        obtain ⟨hcall, hsame, hle⟩ := h.call hcustom (by omega) x w
        rw [Prod.ext_iff] at hsame
        obtain ⟨hshows, hworld, hreturned, hlog⟩ :=
          ih hcall (by omega) (l.call custom x w).2.1
        rw [Fake.run, Ledger.run]
        dsimp only
        rw [hsame.1, hsame.2, hreturned]
        exact ⟨hshows, hworld, rfl, Nat.le_trans hlog (by omega)⟩

end Shows

end Shows

section ValueFunc2

variable {len : HistoryLen} {A B R F ω : Type} [Zero A] [Zero B]

/-- What a fake with two arguments records of the calls since the last reset. -/
structure Recorded (log : List (A × B)) (f : Fake (Column len A × Column len B) R F) :
    Prop where
  callCount : f.callCount.toInt = log.length
  history : ∀ (i : Fin len.toNat) (hi : i.val < log.length),
    (f.args.1.history.cells i, f.args.2.history.cells i) = log[i.val]
  later : ∀ i : Fin len.toNat, log.length ≤ i.val →
    f.args.1.history.cells i = 0 ∧ f.args.2.history.cells i = 0
  last : (f.args.1.val, f.args.2.val) = log.getLastD (0, 0)
  in_bounds : f.args.1.history.overrun = false ∧ f.args.2.history.overrun = false

theorem Shows.recorded {l : Ledger (A × B) R F} {f : Fake (Column len A × Column len B) R F}
    (h : Shows l f) (hlen : l.log.length < 2 ^ 31) : Recorded l.log f where
  callCount := by rw [h.callCount, Int32.toInt_ofNat_of_lt hlen]
  history := fun i hi => (h.slot i).trans (List.getD_eq_getElem _ _ hi)
  later := fun i hi => Prod.mk.inj ((h.slot i).trans (List.getD_eq_default _ _ hi))
  last := h.last
  in_bounds := Bool.or_eq_false_iff.mp h.in_bounds

/-- A fake with two arguments records its calls faithfully, across resets and
past the end of the histories, and its calls return what they should. -/
theorem valueFunc2_records (custom : Customs len (A × B) R F ω) (hcustom : Quiet custom)
    (d : R) (w : ω) (ops : List (Op (A × B) R F)) (hops : ops.length < 2 ^ 31) :
    let fake : Fake (Column len A × Column len B) R F := potFakeValueFunc2 len d
    Recorded ((Ledger.define d).run custom w ops).state.log (fake.run custom w ops).state ∧
      (fake.run custom w ops).returned = ((Ledger.define d).run custom w ops).returned := by
  intro fake
  have hlen : (Ledger.define d : Ledger (A × B) R F).log.length + ops.length < 2 ^ 31 := by
    show 0 + ops.length < 2 ^ 31
    omega
  have hstart : Shows (Ledger.define d) fake := Shows.define d
  obtain ⟨hshows, -, hreturned, hlog⟩ := hstart.run hcustom hlen w
  exact ⟨hshows.recorded (Nat.lt_of_le_of_lt hlog hlen), hreturned⟩

end ValueFunc2

/-- The custom fake of the example adds its arguments. -/
def addCustom : Customs .default (Int32 × Int32) Int32 Unit Unit :=
  fun _ _ _ x w => ⟨[], x.1 + x.2, w⟩

/-- A call that returns the configured value and one with a custom fake. -/
theorem valueFunc2_records_two :
    let fake : Fake (Column .default Int32 × Column .default Int32) Int32 Unit :=
      potFakeValueFunc2 .default 0
    let ops : List (Op (Int32 × Int32) Int32 Unit) :=
      [.assign (.setReturn 7), .call (1, 2), .assign (.setCustomFake (some ())), .call (3, 5)]
    (fake.run addCustom () ops).state.callCount.toInt = 2 ∧
      (fake.run addCustom () ops).state.args.2.history.cells ⟨1, by decide⟩ = 5 ∧
      (fake.run addCustom () ops).returned = [7, 8] := by
  intro fake ops
  have hquiet : Quiet addCustom := fun _ _ _ _ _ t ht => absurd ht List.not_mem_nil
  obtain ⟨hrecords, hreturned⟩ := valueFunc2_records addCustom hquiet 0 () ops (by decide)
  exact ⟨hrecords.callCount, congrArg Prod.snd (hrecords.history ⟨1, by decide⟩ (by decide)),
    hreturned⟩

end PolyOnTest.Fff
