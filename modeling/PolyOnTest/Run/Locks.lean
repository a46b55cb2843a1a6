import Mathlib.Data.List.Induction
import PolyOnTest.Harness.Hooks

/-!
# The lock discipline

A mutex that is not recursive, seen by one thread, is the automaton `mutex`: a lock
needs it free, an unlock and a call of the writer need it held, and test code and
`longjmp` need it free.

Test code is any script of public calls.  The assertions are among them: each is a
call of `pot_fail_at` or none (`Assertion.calls_eq`).

Each function of the harness leads the mutex from free to free, wherever it is left
(`Keeps`), and so does test code, by induction on the fuel and on the script
(`exec_keeps`).  `lock_discipline` reads the result off the trace.
-/

namespace PolyOnTest.Run

open CodeLib CodeLib.CMemory CodeLib.Trace PolyOnTest.Harness PolyOnTest.Harness.Hooks

/-- The mutex, which is held or not. -/
def mutex : Bool → HookStep → Option Bool
  | false, .lock => some true
  | true, .unlock => some false
  | true, .write _ => some true
  | false, .enter .. => some false
  | false, .longjmp => some false
  | _, _ => none

variable {ω α : Type}

/-- The code finds the mutex free and leaves it free. -/
abbrev Keeps (m : Hooked ω α) : Prop := Follows mutex false false m false

/-! ## The harness -/

section Harness

variable {k : Setup} (hlock : k.lock = true) (hunlock : k.unlock = true)

include hlock in
theorem ptLock_follows : Follows mutex false false (ptLock k : Hooked ω Unit) true := by
  rw [ptLock, if_pos hlock]
  exact Follows.log rfl

include hunlock in
theorem ptUnlock_follows : Follows mutex false true (ptUnlock k : Hooked ω Unit) false := by
  rw [ptUnlock, if_pos hunlock]
  exact Follows.log rfl

theorem write_follows (data : List UInt8) :
    Follows mutex false true (log (.write data) : Hooked ω Unit) true :=
  Follows.log rfl

include hlock hunlock

theorem emitRaw_keeps (data : List UInt8) : Keeps (emitRaw k data : Hooked ω Unit) :=
  (ptLock_follows hlock).bind fun _ =>
    (write_follows data).bind fun _ => ptUnlock_follows hunlock

theorem say_keeps (m : Msg) : Keeps (say k m : Hooked ω Unit) :=
  (Follows.change _).bind fun _ => Follows.forM (emitRaw_keeps hlock hunlock) _

/-- The flags are set under the lock, and the output comes behind it. -/
theorem setFlag_keeps (f : Sys ω → Sys ω) {rest : Hooked ω α} (hrest : Keeps rest) :
    Keeps (do ptLock k; change f; ptUnlock k; rest) :=
  (ptLock_follows hlock).bind fun _ => (Follows.change f).bind fun _ =>
    (ptUnlock_follows hunlock).bind fun _ => hrest

theorem potFailAt_keeps (file : Option CStr) (line : Int32) (message : Option CStr) :
    Keeps (potFailAt k file line message : Hooked ω Unit) :=
  Follows.read.bind fun _ =>
    setFlag_keeps hlock hunlock _ (say_keeps hlock hunlock _)

theorem potIgnore_keeps (message : Option CStr) :
    Keeps (potIgnore k message : Hooked ω Unit) := by
  refine setFlag_keeps hlock hunlock _ (Follows.read.bind fun s => ?_)
  cases message with
  | none => exact Follows.pure ()
  | some text =>
    dsimp only
    split_ifs
    · exact say_keeps hlock hunlock _
    · exact Follows.pure ()

/-- The jump comes behind the unlock. -/
theorem potAbort_keeps : Keeps (potAbort k : Hooked ω Unit) := by
  refine setFlag_keeps hlock hunlock _ (Follows.read.bind fun s => ?_)
  have hjump : Follows mutex false false (log .longjmp : Hooked ω Unit) false := Follows.log rfl
  split_ifs
  · exact hjump.bind fun _ => Follows.leave Left.longjmp
  · exact Follows.pure ()

omit hlock hunlock in
/-- A jump arrives with the mutex free, as it is where code is left. -/
theorem potProtect_keeps {one zero : Hooked ω Unit} (hone : Keeps one) (hzero : Keeps zero) :
    Keeps (potProtect k one zero) := by
  unfold potProtect
  split_ifs
  · refine (Follows.change _).bind fun _ => hone.catching fun x => ?_
    cases x with
    | longjmp => exact (Follows.change _).bind fun _ => hzero
    | exit => exact Follows.leave Left.exit
    | fuel => exact Follows.leave Left.fuel
  · exact hone

theorem call_keeps (c : Call) {next : Hooked ω Unit} (hnext : Keeps next) :
    Keeps (call k c next) := by
  refine (Follows.change _).bind fun _ => ?_
  cases c with
  | failAt file line message =>
      exact (potFailAt_keeps hlock hunlock file line message).bind fun _ => hnext
  | ignore message => exact (potIgnore_keeps hlock hunlock message).bind fun _ => hnext
  | abort => exact (potAbort_keeps hlock hunlock).bind fun _ => hnext
  | protect => exact potProtect_keeps hnext hnext
  | _ => exact (Follows.change _).bind fun _ => hnext

/-! ## `run_filtered` -/

variable {b : TestBinary ω} {go : Script → Hooked ω Unit} (hgo : ∀ script, Keeps (go script))

omit hlock hunlock in
include hgo in
theorem enter_keeps (hook : Hook) (f : Option FnId) : Keeps (enter b go hook f) := by
  cases f with
  | none => exact Follows.pure ()
  | some f =>
      have henter : Follows mutex false false (log (.enter hook f) : Hooked ω Unit) false :=
        Follows.log rfl
      exact henter.bind fun _ => Follows.read.bind fun s =>
        (Follows.change _).bind fun _ => hgo (b.code f s.world).1

include hgo

theorem closeSuite_keeps (o : Open) : Keeps (closeSuite k b go o) := by
  unfold Hooks.closeSuite
  cases o.suite with
  | none => exact Follows.pure ()
  | some suite =>
      exact Follows.read.bind fun s => (enter_keeps hgo _ _).bind fun _ =>
        say_keeps hlock hunlock _

theorem openSuiteEmit_keeps (name : Option CStr) : Keeps (openSuiteEmit k b go name) :=
  Follows.read.bind fun _ => (enter_keeps hgo _ _).bind fun _ => say_keeps hlock hunlock _

omit hlock hunlock in
theorem runBody_keeps (t : Case) : Keeps (runBody b go t) :=
  Follows.read.bind fun _ => (enter_keeps hgo _ _).bind fun _ =>
    (enter_keeps hgo _ _).bind fun _ => enter_keeps hgo _ _

theorem switchSuite_keeps (t : Case) (o : Open) : Keeps (switchSuite k b go t o) := by
  unfold Hooks.switchSuite
  split_ifs
  · exact (closeSuite_keeps hlock hunlock hgo o).bind fun _ =>
      (openSuiteEmit_keeps hlock hunlock hgo t.suite).bind fun _ => Follows.pure _
  · exact Follows.pure o

theorem runCase_keeps (t : Case) (o : Open) : Keeps (runCase k b go t o) :=
  (Follows.change _).bind fun _ => (say_keeps hlock hunlock _).bind fun _ =>
    (runBody_keeps hgo t).bind fun _ => Follows.read.bind fun _ =>
      (Follows.change _).bind fun _ => (say_keeps hlock hunlock _).bind fun _ =>
        Follows.pure _

theorem loopBody_keeps (sel : Env → Case → Bool) (o : Open) (t : Case) :
    Keeps (loopBody k b go sel o t) := by
  refine Follows.read.bind fun s => ?_
  split_ifs
  · exact (switchSuite_keeps hlock hunlock hgo t o).bind fun o =>
      runCase_keeps hlock hunlock hgo t o
  · exact Follows.pure o

theorem runFiltered_keeps (sel : Env → Case → Bool) : Keeps (runFiltered k b go sel) :=
  (Follows.change _).bind fun _ => (say_keeps hlock hunlock _).bind fun _ =>
    Follows.read.bind fun _ =>
      (Follows.foldlM (loopBody_keeps hlock hunlock hgo sel) _ _).bind fun o =>
        (closeSuite_keeps hlock hunlock hgo o).bind fun _ => Follows.read.bind fun _ =>
          (say_keeps hlock hunlock _).bind fun _ => Follows.pure _

theorem run_keeps (e : Entry) : Keeps (run k b go e) :=
  (Follows.change _).bind fun _ => runFiltered_keeps hlock hunlock hgo e.matcher.sel

theorem runFromEnv_keeps (v : Vars) : Keeps (runFromEnv k b go v) := by
  unfold runFromEnv
  split_ifs
  · exact Follows.read.bind fun _ =>
      (Follows.forM (emitRaw_keeps hlock hunlock) _).bind fun _ => Follows.leave Left.exit
  · exact run_keeps hlock hunlock hgo (cascadeEntry v)

/-! ## Test code -/

/-- Induction on the script. -/
theorem interp_keeps (script : Script) : Keeps (interp k b go script) := by
  induction script with
  | done => exact Follows.pure ()
  | call c next ih => exact call_keeps hlock hunlock c ih
  | protect one zero ihone ihzero => exact potProtect_keeps ihone ihzero
  | run e next ih => exact (run_keeps hlock hunlock hgo e).bind ih
  | runFromEnv v next ih => exact (runFromEnv_keeps hlock hunlock hgo v).bind ih

omit hgo in
/-- Induction on the fuel. -/
theorem exec_keeps (n : Nat) (script : Script) : Keeps (exec k b n script) := by
  induction n generalizing script with
  | zero => exact Follows.leave Left.fuel
  | succ n ih => exact interp_keeps hlock hunlock ih script

end Harness

/-! ## Reading the trace -/

/-- A call of one of the hooks. -/
def isHook : HookStep → Bool
  | .lock => true
  | .unlock => true
  | _ => false

/-- The last call of a hook was a lock. -/
def LockHeld (front : List HookStep) : Prop :=
  (front.filter isHook).getLast? = some .lock

/-- What a thread may do with a mutex that is not recursive. -/
structure LockDiscipline (t : List HookStep) : Prop where
  /-- Lock, unlock, lock, unlock, up to an unlock. -/
  alternates : ∃ m, t.filter isHook = (List.replicate m [HookStep.lock, .unlock]).flatten
  /-- No lock is taken twice, so the thread never waits for itself. -/
  locks : ∀ front back, t = front ++ .lock :: back → ¬ LockHeld front
  unlocks : ∀ front back, t = front ++ .unlock :: back → LockHeld front
  writes : ∀ front data back, t = front ++ .write data :: back → LockHeld front
  enters : ∀ front hook f back, t = front ++ .enter hook f :: back → ¬ LockHeld front
  jumps : ∀ front back, t = front ++ .longjmp :: back → ¬ LockHeld front

theorem mutex_reads {t : List HookStep} {held : Bool} (h : t.foldlM mutex false = some held) :
    ∃ m, t.filter isHook =
      (List.replicate m [HookStep.lock, .unlock]).flatten ++ if held then [.lock] else [] := by
  induction t using List.reverseRecOn generalizing held with
  | nil =>
      cases h
      exact ⟨0, rfl⟩
  | append_singleton front e ih =>
      obtain ⟨p, hfront, hlast⟩ := accepted_append.mp h
      obtain ⟨m, hm⟩ := ih hfront
      rw [List.filter_append, hm]
      match p, e, hlast with
      | false, .lock, rfl => exact ⟨m, by simp [isHook]⟩
      | false, .enter _ _, rfl => exact ⟨m, by simp [isHook]⟩
      | false, .longjmp, rfl => exact ⟨m, by simp [isHook]⟩
      | true, .write _, rfl => exact ⟨m, by simp [isHook]⟩
      | true, .unlock, rfl => exact ⟨m + 1, by simp [isHook, List.replicate_succ']⟩

/-- The state of the mutex is the one that the calls of the hooks show. -/
theorem lockHeld_iff {front : List HookStep} {held : Bool}
    (h : front.foldlM mutex false = some held) : LockHeld front ↔ held = true := by
  obtain ⟨m, hm⟩ := mutex_reads h
  rw [LockHeld, hm]
  cases held with
  | true => simp
  | false =>
    cases m with
    | zero => simp
    | succ m => simp [List.replicate_succ']

/-- The events that need the mutex.  The others need it free. -/
def underLock : HookStep → Bool
  | .unlock => true
  | .write _ => true
  | _ => false

theorem underLock_of_allowed {held held' : Bool} {e : HookStep}
    (h : mutex held e = some held') : underLock e = held := by
  match held, e, h with
  | false, .lock, _ => rfl
  | false, .enter _ _, _ => rfl
  | false, .longjmp, _ => rfl
  | true, .write _, _ => rfl
  | true, .unlock, _ => rfl

theorem lockDiscipline_of_mutex {t : List HookStep} (h : t.foldlM mutex false = some false) :
    LockDiscipline t := by
  have hbefore : ∀ {front back e}, t = front ++ e :: back →
      (LockHeld front ↔ underLock e = true) := by
    intro front back e hsplit
    rw [hsplit] at h
    obtain ⟨held, held', hfront, hstep⟩ := accepted_split h
    rw [underLock_of_allowed hstep]
    exact lockHeld_iff hfront
  obtain ⟨m, hm⟩ := mutex_reads h
  exact
    { alternates := ⟨m, by simpa using hm⟩
      locks := fun _ _ hsplit => (hbefore hsplit).not.mpr Bool.false_ne_true
      unlocks := fun _ _ hsplit => (hbefore hsplit).mpr rfl
      writes := fun _ _ _ hsplit => (hbefore hsplit).mpr rfl
      enters := fun _ _ _ _ hsplit => (hbefore hsplit).not.mpr Bool.false_ne_true
      jumps := fun _ _ hsplit => (hbefore hsplit).not.mpr Bool.false_ne_true }

/-- The calls of the hooks alternate, the writer is called under the lock, and test
code and `longjmp` only run without it: in both modes, with and without
`pot_protect`, for every registry and for whatever the test code does. -/
theorem lock_discipline (mode : Mode) (protect : Bool) (b : TestBinary ω) (n : Nat)
    (main : Script) (s : Sys ω) :
    LockDiscipline (hookTrace ⟨mode, protect, true, true⟩ b n main s) := by
  have hrun := exec_keeps (k := ⟨mode, protect, true, true⟩) rfl rfl (b := b) n main s
  rw [ite_self] at hrun
  exact lockDiscipline_of_mutex hrun

/-- Two calls of `pot_abort` under one `pot_protect`: the first one jumps. -/
example :
    hookTrace ⟨.text, true, true, true⟩ ⟨fun _ w => (.done, w), []⟩ 1
      (.protect (.call .abort .done) (.call .abort .done)) ⟨Globals.init, (), []⟩ =
      [.lock, .unlock, .longjmp, .lock, .unlock] := by
  decide

end PolyOnTest.Run
