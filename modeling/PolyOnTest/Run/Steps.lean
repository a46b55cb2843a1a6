import PolyOnTest.Harness.Runner

/-!
# What test code does to the harness

A function of the test binary only appends to the trace, and it changes the two
flags of the current case and nothing else that the runner counts on.  `Grew`
says this for any stretch of a run; stretches compose (`Grew.trans`), and each
entry into test code is one (`enter_grew`).

An invariant of the globals is a parameter: `Invariant p I` says that neither
the runner nor any call of the program breaks `I`.  The main instance is that a
program that registers nothing keeps the registry (`quiet_invariant`).
-/

namespace PolyOnTest.Run

open CodeLib.CMemory PolyOnTest.Harness

variable {ω : Type}

/-! ## Calls -/

/-- A call that makes the current case fail. -/
def fails : Call → Bool
  | .failAt .. => true
  | .abort => true
  | _ => false

/-- A call that makes the current case a skip. -/
def ignores : Call → Bool
  | .ignore _ => true
  | _ => false

/-- A call that leaves the registry alone. -/
def quiet : Call → Bool
  | .register _ => false
  | .registerSuite _ => false
  | .registerGroup _ => false
  | _ => true

/-- The steps of a list of calls. -/
def callSteps (g : Globals) : List Call → List Step
  | [] => []
  | c :: cs => .call c :: ((c.msgs g).map .msg ++ callSteps (c.effect g) cs)

/-- Every call that the program can make is in `ok`. -/
def CallsOnly (p : Program ω) (ok : Call → Prop) : Prop :=
  ∀ f w, ∀ c ∈ (p.code f w).1, ok c

/-- An invariant of the globals that the runner and the program keep. -/
structure Invariant (p : Program ω) (I : Globals → Prop) : Prop where
  call : CallsOnly p fun c => ∀ g, I g → I (c.effect g)
  case : ∀ g id, I g →
    I { g with cur := id, currentFailed := false, currentSkipped := false }
  counters : ∀ g a b c, I g → I { g with passed := a, failed := b, skipped := c }

/-- The registry and the filters stay as they are. -/
theorem quiet_invariant {p : Program ω} (h : CallsOnly p fun c => quiet c)
    (env : Env) : Invariant p fun g => g.env = env where
  call := by
    intro f w c hc g hg
    have hq := h f w c hc
    cases c <;> first | exact hg | simp [quiet] at hq
  case := fun _ _ hg => hg
  counters := fun _ _ _ _ hg => hg

/-- Two invariants hold together. -/
theorem Invariant.and {p : Program ω} {I J : Globals → Prop} (hI : Invariant p I)
    (hJ : Invariant p J) : Invariant p fun g => I g ∧ J g where
  call := fun f w c hc g hg => ⟨hI.call f w c hc g hg.1, hJ.call f w c hc g hg.2⟩
  case := fun g id hg => ⟨hI.case g id hg.1, hJ.case g id hg.2⟩
  counters := fun g a b c hg => ⟨hI.counters g a b c hg.1, hJ.counters g a b c hg.2⟩

@[simp] theorem effect_cur (g : Globals) (c : Call) : (c.effect g).cur = g.cur := by
  cases c <;> rfl

@[simp] theorem effect_passed (g : Globals) (c : Call) :
    (c.effect g).passed = g.passed := by
  cases c <;> rfl

@[simp] theorem effect_failed (g : Globals) (c : Call) :
    (c.effect g).failed = g.failed := by
  cases c <;> rfl

@[simp] theorem effect_skipped (g : Globals) (c : Call) :
    (c.effect g).skipped = g.skipped := by
  cases c <;> rfl

theorem effect_currentFailed (g : Globals) (c : Call) :
    (c.effect g).currentFailed = (g.currentFailed || fails c) := by
  cases c <;> simp [Call.effect, fails]

theorem effect_currentSkipped (g : Globals) (c : Call) :
    (c.effect g).currentSkipped = (g.currentSkipped || ignores c) := by
  cases c <;> simp [Call.effect, ignores]

/-! ## Stretches of a run -/

/-- From `s` to `s'` the trace grew by `steps`, by test code only. -/
structure Grew (I : Globals → Prop) (s s' : Sys ω) (steps : List Step) : Prop where
  trace : s'.trace = s.trace ++ steps
  cur : s'.g.cur = s.g.cur
  passed : s'.g.passed = s.g.passed
  failed : s'.g.failed = s.g.failed
  skipped : s'.g.skipped = s.g.skipped
  currentFailed :
    s'.g.currentFailed = (s.g.currentFailed || (calls steps).any fails)
  currentSkipped :
    s'.g.currentSkipped = (s.g.currentSkipped || (calls steps).any ignores)
  inv : I s'.g

theorem calls_append (a b : List Step) : calls (a ++ b) = calls a ++ calls b :=
  List.filterMap_append ..

theorem messages_append (a b : List Step) :
    messages (a ++ b) = messages a ++ messages b :=
  List.filterMap_append ..

theorem executed_append (a b : List Step) :
    executed (a ++ b) = executed a ++ executed b :=
  List.filterMap_append ..

@[simp] theorem calls_map_msg (ms : List Msg) : calls (ms.map .msg) = [] := by
  induction ms with
  | nil => rfl
  | cons m ms ih => exact ih

@[simp] theorem messages_map_msg (ms : List Msg) :
    messages (ms.map .msg) = ms := by
  induction ms with
  | nil => rfl
  | cons m ms ih => exact congrArg (m :: ·) ih

theorem Grew.refl {I : Globals → Prop} {s : Sys ω} (h : I s.g) : Grew I s s [] := by
  constructor <;> simp [calls, h]

theorem Grew.trans {I : Globals → Prop} {s t u : Sys ω} {a b : List Step}
    (hab : Grew I s t a) (hbc : Grew I t u b) : Grew I s u (a ++ b) where
  trace := by rw [hbc.trace, hab.trace, List.append_assoc]
  cur := hbc.cur.trans hab.cur
  passed := hbc.passed.trans hab.passed
  failed := hbc.failed.trans hab.failed
  skipped := hbc.skipped.trans hab.skipped
  currentFailed := by
    rw [hbc.currentFailed, hab.currentFailed, calls_append, List.any_append,
      Bool.or_assoc]
  currentSkipped := by
    rw [hbc.currentSkipped, hab.currentSkipped, calls_append, List.any_append,
      Bool.or_assoc]
  inv := hbc.inv

/-- The calls of one function, by induction on the calls. -/
theorem foldl_call_grew {I : Globals → Prop} {cs : List Call}
    (hok : ∀ c ∈ cs, ∀ g, I g → I (c.effect g)) {s : Sys ω} (h : I s.g) :
    Grew I s (cs.foldl Sys.call s) (callSteps s.g cs) := by
  induction cs generalizing s with
  | nil => exact Grew.refl h
  | cons c cs ih =>
      have hstep : Grew I s (s.call c) (.call c :: (c.msgs s.g).map .msg) := by
        have hcalls : calls (.call c :: (c.msgs s.g).map .msg) = [c] :=
          congrArg (c :: ·) (calls_map_msg _)
        constructor
        · rfl
        · exact effect_cur s.g c
        · exact effect_passed s.g c
        · exact effect_failed s.g c
        · exact effect_skipped s.g c
        · rw [hcalls]
          simpa [Sys.call] using effect_currentFailed s.g c
        · rw [hcalls]
          simpa [Sys.call] using effect_currentSkipped s.g c
        · exact hok c (by simp) s.g h
      have hrest := ih (fun d hd => hok d (by simp [hd])) hstep.inv
      exact hstep.trans hrest

/-- What an entry into test code leaves in the trace. -/
def Entered (p : Program ω) (I : Globals → Prop) (hook : Hook) (f : Option FnId)
    (cur : CaseId) (steps : List Step) : Prop :=
  match f with
  | none => steps = []
  | some f => ∃ w g, I g ∧ g.cur = cur ∧
      steps = .enter hook f :: callSteps g (p.code f w).1

/-- The spec of `Sys.enter`. -/
theorem enter_grew {p : Program ω} {I : Globals → Prop} (hI : Invariant p I)
    (hook : Hook) (f : Option FnId) {s : Sys ω} (h : I s.g) :
    ∃ steps, Entered p I hook f s.g.cur steps ∧ Grew I s (s.enter p hook f) steps := by
  cases f with
  | none => exact ⟨[], rfl, Grew.refl h⟩
  | some f =>
    refine ⟨.enter hook f :: callSteps s.g (p.code f s.world).1,
      ⟨s.world, s.g, h, rfl, rfl⟩, ?_⟩
    have hcalls := @foldl_call_grew ω I (p.code f s.world).1 (hI.call f s.world)
      ⟨s.g, (p.code f s.world).2, s.trace ++ [.enter hook f]⟩ h
    exact
      { trace := by
          rw [List.append_cons]
          exact hcalls.trace
        cur := hcalls.cur
        passed := hcalls.passed
        failed := hcalls.failed
        skipped := hcalls.skipped
        currentFailed := hcalls.currentFailed
        currentSkipped := hcalls.currentSkipped
        inv := hcalls.inv }

/-! ## Messages of test code -/

/-- A message that test code can cause while `cur` is the current case. -/
def FromCase (cur : CaseId) : Msg → Prop
  | .assertFail id .. => id = cur
  | .ignored id _ => id = cur
  | _ => False

theorem fromCase_msgs {g : Globals} {c : Call} {m : Msg} (h : m ∈ c.msgs g) :
    FromCase g.cur m := by
  rcases c with ⟨file, line, message⟩ | (_ | message) | _ | _ | _ | _ | _ | _ | _
  all_goals simp only [Call.msgs, List.not_mem_nil] at h
  · rw [List.mem_singleton.mp h]
    rfl
  · split_ifs at h
    · rw [List.mem_singleton.mp h]
      rfl
    · simp at h

theorem messages_callSteps_cons (g : Globals) (c : Call) (cs : List Call) :
    messages (callSteps g (c :: cs)) =
      c.msgs g ++ messages (callSteps (c.effect g) cs) := by
  have hsplit : messages (callSteps g (c :: cs)) =
      messages ((c.msgs g).map .msg ++ callSteps (c.effect g) cs) := rfl
  rw [hsplit, messages_append, messages_map_msg]

theorem calls_callSteps (g : Globals) (cs : List Call) :
    calls (callSteps g cs) = cs := by
  induction cs generalizing g with
  | nil => rfl
  | cons c cs ih =>
      have hsplit : calls (callSteps g (c :: cs)) =
          c :: calls ((c.msgs g).map .msg ++ callSteps (c.effect g) cs) := rfl
      rw [hsplit, calls_append, calls_map_msg, ih]
      rfl

theorem executed_callSteps (g : Globals) (cs : List Call) :
    executed (callSteps g cs) = [] := by
  induction cs generalizing g with
  | nil => rfl
  | cons c cs ih =>
      have hmsgs : ∀ ms : List Msg, executed (ms.map .msg) = [] := by
        intro ms
        induction ms with
        | nil => rfl
        | cons m ms ih => exact ih
      have hsplit : executed (callSteps g (c :: cs)) =
          executed ((c.msgs g).map .msg ++ callSteps (c.effect g) cs) := rfl
      rw [hsplit, executed_append, hmsgs, ih]
      rfl

theorem fromCase_callSteps {g : Globals} {cs : List Call} {m : Msg}
    (h : m ∈ messages (callSteps g cs)) : FromCase g.cur m := by
  induction cs generalizing g with
  | nil => simp [callSteps, messages] at h
  | cons c cs ih =>
      rw [messages_callSteps_cons, List.mem_append] at h
      rcases h with h | h
      · exact fromCase_msgs h
      · have hrest := ih h
        rwa [effect_cur] at hrest

theorem Entered.fromCase {p : Program ω} {I : Globals → Prop} {hook : Hook}
    {f : Option FnId} {cur : CaseId} {steps : List Step}
    (h : Entered p I hook f cur steps) {m : Msg} (hm : m ∈ messages steps) :
    FromCase cur m := by
  cases f with
  | none =>
    rw [show steps = [] from h] at hm
    simp [messages] at hm
  | some f =>
    obtain ⟨w, g, -, rfl, rfl⟩ := h
    exact @fromCase_callSteps g (p.code f w).1 m hm

theorem Entered.executed {p : Program ω} {I : Globals → Prop} {hook : Hook}
    {f : Option FnId} {cur : CaseId} {steps : List Step}
    (h : Entered p I hook f cur steps) : executed steps = [] := by
  cases f with
  | none =>
    rw [show steps = [] from h]
    rfl
  | some f =>
    obtain ⟨w, g, -, -, rfl⟩ := h
    exact executed_callSteps g _

theorem msgs_callSteps {g : Globals} {cs : List Call} {m : Msg}
    (h : m ∈ messages (callSteps g cs)) :
    ∃ c ∈ cs, ∃ g', g'.cur = g.cur ∧ m ∈ c.msgs g' := by
  induction cs generalizing g with
  | nil => simp [callSteps, messages] at h
  | cons c cs ih =>
      rw [messages_callSteps_cons, List.mem_append] at h
      rcases h with h | h
      · exact ⟨c, by simp, g, rfl, h⟩
      · obtain ⟨d, hd, g', hcur, hm⟩ := ih h
        exact ⟨d, by simp [hd], g', hcur.trans (effect_cur g c), hm⟩

/-- Each message of a stretch of test code is the message of a call of its
function. -/
theorem Entered.msg_source {p : Program ω} {I : Globals → Prop} {hook : Hook}
    {f : Option FnId} {cur : CaseId} {steps : List Step}
    (h : Entered p I hook f cur steps) {m : Msg} (hm : m ∈ messages steps) :
    ∃ f', f = some f' ∧ ∃ w, ∃ c ∈ (p.code f' w).1, ∃ g, g.cur = cur ∧
      m ∈ c.msgs g := by
  cases f with
  | none =>
    rw [show steps = [] from h] at hm
    simp [messages] at hm
  | some f =>
    obtain ⟨w, g, -, rfl, rfl⟩ := h
    obtain ⟨c, hc, g', hcur, hsource⟩ := @msgs_callSteps g (p.code f w).1 m hm
    exact ⟨f, rfl, w, c, hc, g', hcur, hsource⟩

/-- The calls in a stretch of test code are those of its function. -/
theorem Entered.calls_ok {p : Program ω} {I : Globals → Prop} {hook : Hook}
    {f : Option FnId} {cur : CaseId} {steps : List Step} {ok : Call → Prop}
    (h : Entered p I hook f cur steps)
    (hok : ∀ f', f = some f' → ∀ w, ∀ c ∈ (p.code f' w).1, ok c) :
    ∀ c ∈ calls steps, ok c := by
  intro c hc
  cases f with
  | none =>
    rw [show steps = [] from h] at hc
    simp [calls] at hc
  | some f =>
    obtain ⟨w, g, -, -, rfl⟩ := h
    have hmem : c ∈ calls (callSteps g (p.code f w).1) := hc
    rw [calls_callSteps] at hmem
    exact hok f rfl w c hmem

end PolyOnTest.Run
