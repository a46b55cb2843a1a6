import PolyOnTest.Run.Scripts

/-!
# What calls leave behind

Programs whose functions make the same calls each time, any calls but those that
register.  `run_filtered` resets the two flags of a case in front of it.  It does
not reset the parameter row and the mark of `pot_protect`: the first is left to
`pot_clear_param`, which an early return out of `POT_FOR_EACH` passes by, and
the second to the jump of `pot_abort`.

`Left` says which of the two some calls leave behind, `Tidy` that it is neither.
`Made` and `Reached` follow the calls through the fixtures and the bodies of a
run.
-/

namespace PolyOnTest.Run

open CodeLib.CMemory PolyOnTest.Harness

variable {ω : Type}

/-! ## Scripts -/

/-- Each function makes the calls of its script, and none of them registers. -/
structure QuietScripts (p : Program ω) (script : FnId → List Call) : Prop where
  code : ∀ f w, (p.code f w).1 = script f
  quiet : ∀ f, ∀ c ∈ script f, quiet c = true

theorem QuietScripts.callsOnly {p : Program ω} {script : FnId → List Call}
    (h : QuietScripts p script) : CallsOnly p fun c => Run.quiet c := by
  intro f w c hc
  rw [h.code f w] at hc
  exact h.quiet f c hc

/-- The calls of a function that may be missing. -/
def hookCalls (script : FnId → List Call) (f : Option FnId) : List Call :=
  (f.map script).getD []

/-- The calls between the start and the end of a case. -/
def windowCalls (script : FnId → List Call) (reg : Registry) (t : Case) : List Call :=
  hookCalls script ((findGroup reg t.suite t.group).bind Group.setup) ++
    hookCalls script t.fn ++
      hookCalls script ((findGroup reg t.suite t.group).bind Group.teardown)

/-- The calls of the fixtures that run when the loop comes from one suite to
another. -/
def switchCalls (script : FnId → List Call) (reg : Registry) (o s : Option CStr) :
    List Call :=
  if strCmp o s ≠ .eq then
    (match o with
      | none => []
      | some _ => hookCalls script ((findSuite reg o).bind Suite.teardown)) ++
      hookCalls script ((findSuite reg s).bind Suite.setup)
  else []

/-- The calls in front of each case: those since the start of the case before it
(the calls `pending` for the first one). -/
def stretches (script : FnId → List Call) (reg : Registry) :
    Option CStr → List Call → List Case → List (List Call)
  | _, _, [] => []
  | o, pending, t :: ts =>
      (pending ++ switchCalls script reg o t.suite) ::
        stretches script reg t.suite (windowCalls script reg t) ts

/-- Whether a row is active behind some calls. -/
def leavesRow (active : Bool) : List Call → Bool
  | [] => active
  | .setParam .. :: cs => leavesRow true cs
  | .clearParam :: cs => leavesRow false cs
  | _ :: cs => leavesRow active cs

/-- Whether `pot_protect` has left its mark behind some calls. -/
def leavesMark (active : Bool) : List Call → Bool
  | [] => active
  | .protect :: cs => leavesMark true cs
  | .abort :: cs => leavesMark false cs
  | _ :: cs => leavesMark active cs

/-- Behind the calls there is no row and no mark. -/
def Tidy (cs : List Call) : Prop :=
  leavesRow false cs = false ∧ leavesMark false cs = false

instance (cs : List Call) : Decidable (Tidy cs) :=
  inferInstanceAs (Decidable (_ ∧ _))

/-! ## What calls leave behind -/

theorem leavesRow_append (active : Bool) (a b : List Call) :
    leavesRow active (a ++ b) = leavesRow (leavesRow active a) b := by
  induction a generalizing active with
  | nil => rfl
  | cons c a ih => cases c <;> exact ih _

theorem leavesMark_append (active : Bool) (a b : List Call) :
    leavesMark active (a ++ b) = leavesMark (leavesMark active a) b := by
  induction a generalizing active with
  | nil => rfl
  | cons c a ih => cases c <;> exact ih _

/-- Calls that clear a row also leave none when there was none. -/
theorem leavesRow_false {active : Bool} {cs : List Call}
    (h : leavesRow active cs = false) : leavesRow false cs = false := by
  induction cs generalizing active with
  | nil => rfl
  | cons c cs ih => cases c <;> first | exact h | exact @ih active h

theorem leavesMark_false {active : Bool} {cs : List Call}
    (h : leavesMark active cs = false) : leavesMark false cs = false := by
  induction cs generalizing active with
  | nil => rfl
  | cons c cs ih => cases c <;> first | exact h | exact @ih active h

/-- The last calls of a tidy stretch are tidy. -/
theorem Tidy.suffix {a b : List Call} (h : Tidy (a ++ b)) : Tidy b := by
  unfold Tidy at h
  rw [leavesRow_append, leavesMark_append] at h
  exact ⟨leavesRow_false h.1, leavesMark_false h.2⟩

/-- The globals have what the calls leave behind. -/
structure Left (g : Globals) (cs : List Call) : Prop where
  row : g.paramActive = leavesRow false cs
  mark : g.protectActive = leavesMark false cs
  index : g.paramActive = false → g.paramIndex = 0 ∧ g.param = none

theorem Left.foldl {g : Globals} {a : List Call} (h : Left g a) (b : List Call) :
    Left (b.foldl Call.effect g) (a ++ b) := by
  induction b generalizing g a with
  | nil => simpa using h
  | cons c b ih =>
      have hstep : Left (c.effect g) (a ++ [c]) := by
        have hrow := h.row
        have hmark := h.mark
        constructor
        · rw [leavesRow_append, ← hrow]
          cases c <;> rfl
        · rw [leavesMark_append, ← hmark]
          cases c <;> rfl
        · have hindex := h.index
          cases c <;> first | exact hindex | simp [Call.effect]
      rw [List.append_cons]
      exact ih hstep

/-- A tidy stretch leaves what a fresh process has. -/
theorem Left.reset {g : Globals} {cs : List Call} (h : Left g cs) (htidy : Tidy cs) :
    Left g [] where
  row := h.row.trans htidy.1
  mark := h.mark.trans htidy.2
  index := h.index

/-! ## Stretches of test code -/

theorem foldl_currentFailed (cs : List Call) (g : Globals) :
    (cs.foldl Call.effect g).currentFailed = (g.currentFailed || cs.any fails) := by
  induction cs generalizing g with
  | nil => simp
  | cons c cs ih =>
      rw [List.foldl_cons, ih, effect_currentFailed, List.any_cons, Bool.or_assoc]

theorem foldl_currentSkipped (cs : List Call) (g : Globals) :
    (cs.foldl Call.effect g).currentSkipped = (g.currentSkipped || cs.any ignores) := by
  induction cs generalizing g with
  | nil => simp
  | cons c cs ih =>
      rw [List.foldl_cons, ih, effect_currentSkipped, List.any_cons, Bool.or_assoc]

theorem messages_callSteps_append (g : Globals) (a b : List Call) :
    messages (callSteps g (a ++ b)) =
      messages (callSteps g a) ++ messages (callSteps (a.foldl Call.effect g) b) := by
  induction a generalizing g with
  | nil => rfl
  | cons c a ih =>
      rw [List.cons_append, messages_callSteps_cons, messages_callSteps_cons, ih,
        List.append_assoc]
      rfl

/-- The messages of a call depend on the current case and the row only. -/
theorem msgs_sameRow {g g' : Globals} (hcur : g.cur = g'.cur)
    (hactive : g.paramActive = g'.paramActive) (hindex : g.paramIndex = g'.paramIndex)
    (c : Call) : c.msgs g = c.msgs g' := by
  have hmessage : messageWithParam g = messageWithParam g' := by
    funext message
    unfold messageWithParam
    rw [hactive, hindex]
  unfold Call.msgs
  rw [hcur, hmessage]

theorem messages_callSteps_congr {g g' : Globals} (hcur : g.cur = g'.cur)
    (hactive : g.paramActive = g'.paramActive) (hindex : g.paramIndex = g'.paramIndex)
    (cs : List Call) : messages (callSteps g cs) = messages (callSteps g' cs) := by
  induction cs generalizing g g' with
  | nil => rfl
  | cons c cs ih =>
      rw [messages_callSteps_cons, messages_callSteps_cons, msgs_sameRow hcur hactive hindex]
      congr 1
      refine ih ?_ ?_ ?_
      · rw [effect_cur, effect_cur, hcur]
      · cases c <;> first | exact hactive | rfl
      · cases c <;> first | exact hindex | rfl

/-- From `s` to `s'` test code made some calls. -/
structure Made (s s' : Sys ω) (cs : List Call) : Prop where
  globals : s'.g = cs.foldl Call.effect s.g
  trace : ∃ steps, s'.trace = s.trace ++ steps ∧ executed steps = [] ∧
    messages steps = messages (callSteps s.g cs)

theorem Made.trans {s t u : Sys ω} {a b : List Call} (hab : Made s t a)
    (hbc : Made t u b) : Made s u (a ++ b) where
  globals := by rw [hbc.globals, hab.globals, List.foldl_append]
  trace := by
    obtain ⟨x, hx, hxe, hxm⟩ := hab.trace
    obtain ⟨y, hy, hye, hym⟩ := hbc.trace
    refine ⟨x ++ y, by rw [hy, hx, List.append_assoc], ?_, ?_⟩
    · rw [executed_append, hxe, hye]
      rfl
    · rw [messages_append, messages_callSteps_append, hxm, hym, hab.globals]

section Scripted

variable {p : Program ω} {script : FnId → List Call}

/-- The spec of `Sys.enter` for a script. -/
theorem QuietScripts.enter_made (h : QuietScripts p script) (hook : Hook) (f : Option FnId)
    (s : Sys ω) : Made s (s.enter p hook f) (hookCalls script f) := by
  cases f with
  | none => exact ⟨rfl, [], (List.append_nil _).symm, rfl, rfl⟩
  | some f =>
    have hcalls : ∀ (cs : List Call) (s : Sys ω),
        (cs.foldl Sys.call s).g = cs.foldl Call.effect s.g ∧
          (cs.foldl Sys.call s).trace = s.trace ++ callSteps s.g cs := by
      intro cs
      induction cs with
      | nil => exact fun s => ⟨rfl, (List.append_nil _).symm⟩
      | cons c cs ih =>
          intro s
          refine ⟨(ih (s.call c)).1, (ih (s.call c)).2.trans ?_⟩
          simp [Sys.call, callSteps]
    unfold Sys.enter
    dsimp only
    rw [h.code f s.world]
    refine ⟨(hcalls _ _).1, .enter hook f :: callSteps s.g (script f), ?_, ?_, rfl⟩
    · rw [(hcalls _ _).2]
      simp
    · exact executed_callSteps s.g (script f)

/-- The spec of the block that runs a case between its fixtures. -/
theorem QuietScripts.runBody_made (h : QuietScripts p script) (t : Case) (s : Sys ω) :
    Made s (runBody p t s) (windowCalls script s.g.env.reg t) :=
  ((h.enter_made .groupSetup _ s).trans (h.enter_made .body t.fn _)).trans
    (h.enter_made .groupTeardown _ _)

end Scripted

/-- From `s` to `s'` no case was taken, and the globals are those behind some
calls. -/
structure Reached (s s' : Sys ω) (cs : List Call) : Prop where
  globals : s'.g = cs.foldl Call.effect s.g
  trace : ∃ steps, s'.trace = s.trace ++ steps ∧ executed steps = []

theorem Made.reached {s s' : Sys ω} {cs : List Call} (h : Made s s' cs) :
    Reached s s' cs where
  globals := h.globals
  trace := by
    obtain ⟨steps, htrace, hexecuted, -⟩ := h.trace
    exact ⟨steps, htrace, hexecuted⟩

theorem Reached.refl (s : Sys ω) : Reached s s [] :=
  ⟨rfl, [], (List.append_nil _).symm, rfl⟩

theorem Reached.say {s s' : Sys ω} {cs : List Call} (h : Reached s s' cs) (m : Msg) :
    Reached s (s'.say m) cs where
  globals := h.globals
  trace := by
    obtain ⟨steps, htrace, hexecuted⟩ := h.trace
    refine ⟨steps ++ [.msg m], ?_, ?_⟩
    · simp [Sys.say, htrace]
    · rw [executed_append, hexecuted]
      rfl

theorem Reached.trans {s t u : Sys ω} {a b : List Call} (hab : Reached s t a)
    (hbc : Reached t u b) : Reached s u (a ++ b) where
  globals := by rw [hbc.globals, hab.globals, List.foldl_append]
  trace := by
    obtain ⟨x, hx, hxe⟩ := hab.trace
    obtain ⟨y, hy, hye⟩ := hbc.trace
    refine ⟨x ++ y, by rw [hy, hx, List.append_assoc], ?_⟩
    rw [executed_append, hxe, hye]
    rfl

section Switch

variable {p : Program ω} {script : FnId → List Call} {env : Env}

/-- The spec of `close_suite` for a script. -/
theorem QuietScripts.closeSuite_reached (h : QuietScripts p script) (o : Open) (s : Sys ω) :
    Reached s (closeSuite p o s)
      (match o.suite with
        | none => []
        | some _ =>
            hookCalls script ((findSuite s.g.env.reg o.suite).bind Suite.teardown)) := by
  unfold closeSuite
  cases o.suite with
  | none => exact Reached.refl s
  | some name => exact (h.enter_made .suiteTeardown _ s).reached.say _

/-- The spec of the part of the loop that changes suites. -/
theorem QuietScripts.switchSuite_reached (h : QuietScripts p script) (t : Case)
    {x : Sys ω × Open} (henv : x.1.g.env = env) :
    Reached x.1 (switchSuite p t x).1 (switchCalls script env.reg x.2.suite t.suite) ∧
      (switchSuite p t x).1.g.env = env ∧ (switchSuite p t x).2.suite = t.suite := by
  unfold switchSuite switchCalls
  by_cases hsuite : strCmp x.2.suite t.suite ≠ .eq
  · rw [if_pos hsuite, if_pos hsuite]
    have hclose := h.closeSuite_reached x.2 x.1
    have hkeep : (closeSuite p x.2 x.1).g.env = env :=
      closeSuite_inv (quiet_invariant h.callsOnly env) x.2 henv
    have hopen := (h.enter_made .suiteSetup ((findSuite (closeSuite p x.2 x.1).g.env.reg
      t.suite).bind Suite.setup) (closeSuite p x.2 x.1)).reached.say (.suiteStart t.suite)
    rw [henv] at hclose
    rw [hkeep] at hopen
    have hswitch : Reached (closeSuite p x.2 x.1)
        (openSuiteEmit p t.suite (closeSuite p x.2 x.1))
        (hookCalls script ((findSuite env.reg t.suite).bind Suite.setup)) := by
      unfold openSuiteEmit
      rw [hkeep]
      exact hopen
    refine ⟨hclose.trans hswitch, ?_, rfl⟩
    exact enter_inv (quiet_invariant h.callsOnly env) .suiteSetup _ hkeep
  · rw [if_neg hsuite, if_neg hsuite]
    exact ⟨Reached.refl x.1, henv, strCmp_eq_iff.mp (not_not.mp hsuite)⟩

end Switch

end PolyOnTest.Run
