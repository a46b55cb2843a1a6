import PolyOnTest.Harness.Relations
import PolyOnTest.Run.Verdict

/-!
# The truth behind a verdict

Test code makes assertions, and a run returns 0 when all of them were true.  A silent
assertion leaves nothing in the trace, so the program keeps a list of the assertions that
it has evaluated (`TestCode.program`); the list decides nothing.

`run_code` is a rule for what only the test code changes: a relation between the calls of a
trace and the state of the test code holds behind a run if every function keeps it.
`run_truth` puts it together with the shape of a run and with `Assertion.calls_eq_nil`.
-/

namespace PolyOnTest.Run

open CodeLib CodeLib.CMemory PolyOnTest.Harness

variable {ω : Type}

/-! ## What the test code alone decides -/

section Rule

variable {p : Program ω} {J : List Call → ω → Prop}

/-- The relation holds of the calls so far and of the state of the test code. -/
def Sees (J : List Call → ω → Prop) (s : Sys ω) : Prop := J (calls s.trace) s.world

theorem Sees.same {s s' : Sys ω} (h : Sees J s) (htrace : calls s'.trace = calls s.trace)
    (hworld : s'.world = s.world) : Sees J s' := by
  unfold Sees
  rw [htrace, hworld]
  exact h

theorem Sees.say {s : Sys ω} (h : Sees J s) (m : Msg) : Sees J (s.say m) := by
  refine h.same ?_ rfl
  show calls (s.trace ++ [.msg m]) = _
  rw [calls_append]
  exact List.append_nil _

theorem call_calls (s : Sys ω) (c : Call) : calls (s.call c).trace = calls s.trace ++ [c] := by
  show calls (s.trace ++ .call c :: (c.msgs s.g).map .msg) = _
  rw [calls_append]
  show _ ++ c :: calls ((c.msgs s.g).map .msg) = _
  rw [calls_map_msg]

theorem foldl_call (cs : List Call) (s : Sys ω) :
    calls (cs.foldl Sys.call s).trace = calls s.trace ++ cs ∧
      (cs.foldl Sys.call s).world = s.world := by
  induction cs generalizing s with
  | nil => exact ⟨(List.append_nil _).symm, rfl⟩
  | cons c cs ih =>
      obtain ⟨htrace, hworld⟩ := ih (s.call c)
      refine ⟨?_, hworld⟩
      rw [List.foldl_cons, htrace, call_calls, List.append_assoc, List.singleton_append]

/-- Every function keeps the relation. -/
def KeptByCode (p : Program ω) (J : List Call → ω → Prop) : Prop :=
  ∀ f w cs, J cs w → J (cs ++ (p.code f w).1) (p.code f w).2

theorem Sees.enter {s : Sys ω} (h : Sees J s) (hcode : KeptByCode p J) (hook : Hook)
    (f : Option FnId) : Sees J (s.enter p hook f) := by
  cases f with
  | none => exact h
  | some f =>
    obtain ⟨htrace, hworld⟩ := foldl_call (p.code f s.world).1
      { s with world := (p.code f s.world).2, trace := s.trace ++ [.enter hook f] }
    unfold Sees Sys.enter
    dsimp only
    rw [htrace, hworld]
    dsimp only
    rw [calls_append]
    show J (calls s.trace ++ [] ++ _) _
    rw [List.append_nil]
    exact hcode f s.world _ h

/-- Every stretch of a run keeps the relation. -/
theorem sees_stretch (hcode : KeptByCode p J) :
    Stretch p fun s s' => Sees J s → Sees J s' where
  refl _ := id
  trans h h' := h' ∘ h
  say _ m _ h := h.say m
  enter _ hook f h := h.enter hcode hook f
  begin s t h := by
    refine h.same ?_ rfl
    show calls (s.trace ++ [.take t]) = _
    rw [calls_append]
    exact List.append_nil _
  count s status h := by
    cases status <;> exact h

/-- What every function of the test code keeps, a run keeps. -/
theorem run_code {s : Sys ω} (hcode : KeptByCode p J) (h : Sees J s) (e : Entry) :
    Sees J (e.run p s).1 := by
  obtain ⟨group, name, hfilters⟩ := filters_eq_setFilter s e
  have hstart : Sees J (prepare p (e.filters s)) := by
    rw [hfilters]
    exact h
  rw [Entry.run_matcher]
  exact (sees_stretch hcode).runFiltered _ _ hstart

end Rule

/-! ## The failing calls of a run -/

theorem calls_flatMap {α : Type} (f : α → List Step) (xs : List α) :
    calls (xs.flatMap f) = xs.flatMap fun x => calls (f x) := by
  induction xs with
  | nil => rfl
  | cons x xs ih => rw [List.flatMap_cons, List.flatMap_cons, calls_append, ih]

/-- Some call of a list fails. -/
def AnyFails (cs : List Call) : Prop := ∃ c ∈ cs, fails c = true

theorem anyFails_append (a b : List Call) : AnyFails (a ++ b) ↔ AnyFails a ∨ AnyFails b := by
  simp [AnyFails, or_and_right, exists_or]

theorem anyFails_flatMap {α : Type} (f : α → List Call) (xs : List α) :
    AnyFails (xs.flatMap f) ↔ ∃ x ∈ xs, AnyFails (f x) := by
  simp only [AnyFails, List.mem_flatMap]
  constructor
  · rintro ⟨c, ⟨x, hx, hc⟩, hfails⟩
    exact ⟨x, hx, c, hc, hfails⟩
  · rintro ⟨x, hx, c, hc, hfails⟩
    exact ⟨c, ⟨x, hx, hc⟩, hfails⟩

theorem Clean.not_anyFails {cs : List Call} (h : Clean cs) : ¬ AnyFails cs := by
  rintro ⟨c, hc, hfails⟩
  rw [h c hc] at hfails
  cases hfails

theorem calls_steps (c : CaseReport) : calls c.steps = calls c.window := by
  show calls (c.window ++ [.msg (.caseEnd c.case.id c.status)]) = _
  rw [calls_append]
  exact List.append_nil _

/-- Without a `pot_ignore`, a case fails when one of its calls does. -/
theorem failed_iff_anyFails {window : List Step} (h : ∀ c ∈ calls window, ignores c = false) :
    windowStatus window = .failed ↔ AnyFails (calls window) := by
  have hnone : (calls window).any ignores = false := by
    rw [List.any_eq_false]
    intro c hc
    rw [h c hc]
    exact Bool.false_ne_true
  unfold windowStatus AnyFails
  rw [hnone, if_neg Bool.false_ne_true, ← List.any_eq_true]
  cases (calls window).any fails <;> simp

/-- Where no fixture of a suite fails and nothing is ignored, the cases that fail have all
the failing calls. -/
theorem anyFails_run {p : Program ω} {I : Globals → Prop} {reg : Registry}
    (hfix : UnfailingSuites p reg) {rs : List SuiteReport}
    (h : ∀ r ∈ rs, ClosedReport p I reg r)
    (hignores : ∀ r ∈ rs, ∀ c ∈ r.cases, ∀ x ∈ calls c.window, ignores x = false) :
    AnyFails (calls (.msg .banner :: runSteps rs)) ↔ 0 < total rs .failed := by
  have hsuite : ∀ r ∈ rs, (AnyFails (calls r.steps) ↔ ∃ c ∈ r.cases, c.status = .failed) := by
    intro r hr
    have hopening := (opening_clean hfix (h r hr).setup).2.not_anyFails
    have hclosing := (closing_clean hfix (h r hr).teardown).2.not_anyFails
    rw [SuiteReport.steps, calls_append, calls_append, calls_flatMap, anyFails_append,
      anyFails_append, anyFails_flatMap, or_iff_right hopening, or_iff_left hclosing]
    refine exists_congr fun c => and_congr_right fun hc => ?_
    rw [calls_steps]
    exact (failed_iff_anyFails (hignores r hr c hc)).symm
  have hdone : ¬ AnyFails (calls [.msg (.done (UInt32.ofNat (total rs .passed))
      (UInt32.ofNat (total rs .failed)) (UInt32.ofNat (total rs .skipped)))]) := by
    simp [AnyFails, calls]
  show AnyFails (calls (runSteps rs)) ↔ _
  rw [runSteps, calls_append, calls_flatMap, anyFails_append, anyFails_flatMap,
    or_iff_left hdone, total_pos]
  exact exists_congr fun r => and_congr_right fun hr => hsuite r hr

/-- A run does not count more cases than there are. -/
theorem total_lt {rs : List SuiteReport} {ts : List Case} {sel : Case → Bool}
    (hcases : reportedCases rs = (sortCases ts).filter sel) (hbound : ts.length < 2 ^ 32)
    (status : TestStatus) : total rs status < 2 ^ 32 := by
  have hle := total_le rs status
  have hfilter := List.length_filter_le sel (sortCases ts)
  have hsorted := (sortCases_perm ts).length_eq
  rw [hcases] at hle
  omega

/-! ## Test code that makes assertions -/

/-- Test code: the assertions that a function evaluates, from the state of the test code. -/
structure TestCode (ω : Type) where
  code : FnId → ω → List Assertion × ω
  potInfo : List Case

/-- The program, which also lists the assertions that it has evaluated. -/
def TestCode.program (t : TestCode ω) : Program (ω × List Assertion) where
  code f w := ((t.code f w.1).1.flatMap Assertion.calls,
    ((t.code f w.1).2, w.2 ++ (t.code f w.1).1))
  potInfo := t.potInfo

/-- The arguments of every assertion are in range. -/
def TestCode.InRange (t : TestCode ω) : Prop :=
  ∀ f w, ∀ a ∈ (t.code f w).1, a.check.InRange

/-- The relation between the calls of a trace and the list, behind some of both. -/
def Listed (cs : List Call) (as : List Assertion) (calls : List Call)
    (w : ω × List Assertion) : Prop :=
  ∃ more, w.2 = as ++ more ∧ calls = cs ++ more.flatMap Assertion.calls ∧
    ∀ a ∈ more, a.check.InRange

theorem listed_code {t : TestCode ω} (h : t.InRange) (cs : List Call) (as : List Assertion) :
    KeptByCode t.program (Listed cs as) := by
  rintro f w calls ⟨more, hw, hcalls, hrange⟩
  refine ⟨more ++ (t.code f w.1).1, ?_, ?_, ?_⟩
  · show w.2 ++ _ = _
    rw [hw, List.append_assoc]
  · show calls ++ (t.code f w.1).1.flatMap Assertion.calls = _
    rw [hcalls, List.flatMap_append, List.append_assoc]
  · intro a ha
    rcases List.mem_append.mp ha with ha | ha
    · exact hrange a ha
    · exact h f w.1 a ha

/-- An assertion makes failing calls only. -/
theorem Assertion.fails_of_mem {a : Assertion} {c : Call} (h : c ∈ a.calls) :
    fails c = true ∧ ignores c = false ∧ quiet c = true := by
  rcases a.calls_eq with hnone | ⟨base, message, hone, -⟩
  · rw [hnone] at h
    exact absurd h List.not_mem_nil
  · rw [hone, List.mem_singleton] at h
    rw [h]
    exact ⟨rfl, rfl, rfl⟩

theorem TestCode.mem_code {t : TestCode ω} {f : FnId} {w : ω × List Assertion} {c : Call}
    (h : c ∈ (t.program.code f w).1) : fails c = true ∧ ignores c = false ∧ quiet c = true := by
  obtain ⟨a, -, hc⟩ := List.mem_flatMap.mp h
  exact Assertion.fails_of_mem hc

theorem anyFails_assertions {as : List Assertion} (h : ∀ a ∈ as, a.check.InRange) :
    AnyFails (as.flatMap Assertion.calls) ↔ ∃ a ∈ as, ¬ a.check.Holds := by
  rw [anyFails_flatMap]
  refine exists_congr fun a => and_congr_right fun ha => ?_
  rw [← a.calls_eq_nil (h a ha)]
  constructor
  · rintro ⟨c, hc, -⟩ hnil
    rw [hnil] at hc
    exact List.not_mem_nil hc
  · intro hne
    obtain ⟨c, hc⟩ := List.exists_mem_of_ne_nil _ hne
    exact ⟨c, hc, (Assertion.fails_of_mem hc).1⟩

/-- The fixtures of the suites only make assertions that hold. -/
def TestCode.SuitesHold (t : TestCode ω) (reg : Registry) : Prop :=
  ∀ u ∈ reg.suites, ∀ f, u.setup = some f ∨ u.teardown = some f →
    ∀ w, ∀ a ∈ (t.code f w).1, a.check.Holds

theorem TestCode.SuitesHold.unfailing {t : TestCode ω} {reg : Registry} (h : t.SuitesHold reg)
    (hrange : t.InRange) : UnfailingSuites t.program reg := by
  intro u hu f hf w c hc
  obtain ⟨a, ha, hca⟩ := List.mem_flatMap.mp hc
  have hnil := (a.calls_eq_nil (hrange f w.1 a ha)).mpr (h u hu f hf w.1 a ha)
  rw [hnil] at hca
  exact absurd hca List.not_mem_nil

/-- A run returns 0 exactly when every assertion that it has evaluated is true. -/
theorem run_truth {t : TestCode ω} (hrange : t.InRange) (e : Entry)
    (s : Sys (ω × List Assertion)) (hfix : t.SuitesHold s.g.env.reg)
    (hbound : (registered t.program s).length < 2 ^ 32) :
    ∃ evaluated, (e.run t.program s).1.world.2 = s.world.2 ++ evaluated ∧
      ((e.run t.program s).2 = 0 ↔ ∀ a ∈ evaluated, a.check.Holds) := by
  obtain ⟨evaluated, hworld, hcalls, hin⟩ := run_code (listed_code hrange (calls s.trace) s.world.2)
    (show Sees _ s from ⟨[], (List.append_nil _).symm, (List.append_nil _).symm, by simp⟩) e
  refine ⟨evaluated, hworld, ?_⟩
  obtain ⟨sel, s', hrun, htrace, hreg⟩ := Entry.run_eq t.program e s
  have hquiet : CallsOnly t.program fun c => quiet c := fun f w c hc => (t.mem_code hc).2.2
  obtain ⟨rs, hreport, hnew, hreturn, -⟩ := runFiltered_report
    (quiet_invariant hquiet (prepare t.program s').g.env) (fun _ hg => hg) sel rfl
    (sortCases_sorted (registered t.program s'))
  have hfix' : UnfailingSuites t.program (prepare t.program s').g.env.reg := by
    have hsuites : (prepare t.program s').g.env.reg.suites = s.g.env.reg.suites :=
      (collect_suites t.program s'.g.env.reg).trans (congrArg Registry.suites hreg)
    intro u hu
    exact hfix.unfailing hrange u (hsuites ▸ hu)
  have hignores : ∀ r ∈ rs, ∀ c ∈ r.cases, ∀ x ∈ calls c.window, ignores x = false := by
    intro r hr c hc x hx
    obtain ⟨setup, body, teardown, hsetup, hbody, hteardown, hwindow⟩ :=
      (hreport.reports r hr).window c hc
    rw [hwindow, calls_append, calls_append, List.mem_append, List.mem_append] at hx
    rcases hx with (hx | hx) | hx
    · exact hsetup.calls_ok (fun f _ w c hc => (t.mem_code hc).2.1) x hx
    · exact hbody.calls_ok (fun f _ w c hc => (t.mem_code hc).2.1) x hx
    · exact hteardown.calls_ok (fun f _ w c hc => (t.mem_code hc).2.1) x hx
  have hfails := anyFails_run hfix' hreport.reports hignores
  have hcallsnew : calls (.msg .banner :: runSteps rs) = evaluated.flatMap Assertion.calls := by
    rw [hrun, hnew, htrace, calls_append] at hcalls
    exact List.append_cancel_left hcalls
  rw [hcallsnew, anyFails_assertions hin] at hfails
  have htotal : total rs .failed < 2 ^ 32 := by
    rw [← registered_congr t.program hreg] at hbound
    exact total_lt hreport.cases hbound .failed
  have hzero : UInt32.ofNat (total rs .failed) = 0 ↔ ¬ 0 < total rs .failed := by
    rw [← UInt32.toNat_inj, UInt32.toNat_ofNat', Nat.mod_eq_of_lt htotal, UInt32.toNat_zero]
    omega
  have hanswer : (e.run t.program s).2 = 0 ↔ UInt32.ofNat (total rs .failed) = 0 := by
    rw [hrun, hreturn]
    by_cases hne : UInt32.ofNat (total rs .failed) = 0
    · rw [if_neg (not_not.mpr hne)]
      exact iff_of_true rfl hne
    · rw [if_pos hne]
      exact iff_of_false Nat.one_ne_zero hne
  rw [hanswer, hzero, ← hfails]
  simp

/-- The body of `Math.ops.add` compares two numbers and two arrays, which differ in an element
behind those that are compared. -/
def sumTests : TestCode Unit where
  code f w := (if f = 1 then
    [⟨.int 5 5 4 0, none, none, 7⟩, ⟨.intWithin 1 5 6, none, none, 8⟩,
      ⟨.intArray (some [1, 2, 3]) (some [1, 2, 4]) 2, none, none, 9⟩] else [], w)
  potInfo := []

/-- A fresh process with the case, in front of all assertions. -/
def sumSys : Sys (Unit × List Assertion) :=
  Sys.call ⟨.init, ((), []), []⟩ (.register (some mathCase))

theorem sumTests_inRange : sumTests.InRange := by
  intro f w a ha
  unfold sumTests at ha
  dsimp only at ha
  split_ifs at ha
  · simp only [List.mem_cons, List.not_mem_nil, or_false] at ha
    rcases ha with rfl | rfl | rfl
    · trivial
    · show distance 5 6 < 2 ^ 63
      decide
    · rintro a b ha hb
      cases ha
      cases hb
      decide
  · exact absurd ha List.not_mem_nil

/-- The assertions of the body. -/
theorem run_truth_sum :
    ∃ evaluated, (Entry.all.run sumTests.program sumSys).1.world.2 = [] ++ evaluated ∧
      ((Entry.all.run sumTests.program sumSys).2 = 0 ↔ ∀ a ∈ evaluated, a.check.Holds) :=
  run_truth sumTests_inRange .all sumSys (fun _ hu => (List.not_mem_nil hu).elim) (by decide)

end PolyOnTest.Run
