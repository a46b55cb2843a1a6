import PolyOnTest.Run.Shape
import PolyOnTest.Run.Lifecycle

/-!
# The return value of a run

When a run returns 1.  The calls of a trace fall into segments, cut where a case
starts and where it ends, so the calls of one case (group fixtures and body) are
one segment, and the calls of suite fixtures are in the segments between.

`run_verdict` says that a run returns 1 exactly when some segment has a failing
call and no `pot_ignore`, as long as no suite fixture makes a failing call.  A
skip wins over a failure in the same case (`run_ignored_failure` is the run that
shows it).
-/

namespace PolyOnTest.Run

open CodeLib.CMemory PolyOnTest.Harness

variable {ω : Type}

/-! ## Segments -/

/-- The calls of a trace, cut at the starts and the ends of the cases. -/
def segments : List Call → List Step → List (List Call)
  | cs, [] => [cs]
  | cs, .msg (.caseStart _) :: rest => cs :: segments [] rest
  | cs, .msg (.caseEnd ..) :: rest => cs :: segments [] rest
  | cs, .call c :: rest => segments (cs ++ [c]) rest
  | cs, _ :: rest => segments cs rest

/-- A failing call that no `pot_ignore` of the segment covers. -/
def uncovered (cs : List Call) : Bool := cs.any fails && !cs.any ignores

/-- Some segment has an uncovered failing call. -/
def Found (cs : List Call) (trace : List Step) : Prop :=
  ∃ seg ∈ segments cs trace, uncovered seg = true

/-- A stretch without a start or an end of a case. -/
def Inner (steps : List Step) : Prop :=
  ∀ m ∈ messages steps, (∀ id, m ≠ .caseStart id) ∧ ∀ id st, m ≠ .caseEnd id st

theorem segments_inner {steps : List Step} (h : Inner steps) (cs : List Call)
    (rest : List Step) :
    segments cs (steps ++ rest) = segments (cs ++ calls steps) rest := by
  induction steps generalizing cs with
  | nil => simp [calls]
  | cons step steps ih =>
      cases step with
      | take t => exact ih h cs
      | enter hook f => exact ih h cs
      | call c =>
        have hrest := ih h (cs ++ [c])
        rw [List.append_assoc] at hrest
        exact hrest
      | msg m =>
        have hm := h m (by simp [messages])
        have hsteps : Inner steps := fun m' hm' => h m' (by
          simp only [messages, List.filterMap_cons, List.mem_cons]
          exact Or.inr hm')
        have hrest := ih hsteps cs
        cases m with
        | caseStart id => exact absurd rfl (hm.1 id)
        | caseEnd id status => exact absurd rfl (hm.2 id status)
        | _ => exact hrest

theorem inner_of_fromCase {cur : CaseId} {steps : List Step}
    (h : ∀ m ∈ messages steps, FromCase cur m) : Inner steps := by
  intro m hm
  have hfrom := h m hm
  constructor
  · rintro id rfl
    exact hfrom
  · rintro id status rfl
    exact hfrom

theorem inner_append {a b : List Step} (ha : Inner a) (hb : Inner b) :
    Inner (a ++ b) := by
  intro m hm
  rw [messages_append, List.mem_append] at hm
  rcases hm with hm | hm
  · exact ha m hm
  · exact hb m hm

theorem found_cons (cs : List Call) (segs : List (List Call)) :
    (∃ seg ∈ cs :: segs, uncovered seg = true) ↔
      uncovered cs = true ∨ ∃ seg ∈ segs, uncovered seg = true := by
  simp

/-- Calls of which none fails. -/
def Clean (cs : List Call) : Prop := ∀ c ∈ cs, fails c = false

theorem Clean.uncovered {cs : List Call} (h : Clean cs) : uncovered cs = false := by
  have hany : cs.any fails = false := by
    rw [List.any_eq_false]
    intro c hc
    rw [h c hc]
    simp
  rw [Run.uncovered, hany, Bool.false_and]

theorem clean_entered {p : Program ω} {I : Globals → Prop} {hook : Hook}
    {f : Option FnId} {cur : CaseId} {steps : List Step}
    (h : Entered p I hook f cur steps)
    (hok : ∀ f', f = some f' → ∀ w, ∀ c ∈ (p.code f' w).1, fails c = false) :
    Clean (calls steps) :=
  h.calls_ok hok

theorem failed_iff_uncovered (window : List Step) :
    windowStatus window = .failed ↔ uncovered (calls window) = true := by
  unfold windowStatus uncovered
  cases (calls window).any ignores <;> cases (calls window).any fails <;> simp

/-! ## Segments of a report -/

theorem inner_window {p : Program ω} {I : Globals → Prop} {reg : Registry}
    {t : Case} {window : List Step} (h : WindowOf p I reg t window) :
    Inner window := by
  obtain ⟨setup, body, teardown, hsetup, hbody, hteardown, rfl⟩ := h
  apply inner_append
  · apply inner_append
    · exact inner_of_fromCase fun m hm => hsetup.fromCase hm
    · exact inner_of_fromCase fun m hm => hbody.fromCase hm
  · exact inner_of_fromCase fun m hm => hteardown.fromCase hm

theorem found_inner {steps : List Step} (h : Inner steps) (cs : List Call)
    (rest : List Step) : Found cs (steps ++ rest) ↔ Found (cs ++ calls steps) rest := by
  unfold Found
  rw [segments_inner h]

/-- A case is a segment of its own. -/
theorem found_case {p : Program ω} {I : Globals → Prop} {reg : Registry}
    {r : CaseReport} (h : WindowOf p I reg r.case r.window) {cs : List Call}
    (hcs : Clean cs) (rest : List Step) :
    Found cs (r.steps ++ rest) ↔ r.status = .failed ∨ Found [] rest := by
  have hsegments : segments cs (r.steps ++ rest) =
      cs :: calls r.window :: segments [] rest := by
    have hstart : segments cs (r.steps ++ rest) = cs :: segments [] (r.window ++
        ([.msg (.caseEnd r.case.id r.status)] ++ rest)) := by
      rw [← List.append_assoc]
      rfl
    rw [hstart, segments_inner (inner_window h)]
    rfl
  unfold Found
  rw [hsegments, found_cons, found_cons, hcs.uncovered, CaseReport.status,
    failed_iff_uncovered]
  simp

/-- The cases of a suite, by induction on them. -/
theorem found_cases {p : Program ω} {I : Globals → Prop} {reg : Registry}
    {rs : List CaseReport} (h : ∀ c ∈ rs, WindowOf p I reg c.case c.window)
    {cs : List Call} (hcs : Clean cs) (rest : List Step) :
    ∃ cs', Clean cs' ∧ (Found cs (rs.flatMap CaseReport.steps ++ rest) ↔
      (∃ c ∈ rs, c.status = .failed) ∨ Found cs' rest) := by
  induction rs generalizing cs with
  | nil => exact ⟨cs, hcs, by simp⟩
  | cons c rs ih =>
      obtain ⟨cs', hcs', hfound⟩ := @ih (fun d hd => h d (by simp [hd])) []
        (by simp [Clean])
      refine ⟨cs', hcs', ?_⟩
      rw [List.flatMap_cons, List.append_assoc, found_case (h c (by simp)) hcs, hfound]
      simp [or_assoc]

/-- The fixtures of every suite make no failing call. -/
def UnfailingSuites (p : Program ω) (reg : Registry) : Prop :=
  ∀ u ∈ reg.suites, ∀ f, u.setup = some f ∨ u.teardown = some f →
    ∀ w, ∀ c ∈ (p.code f w).1, fails c = false

section Suites

variable {p : Program ω} {I : Globals → Prop} {reg : Registry} {r : SuiteReport}

theorem inner_entered {hook : Hook} {f : Option FnId} {cur : CaseId}
    {steps : List Step} (h : Entered p I hook f cur steps) : Inner steps :=
  inner_of_fromCase fun _ hm => h.fromCase hm

theorem inner_msg {m : Msg} (hstart : ∀ id, m ≠ .caseStart id)
    (hend : ∀ id st, m ≠ .caseEnd id st) : Inner [.msg m] := by
  intro m' hm
  rw [show m' = m by simpa [messages] using hm]
  exact ⟨hstart, hend⟩

/-- The opening part of a suite has no case and no failing call. -/
theorem opening_clean (hfix : UnfailingSuites p reg) (h : SetupOf p I reg r) :
    Inner r.opening ∧ Clean (calls r.opening) := by
  unfold SuiteReport.opening
  cases hname : r.name with
  | none => exact ⟨by simp [Inner, messages], by simp [Clean, calls]⟩
  | some name =>
    rcases h with hnone | ⟨cur, hentered⟩
    · rw [hname] at hnone
      cases hnone
    · refine ⟨inner_append (inner_entered hentered) (inner_msg (by simp) (by simp)), ?_⟩
      rw [calls_append]
      intro c hc
      rcases List.mem_append.mp hc with hc | hc
      · refine clean_entered hentered (fun f hf w => ?_) c hc
        obtain ⟨u, hu, hsetup⟩ := Option.bind_eq_some_iff.mp hf
        exact hfix u (List.mem_of_find?_eq_some hu) f (Or.inl hsetup) w
      · simp [calls] at hc

/-- The closing part of a suite has no case and no failing call. -/
theorem closing_clean (hfix : UnfailingSuites p reg) (h : TeardownOf p I reg r) :
    Inner r.closing ∧ Clean (calls r.closing) := by
  unfold SuiteReport.closing
  cases hname : r.name with
  | none => exact ⟨by simp [Inner, messages], by simp [Clean, calls]⟩
  | some name =>
    rcases h with hnone | ⟨cur, hentered⟩
    · rw [hname] at hnone
      cases hnone
    · refine ⟨inner_append (inner_entered hentered) (inner_msg (by simp) (by simp)), ?_⟩
      rw [calls_append]
      intro c hc
      rcases List.mem_append.mp hc with hc | hc
      · refine clean_entered hentered (fun f hf w => ?_) c hc
        obtain ⟨u, hu, hteardown⟩ := Option.bind_eq_some_iff.mp hf
        exact hfix u (List.mem_of_find?_eq_some hu) f (Or.inr hteardown) w
      · simp [calls] at hc

theorem Clean.append {a b : List Call} (ha : Clean a) (hb : Clean b) :
    Clean (a ++ b) := by
  intro c hc
  rcases List.mem_append.mp hc with hc | hc
  · exact ha c hc
  · exact hb c hc

theorem found_suite (hfix : UnfailingSuites p reg) (h : ClosedReport p I reg r)
    {cs : List Call} (hcs : Clean cs) (rest : List Step) :
    ∃ cs', Clean cs' ∧ (Found cs (r.steps ++ rest) ↔
      (∃ c ∈ r.cases, c.status = .failed) ∨ Found cs' rest) := by
  obtain ⟨hinner, hclean⟩ := opening_clean hfix h.setup
  obtain ⟨hinner', hclean'⟩ := closing_clean hfix h.teardown
  obtain ⟨cs', hcs', hfound⟩ := found_cases h.window (hcs.append hclean)
    (r.closing ++ rest)
  refine ⟨cs' ++ calls r.closing, hcs'.append hclean', ?_⟩
  rw [SuiteReport.steps, List.append_assoc, List.append_assoc, found_inner hinner,
    hfound, found_inner hinner']

/-- The suites of a run, by induction on them. -/
theorem found_suites (hfix : UnfailingSuites p reg) {rs : List SuiteReport}
    (h : ∀ r ∈ rs, ClosedReport p I reg r) {cs : List Call} (hcs : Clean cs)
    (rest : List Step) :
    ∃ cs', Clean cs' ∧ (Found cs (rs.flatMap SuiteReport.steps ++ rest) ↔
      (∃ r ∈ rs, ∃ c ∈ r.cases, c.status = .failed) ∨ Found cs' rest) := by
  induction rs generalizing cs with
  | nil => exact ⟨cs, hcs, by simp⟩
  | cons r rs ih =>
      obtain ⟨cs1, hcs1, hfound1⟩ := found_suite hfix (h r (by simp)) hcs
        (rs.flatMap SuiteReport.steps ++ rest)
      obtain ⟨cs2, hcs2, hfound2⟩ := ih (fun d hd => h d (by simp [hd])) hcs1
      refine ⟨cs2, hcs2, ?_⟩
      rw [List.flatMap_cons, List.append_assoc, hfound1, hfound2]
      simp [or_assoc]

end Suites

/-! ## The verdict -/

theorem count_pos {r : SuiteReport} {status : TestStatus} :
    0 < r.count status ↔ ∃ c ∈ r.cases, c.status = status := by
  rw [SuiteReport.count, List.countP_pos_iff]
  simp

theorem total_pos {rs : List SuiteReport} {status : TestStatus} :
    0 < total rs status ↔ ∃ r ∈ rs, ∃ c ∈ r.cases, c.status = status := by
  induction rs with
  | nil => simp [total]
  | cons r rs ih =>
      have hsplit : total (r :: rs) status = r.count status + total rs status := rfl
      rw [hsplit, List.exists_mem_cons_iff, ← count_pos, ← ih]
      omega

theorem total_le (rs : List SuiteReport) (status : TestStatus) :
    total rs status ≤ (reportedCases rs).length := by
  induction rs with
  | nil => simp [total]
  | cons r rs ih =>
      have hsplit : total (r :: rs) status = r.count status + total rs status := rfl
      have hcount : r.count status ≤ r.cases.length := List.countP_le_length
      rw [hsplit, reportedCases, List.flatMap_cons, List.length_append,
        List.length_map]
      exact Nat.add_le_add hcount ih

/-- A call of an assertion, an ignore or an abort. -/
def assertion : Call → Bool
  | .failAt .. => true
  | .ignore _ => true
  | .abort => true
  | _ => false

theorem assertion_quiet {c : Call} (h : assertion c = true) : quiet c = true := by
  cases c <;> first | rfl | simp [assertion] at h

/-- A run returns 1 exactly when some failing call is not covered by a
`pot_ignore` of the same case. -/
theorem run_verdict {p : Program ω} (hcalls : CallsOnly p fun c => assertion c)
    (e : Entry) (s : Sys ω) (hfix : UnfailingSuites p s.g.env.reg)
    (hbound : (registered p s).length < 2 ^ 32) :
    ∃ new, (e.run p s).1.trace = s.trace ++ new ∧
      ((e.run p s).2 = 1 ↔ ∃ seg ∈ segments [] new, uncovered seg = true) := by
  obtain ⟨sel, s', hrun, htrace, hreg⟩ := Entry.run_eq p e s
  have hquiet : CallsOnly p fun c => quiet c := fun f w c hc =>
    assertion_quiet (hcalls f w c hc)
  have hfix' : UnfailingSuites p (prepare p s').g.env.reg := by
    intro u hu
    have hsuites : (prepare p s').g.env.reg.suites = s.g.env.reg.suites :=
      (collect_suites p s'.g.env.reg).trans (congrArg Registry.suites hreg)
    exact hfix u (hsuites ▸ hu)
  obtain ⟨rs, hreport, hnew, hreturn, -⟩ := runFiltered_report
    (quiet_invariant hquiet (prepare p s').g.env) (fun _ hg => hg) sel rfl
    (sortCases_sorted (registered p s'))
  refine ⟨.msg .banner :: runSteps rs, by rw [hrun, hnew, htrace], ?_⟩
  have htotal : total rs .failed < 2 ^ 32 := by
    have hle := total_le rs .failed
    have hfilter := List.length_filter_le (sel (prepare p s').g.env)
      (prepare p s').g.env.reg.tests
    have hperm := (sortCases_perm (registered p s')).length_eq
    rw [registered_congr p hreg] at hperm
    rw [hreport.cases] at hle
    change _ ≤ (sortCases (registered p s')).length at hfilter
    rw [registered_congr p hreg] at hfilter
    omega
  have hzero : UInt32.ofNat (total rs .failed) ≠ 0 ↔ 0 < total rs .failed := by
    rw [ne_eq, ← UInt32.toNat_inj, UInt32.toNat_ofNat', Nat.mod_eq_of_lt htotal]
    exact Nat.pos_iff_ne_zero.symm
  obtain ⟨cs, hcs, hfound⟩ := found_suites hfix' hreport.reports
    (show Clean [] by simp [Clean])
    [.msg (.done (UInt32.ofNat (total rs .passed)) (UInt32.ofNat (total rs .failed))
      (UInt32.ofNat (total rs .skipped)))]
  have hlast : ¬ Found cs
      [.msg (.done (UInt32.ofNat (total rs .passed)) (UInt32.ofNat (total rs .failed))
        (UInt32.ofNat (total rs .skipped)))] := by
    rintro ⟨seg, hseg, hbad⟩
    rw [List.mem_singleton.mp hseg, hcs.uncovered] at hbad
    cases hbad
  show _ ↔ Found [] (runSteps rs)
  rw [runSteps, hfound, or_iff_left hlast, ← total_pos, ← hzero, hrun, hreturn]
  split_ifs with h0 <;> simp [h0]

/-- Silent fixtures do not fail. -/
theorem SilentSuites.unfailing {p : Program ω} {reg : Registry} (h : SilentSuites p reg) :
    UnfailingSuites p reg := by
  intro u hu f hf w c hc
  rw [h u hu f hf w] at hc
  exact (List.not_mem_nil hc).elim

/-- The run of two suites with a case that passes, one that fails, and one that fails and
then skips. -/
theorem run_verdict_twoSuites :
    ∃ new, (Entry.all.run twoSuites twoSuitesSys).1.trace = twoSuitesSys.trace ++ new ∧
      ((Entry.all.run twoSuites twoSuitesSys).2 = 1 ↔
        ∃ seg ∈ segments [] new, uncovered seg = true) :=
  run_verdict (twoSuites_only (by decide)) .all twoSuitesSys twoSuites_silent.unfailing
    (by decide)

/-- A case that fails and then calls `pot_ignore` is a skip, and the run
returns 0. -/
theorem run_ignored_failure :
    (Entry.all.run (bodyCalls [.failAt none 7 none, .ignore none]) mathSys).2 = 0 ∧
      ∃ c ∈ calls (Entry.all.run (bodyCalls [.failAt none 7 none, .ignore none])
        mathSys).1.trace, fails c = true := by
  decide +kernel

end PolyOnTest.Run
