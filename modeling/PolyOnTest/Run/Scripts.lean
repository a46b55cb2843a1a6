import PolyOnTest.Run.Lifecycle

/-!
# Programs with fixed scripts

Programs whose functions make the same calls each time, assertions and ignores
only.  What a case of such a program reports depends on the case alone
(`scripted_case`), so every run over some cases reports the concatenation of what
they report one by one, in suite brackets (`scripted_run`).
-/

namespace PolyOnTest.Run

open CodeLib.CMemory PolyOnTest.Harness

variable {ω : Type}

/-- Each function makes the calls of its script. -/
structure Scripted (p : Program ω) (script : FnId → List Call) : Prop where
  code : ∀ f w, (p.code f w).1 = script f
  plain : ∀ f, ∀ c ∈ script f, plain c = true

/-- The fixtures of every group make no call of the harness. -/
def SilentGroups (p : Program ω) (reg : Registry) : Prop :=
  ∀ u ∈ reg.groups, ∀ f, u.setup = some f ∨ u.teardown = some f →
    ∀ w, (p.code f w).1 = []

/-- No parameter row is active, as in a fresh process. -/
def Unparameterised (g : Globals) : Prop := g.paramActive = false

theorem Scripted.callsOnly {p : Program ω} {script : FnId → List Call}
    (h : Scripted p script) : CallsOnly p fun c => Run.plain c := by
  intro f w c hc
  rw [h.code f w] at hc
  exact h.plain f c hc

/-- Plain calls keep the registry, the filters and the absence of a parameter. -/
theorem plain_invariant {p : Program ω} (h : CallsOnly p fun c => plain c) (env : Env) :
    Invariant p fun g => g.env = env ∧ Unparameterised g :=
  (quiet_invariant (fun f w c hc => plain_quiet (h f w c hc)) env).and
    { call := by
        intro f w c hc g hg
        have hplain := h f w c hc
        cases c <;> first | exact hg | cases hplain
      case := fun _ _ hg => hg
      counters := fun _ _ _ _ hg => hg }

/-! ## What a case reports -/

/-- The calls of the body of a case. -/
def caseScript (script : FnId → List Call) (t : Case) : List Call :=
  (t.fn.map script).getD []

/-- The failures that some calls report for a case. -/
def scriptFailures (id : CaseId) (cs : List Call) : List Msg :=
  (cs.flatMap fun c => c.msgs { Globals.init with cur := id }).filter fun m => !m.isNote

/-- The status that some calls give a case.  A skip wins. -/
def scriptStatus (cs : List Call) : TestStatus :=
  if cs.any ignores then .skipped else if cs.any fails then .failed else .passed

/-- The messages of a case. -/
def caseMsgs (script : FnId → List Call) (t : Case) : List Msg :=
  .caseStart t.id :: (scriptFailures t.id (caseScript script t) ++
    [.caseEnd t.id (scriptStatus (caseScript script t))])

/-- Without a parameter the messages of a call depend on the current case only. -/
theorem msgs_congr {g g' : Globals} (hcur : g.cur = g'.cur) (hg : Unparameterised g)
    (hg' : Unparameterised g') (c : Call) : c.msgs g = c.msgs g' := by
  have hmessage : ∀ message, messageWithParam g message = messageWithParam g' message := by
    intro message
    unfold messageWithParam
    rw [hg, hg']
    rfl
  unfold Call.msgs
  rw [hcur]
  simp only [hmessage]

/-- The messages of plain calls, by induction on the calls. -/
theorem messages_plain {cs : List Call} (hcs : ∀ c ∈ cs, plain c = true) {g : Globals}
    (hg : Unparameterised g) :
    messages (callSteps g cs) =
      cs.flatMap fun c => c.msgs { Globals.init with cur := g.cur } := by
  induction cs generalizing g with
  | nil => rfl
  | cons c cs ih =>
      have hplain := hcs c (by simp)
      have hkeep : Unparameterised (c.effect g) := by
        cases c <;> first | exact hg | cases hplain
      rw [messages_callSteps_cons, ih (fun d hd => hcs d (by simp [hd])) hkeep,
        effect_cur, List.flatMap_cons]
      congr 1
      exact @msgs_congr g { Globals.init with cur := g.cur } rfl hg rfl c

section Case

variable {p : Program ω} {script : FnId → List Call} {env : Env}

/-- A silent function leaves neither messages nor calls. -/
theorem Entered.quiet {I : Globals → Prop} {hook : Hook} {f : Option FnId} {id : CaseId}
    {steps : List Step} (h : Entered p I hook f id steps)
    (hsilent : ∀ f', f = some f' → ∀ w, (p.code f' w).1 = []) :
    messages steps = [] ∧ calls steps = [] := by
  rw [h.silent hsilent]
  cases f <;> exact ⟨rfl, rfl⟩

/-- The body of a case makes the calls of its script. -/
theorem scripted_body (hscript : Scripted p script) {t : Case} {steps : List Step}
    (h : Entered p (fun g => g.env = env ∧ Unparameterised g) .body t.fn t.id steps) :
    messages steps = (caseScript script t).flatMap
        (fun c => c.msgs { Globals.init with cur := t.id }) ∧
      calls steps = caseScript script t := by
  unfold caseScript
  unfold Entered at h
  cases hfn : t.fn with
  | none =>
    rw [hfn] at h
    rw [h]
    exact ⟨rfl, rfl⟩
  | some f =>
    rw [hfn] at h
    obtain ⟨w, g, hg, hcur, rfl⟩ := h
    have hmessages := messages_plain (hscript.plain f) hg.2
    rw [hcur] at hmessages
    rw [hscript.code f w]
    exact ⟨hmessages, calls_callSteps g (script f)⟩

/-- A window of a scripted program shows the script of the body. -/
theorem scripted_case (hscript : Scripted p script) (hgroups : SilentGroups p env.reg)
    {r : CaseReport}
    (h : WindowOf p (fun g => g.env = env ∧ Unparameterised g) env.reg r.case r.window) :
    r.msgs = caseMsgs script r.case ∧
      r.status = scriptStatus (caseScript script r.case) := by
  obtain ⟨setup, body, teardown, hsetup, hbody, hteardown, hwindow⟩ := h
  have hs := hsetup.quiet fun f hf w => by
    obtain ⟨u, hu, hfn⟩ := Option.bind_eq_some_iff.mp hf
    exact hgroups u (List.mem_of_find?_eq_some hu) f (Or.inl hfn) w
  have ht := hteardown.quiet fun f hf w => by
    obtain ⟨u, hu, hfn⟩ := Option.bind_eq_some_iff.mp hf
    exact hgroups u (List.mem_of_find?_eq_some hu) f (Or.inr hfn) w
  have hb := scripted_body hscript hbody
  have hmessages : messages r.window = messages body := by
    rw [hwindow, messages_append, messages_append, hs.1, ht.1]
    simp
  have hcalls : calls r.window = caseScript script r.case := by
    rw [hwindow, calls_append, calls_append, hs.2, ht.2, hb.2]
    simp
  have hstatus : r.status = scriptStatus (caseScript script r.case) := by
    unfold CaseReport.status windowStatus
    rw [hcalls]
    rfl
  refine ⟨?_, hstatus⟩
  unfold CaseReport.msgs CaseReport.failures
  rw [hstatus, hmessages, hb.1]
  rfl

end Case

/-! ## What a run reports -/

/-- The messages of a suite. -/
def suiteMsgs (script : FnId → List Call) (r : SuiteReport) : List Msg :=
  .suiteStart r.name :: (r.cases.flatMap (fun c => caseMsgs script c.case) ++
    [.suiteEnd r.name (UInt32.ofNat (r.count .passed)) (UInt32.ofNat (r.count .failed))
      (UInt32.ofNat (r.count .skipped))])

/-- The number of cases whose script gives them a status. -/
def scriptTotal (script : FnId → List Call) (ts : List Case) (status : TestStatus) : Nat :=
  ts.countP fun t => scriptStatus (caseScript script t) = status

/-- The last message of a run over some cases. -/
def doneMsg (script : FnId → List Call) (ts : List Case) : Msg :=
  .done (UInt32.ofNat (scriptTotal script ts .passed))
    (UInt32.ofNat (scriptTotal script ts .failed))
    (UInt32.ofNat (scriptTotal script ts .skipped))

/-- The suites of a run: names that differ, and cases of that name. -/
structure Suites (rs : List SuiteReport) : Prop where
  named : ∀ r ∈ rs, r.name.isSome = true
  once : (rs.map SuiteReport.name).Nodup
  nonempty : ∀ r ∈ rs, r.cases ≠ []
  suite : ∀ r ∈ rs, ∀ c ∈ r.cases, c.case.suite = r.name

theorem total_eq_scriptTotal {script : FnId → List Call} {rs : List SuiteReport}
    (h : ∀ r ∈ rs, ∀ c ∈ r.cases, c.status = scriptStatus (caseScript script c.case))
    (status : TestStatus) :
    total rs status = scriptTotal script (reportedCases rs) status := by
  induction rs with
  | nil => rfl
  | cons r rs ih =>
      have hrest := ih fun x hx => h x (by simp [hx])
      have hcount : r.count status =
          scriptTotal script (r.cases.map CaseReport.case) status := by
        unfold SuiteReport.count scriptTotal
        rw [List.countP_map]
        refine List.countP_congr fun c hc => ?_
        rw [h r (by simp) c hc]
        simp
      have hsplit : total (r :: rs) status = r.count status + total rs status := rfl
      rw [hsplit, hrest, hcount]
      unfold scriptTotal reportedCases
      rw [List.flatMap_cons, List.countP_append]

/-- What a run of a scripted program reports. -/
theorem scripted_run {p : Program ω} {script : FnId → List Call}
    (hscript : Scripted p script) (sel : Env → Case → Bool) {s : Sys ω}
    (hparam : Unparameterised s.g) (hsuites : SilentSuites p s.g.env.reg)
    (hgroups : SilentGroups p s.g.env.reg)
    (hnames : ∀ t ∈ registered p s, t.suite ≠ none) :
    ∃ rs new, Suites rs ∧
      reportedCases rs = (sortCases (registered p s)).filter (sel (prepare p s).g.env) ∧
      (runFiltered p sel s).1.trace = s.trace ++ new ∧
      executed new = reportedCases rs ∧
      reported new =
        rs.flatMap (suiteMsgs script) ++ [doneMsg script (reportedCases rs)] ∧
      ((runFiltered p sel s).2 = 0 ∨ (runFiltered p sel s).2 = 1) := by
  have hgroups' : SilentGroups p (prepare p s).g.env.reg := by
    intro u hu
    exact hgroups u (collect_groups p s.g.env.reg ▸ hu)
  have hperm := sortCases_perm (registered p s)
  obtain ⟨rs, hreport, htrace, hreturn, hreported⟩ := run_named
    (plain_invariant hscript.callsOnly (prepare p s).g.env) (fun _ hg => hg.1) sel
    ⟨rfl, hparam⟩ (sortCases_sorted (registered p s)) (silent_prepare hsuites)
    (fun t ht => hnames t (hperm.mem_iff.mp ht))
  have hcase : ∀ r ∈ rs, ∀ c ∈ r.cases, c.msgs = caseMsgs script c.case ∧
      c.status = scriptStatus (caseScript script c.case) := fun r hr c hc =>
    scripted_case hscript hgroups' ((hreport.reports r hr).window c hc)
  refine ⟨rs, .msg .banner :: runSteps rs, ?_, hreport.cases, htrace,
    executed_run hreport.toReportOf, ?_, ?_⟩
  · exact
      { named := hreport.named
        once := names_nodup hreport.names
        nonempty := fun r hr => (hreport.reports r hr).nonempty
          (Option.isSome_iff_ne_none.mp (hreport.named r hr))
        suite := fun r hr => (hreport.reports r hr).suite }
  · have htotal := total_eq_scriptTotal fun r hr c hc => (hcase r hr c hc).2
    rw [hreported, htotal, htotal, htotal]
    congr 1
    refine List.flatMap_congr fun r hr => ?_
    unfold SuiteReport.msgs suiteMsgs
    rw [List.flatMap_congr fun c hc => (hcase r hr c hc).1]
  · rw [hreturn]
    split_ifs
    · exact Or.inr rfl
    · exact Or.inl rfl

/-- The suites of a run over one case. -/
theorem suites_one {rs : List SuiteReport} (h : Suites rs) {t : Case}
    (hcases : reportedCases rs = [t]) :
    ∃ r, rs = [r] ∧ r.name = t.suite ∧ r.cases.map CaseReport.case = [t] := by
  cases rs with
  | nil => cases hcases
  | cons r rs =>
    have hcons : r.cases.map CaseReport.case ++ reportedCases rs = [t] := hcases
    have hfirst : r.cases.map CaseReport.case ≠ [] := by
      simpa using h.nonempty r (by simp)
    rcases List.append_eq_singleton_iff.mp hcons with ⟨hnil, -⟩ | ⟨hr, hrest⟩
    · exact absurd hnil hfirst
    · have hrs : rs = [] := by
        cases rs with
        | nil => rfl
        | cons r' rs =>
          have hnil : r'.cases.map CaseReport.case = [] :=
            (List.append_eq_nil_iff.mp hrest).1
          exact absurd (List.map_eq_nil_iff.mp hnil) (h.nonempty r' (by simp))
      refine ⟨r, by rw [hrs], ?_, hr⟩
      obtain ⟨c, hc, hct⟩ : ∃ c ∈ r.cases, c.case = t := by
        have ht : t ∈ r.cases.map CaseReport.case := by rw [hr]; simp
        exact List.mem_map.mp ht
      rw [← h.suite r (by simp) c hc, hct]

/-- What a run over one case reports. -/
theorem scripted_one {p : Program ω} {script : FnId → List Call}
    (hscript : Scripted p script) {sel : Env → Case → Bool} {s : Sys ω} {t : Case}
    (hparam : Unparameterised s.g) (hsuites : SilentSuites p s.g.env.reg)
    (hgroups : SilentGroups p s.g.env.reg)
    (hnames : ∀ t ∈ registered p s, t.suite ≠ none)
    (hone : (sortCases (registered p s)).filter (sel (prepare p s).g.env) = [t]) :
    ∃ new passed failed skipped, (runFiltered p sel s).1.trace = s.trace ++ new ∧
      executed new = [t] ∧
      reported new = .suiteStart t.suite :: (caseMsgs script t ++
        [.suiteEnd t.suite passed failed skipped, doneMsg script [t]]) ∧
      ((runFiltered p sel s).2 = 0 ∨ (runFiltered p sel s).2 = 1) := by
  obtain ⟨rs, new, hrs, hcases, htrace, hexecuted, hreported, hreturn⟩ :=
    scripted_run hscript sel hparam hsuites hgroups hnames
  rw [hone] at hcases
  obtain ⟨r, rfl, hname, hr⟩ := suites_one hrs hcases
  refine ⟨new, UInt32.ofNat (r.count .passed), UInt32.ofNat (r.count .failed),
    UInt32.ofNat (r.count .skipped), htrace, by rw [hexecuted, hcases], ?_, hreturn⟩
  have hbody : r.cases.flatMap (fun c => caseMsgs script c.case) = caseMsgs script t := by
    rw [← List.flatMap_map, hr, List.flatMap_singleton]
  rw [hreported, hcases, List.flatMap_singleton, suiteMsgs, hbody, hname]
  simp

end PolyOnTest.Run
