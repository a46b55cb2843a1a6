import PolyOnTest.Run.Lifecycle

/-!
# The ledger of a run

The steps of a run, case by case.  Fixtures of suites run between two cases, while
`g_cur_suite`, `g_cur_group` and `g_cur_name` still name the case before them (or
what they named in front of the run), so what they report is under that name.

`runFiltered_ledger` is the result: the steps of a run are those in front of the
first case, those of the visits of the cases in their order, and the counters.  A
visit has the window of the case and the steps up to the next case.
-/

namespace PolyOnTest.Run

open CodeLib.CMemory PolyOnTest.Harness

variable {ω : Type}

/-! ## Stretches between cases -/

/-- From `s` to `s'` the trace grew by `steps`, with messages of a kind that may depend
on the current case, and the runner did not count a case. -/
structure Spoke (kind : CaseId → Msg → Prop) (s s' : Sys ω) (steps : List Step) : Prop where
  trace : s'.trace = s.trace ++ steps
  source : ∀ m ∈ messages steps, kind s.g.cur m
  env : s'.g.env = s.g.env
  cur : s'.g.cur = s.g.cur
  passed : s'.g.passed = s.g.passed
  failed : s'.g.failed = s.g.failed
  skipped : s'.g.skipped = s.g.skipped

section Spoke

variable {kind : CaseId → Msg → Prop} {s t u : Sys ω} {a b : List Step}

theorem Spoke.refl (kind : CaseId → Msg → Prop) (s : Sys ω) : Spoke kind s s [] :=
  ⟨(List.append_nil _).symm, fun _ hm => absurd hm List.not_mem_nil, rfl, rfl, rfl, rfl,
    rfl⟩

theorem Spoke.trans (hab : Spoke kind s t a) (hbc : Spoke kind t u b) :
    Spoke kind s u (a ++ b) where
  trace := by rw [hbc.trace, hab.trace, List.append_assoc]
  source := by
    intro m hm
    rw [messages_append] at hm
    rcases List.mem_append.mp hm with hm | hm
    · exact hab.source m hm
    · exact hab.cur ▸ hbc.source m hm
  env := hbc.env.trans hab.env
  cur := hbc.cur.trans hab.cur
  passed := hbc.passed.trans hab.passed
  failed := hbc.failed.trans hab.failed
  skipped := hbc.skipped.trans hab.skipped

theorem Spoke.imp {kind' : CaseId → Msg → Prop} (h : Spoke kind s t a)
    (hkind : ∀ cur m, kind cur m → kind' cur m) : Spoke kind' s t a :=
  { h with source := fun m hm => hkind s.g.cur m (h.source m hm) }

theorem Spoke.say (h : Spoke kind s t a) {m : Msg} (hm : kind s.g.cur m) :
    Spoke kind s (t.say m) (a ++ [.msg m]) where
  trace := by rw [← List.append_assoc, ← h.trace]; rfl
  source := by
    intro n hn
    rw [messages_append] at hn
    rcases List.mem_append.mp hn with hn | hn
    · exact h.source n hn
    · rw [List.mem_singleton.mp hn]
      exact hm
  env := h.env
  cur := h.cur
  passed := h.passed
  failed := h.failed
  skipped := h.skipped

end Spoke

/-- A message of test code for the current case, with a property. -/
def Inside (Q : Msg → Prop) (cur : CaseId) (m : Msg) : Prop := FromCase cur m ∧ Q m

/-- A message between two cases: a bracket of a suite, or one of test code. -/
def Outside (Q : Msg → Prop) (cur : CaseId) : Msg → Prop
  | .suiteStart name => Q (.suiteStart name)
  | .suiteEnd name passed failed skipped => Q (.suiteEnd name passed failed skipped)
  | m => Inside Q cur m

theorem Inside.outside {Q : Msg → Prop} {cur : CaseId} {m : Msg} (h : Inside Q cur m) :
    Outside Q cur m := by
  cases m <;> first | exact h | exact h.1.elim

/-- The calls register nothing, and their messages have a property. -/
def Speaks (Q : Msg → Prop) (c : Call) : Prop :=
  quiet c = true ∧ ∀ g, ∀ m ∈ c.msgs g, Q m

section Loop

variable {p : Program ω} {Q : Msg → Prop}

theorem Entered.inside {I : Globals → Prop} (hcalls : CallsOnly p (Speaks Q)) {hook : Hook}
    {f : Option FnId} {cur : CaseId} {steps : List Step}
    (h : Entered p I hook f cur steps) {m : Msg} (hm : m ∈ messages steps) :
    Inside Q cur m := by
  refine ⟨h.fromCase hm, ?_⟩
  obtain ⟨f', -, w, c, hc, g, -, hsource⟩ := h.msg_source hm
  exact (hcalls f' w c hc).2 g m hsource

theorem window_inside {I : Globals → Prop} {reg : Registry} {t : Case}
    {window : List Step} (hcalls : CallsOnly p (Speaks Q))
    (h : WindowOf p I reg t window) : ∀ m ∈ messages window, Inside Q t.id m := by
  obtain ⟨setup, body, teardown, hsetup, hbody, hteardown, rfl⟩ := h
  intro m hm
  rw [messages_append, messages_append, List.mem_append, List.mem_append] at hm
  rcases hm with (hm | hm) | hm
  · exact hsetup.inside hcalls hm
  · exact hbody.inside hcalls hm
  · exact hteardown.inside hcalls hm

theorem enter_spoke (hcalls : CallsOnly p (Speaks Q)) (hook : Hook) (f : Option FnId)
    (s : Sys ω) : ∃ steps, Spoke (Inside Q) s (s.enter p hook f) steps := by
  obtain ⟨steps, hentered, hgrew⟩ := enter_grew
    (quiet_invariant (fun f w c hc => (hcalls f w c hc).1) s.g.env) hook f rfl
  exact ⟨steps, hgrew.trace, fun m hm => hentered.inside hcalls hm, hgrew.inv, hgrew.cur,
    hgrew.passed, hgrew.failed, hgrew.skipped⟩

/-- The ends of suites of this name have the property. -/
def EndsWith (Q : Msg → Prop) (suite : Option CStr) : Prop :=
  ∀ passed failed skipped, Q (.suiteEnd suite passed failed skipped)

theorem closeSuite_spoke (hcalls : CallsOnly p (Speaks Q)) {o : Open} (s : Sys ω)
    (ho : o.suite ≠ none → EndsWith Q o.suite) :
    ∃ steps, Spoke (Outside Q) s (closeSuite p o s) steps := by
  unfold closeSuite
  cases hsuite : o.suite with
  | none => exact ⟨[], Spoke.refl _ s⟩
  | some name =>
    rw [hsuite] at ho
    obtain ⟨steps, hsteps⟩ := enter_spoke hcalls .suiteTeardown
      ((findSuite s.g.env.reg (some name)).bind Suite.teardown) s
    have hend := ho (Option.some_ne_none name) o.passed o.failed o.skipped
    exact ⟨_, (hsteps.imp fun _ _ => Inside.outside).say hend⟩

theorem switchSuite_spoke (hcalls : CallsOnly p (Speaks Q)) {t : Case}
    (ht : Q (.suiteStart t.suite)) {x : Sys ω × Open}
    (hx : x.2.suite ≠ none → EndsWith Q x.2.suite) :
    (∃ steps, Spoke (Outside Q) x.1 (switchSuite p t x).1 steps) ∧
      (switchSuite p t x).2.suite = t.suite := by
  unfold switchSuite
  by_cases hsuite : strCmp x.2.suite t.suite ≠ .eq
  · rw [if_pos hsuite]
    obtain ⟨a, ha⟩ := closeSuite_spoke hcalls x.1 hx
    obtain ⟨b, hb⟩ := enter_spoke hcalls .suiteSetup ((findSuite
      (closeSuite p x.2 x.1).g.env.reg t.suite).bind Suite.setup) (closeSuite p x.2 x.1)
    have hopen := (hb.imp fun _ _ => Inside.outside).say (m := .suiteStart t.suite) ht
    exact ⟨⟨_, ha.trans hopen⟩, rfl⟩
  · rw [if_neg hsuite]
    exact ⟨⟨[], Spoke.refl _ x.1⟩, strCmp_eq_iff.mp (not_not.mp hsuite)⟩

/-! ## Visits -/

/-- A case that was run: what its fixtures and its body did, and the steps behind it. -/
structure Visit where
  case : Case
  window : List Step
  late : List Step

/-- The status that the calls of the case stand for. -/
def Visit.status (v : Visit) : TestStatus := windowStatus v.window

/-- The steps from the start of a case up to the next start. -/
def Visit.steps (v : Visit) : List Step :=
  .take v.case :: .msg (.caseStart v.case.id) ::
    (v.window ++ .msg (.caseEnd v.case.id v.status) :: v.late)

/-- The messages of a visit. -/
def Visit.msgs (v : Visit) : List Msg := messages v.steps

theorem Visit.msgs_eq (v : Visit) : v.msgs = .caseStart v.case.id ::
    (messages v.window ++ .caseEnd v.case.id v.status :: messages v.late) := by
  have hsplit : v.msgs = .caseStart v.case.id ::
      messages (v.window ++ .msg (.caseEnd v.case.id v.status) :: v.late) := rfl
  rw [hsplit, messages_append]
  rfl

/-- What is reported for a case and behind it is under its name. -/
structure Visit.Ok (Q : Msg → Prop) (v : Visit) : Prop where
  inner : ∀ m ∈ messages v.window, Inside Q v.case.id m
  late : ∀ m ∈ messages v.late, Outside Q v.case.id m

/-- The number of visits with a status. -/
def counted (vs : List Visit) (status : TestStatus) : Nat := vs.countP (·.status = status)

/-- The counters have grown by the visits. -/
structure Counted (g g' : Globals) (vs : List Visit) : Prop where
  passed : g'.passed = g.passed + UInt32.ofNat (counted vs .passed)
  failed : g'.failed = g.failed + UInt32.ofNat (counted vs .failed)
  skipped : g'.skipped = g.skipped + UInt32.ofNat (counted vs .skipped)

theorem Spoke.counted_nil {kind : CaseId → Msg → Prop} {s s' : Sys ω} {steps : List Step}
    (h : Spoke kind s s' steps) : Counted s.g s'.g [] where
  passed := h.passed.trans (UInt32.add_zero _).symm
  failed := h.failed.trans (UInt32.add_zero _).symm
  skipped := h.skipped.trans (UInt32.add_zero _).symm

theorem add_counted_cons (a : UInt32) (v : Visit) (vs : List Visit) (status : TestStatus) :
    (a + if v.status = status then 1 else 0) + UInt32.ofNat (counted vs status) =
      a + UInt32.ofNat (counted (v :: vs) status) := by
  have hcons : counted (v :: vs) status =
      counted vs status + if v.status = status then 1 else 0 := by
    unfold counted
    rw [List.countP_cons]
    simp
  rw [hcons, ofNat_add_ite, UInt32.add_assoc]
  congr 1
  by_cases hv : v.status = status
  · rw [if_pos hv, if_pos hv, UInt32.add_comm]
  · rw [if_neg hv, if_neg hv, UInt32.zero_add]

/-- The spec of the part of the loop that runs a case. -/
structure RanCase (Q : Msg → Prop) (t : Case) (x y : Sys ω × Open) (window : List Step) :
    Prop where
  trace : y.1.trace = x.1.trace ++ Visit.steps ⟨t, window, []⟩
  inner : ∀ m ∈ messages window, Inside Q t.id m
  env : y.1.g.env = x.1.g.env
  cur : y.1.g.cur = t.id
  suite : y.2.suite = x.2.suite
  passed : y.1.g.passed = x.1.g.passed + if windowStatus window = .passed then 1 else 0
  failed : y.1.g.failed = x.1.g.failed + if windowStatus window = .failed then 1 else 0
  skipped : y.1.g.skipped = x.1.g.skipped + if windowStatus window = .skipped then 1 else 0

theorem runCase_ran (hcalls : CallsOnly p (Speaks Q)) (t : Case) (x : Sys ω × Open) :
    ∃ window, RanCase Q t x (runCase p t x) window := by
  obtain ⟨window, hwindow, hgrew⟩ := @runBody_grew ω p (fun g => g.env = x.1.g.env)
    (quiet_invariant (fun f w c hc => (hcalls f w c hc).1) x.1.g.env) x.1.g.env.reg
    (fun _ hg => congrArg Env.reg hg) t ((x.1.begin t).say (.caseStart t.id)) rfl rfl
  have hstatus : (runBody p t ((x.1.begin t).say (.caseStart t.id))).status =
      windowStatus window := status_of_grew hgrew rfl rfl
  have htrace : (runBody p t ((x.1.begin t).say (.caseStart t.id))).trace =
      x.1.trace ++ .take t :: .msg (.caseStart t.id) :: window := by
    rw [hgrew.trace]
    simp [Sys.say, Sys.begin]
  have henv := hgrew.inv
  have hcur : (runBody p t ((x.1.begin t).say (.caseStart t.id))).g.cur = t.id := hgrew.cur
  have hpassed : (runBody p t ((x.1.begin t).say (.caseStart t.id))).g.passed =
      x.1.g.passed := hgrew.passed
  have hfailed : (runBody p t ((x.1.begin t).say (.caseStart t.id))).g.failed =
      x.1.g.failed := hgrew.failed
  have hskipped : (runBody p t ((x.1.begin t).say (.caseStart t.id))).g.skipped =
      x.1.g.skipped := hgrew.skipped
  refine ⟨window, ?_⟩
  unfold runCase
  dsimp only
  generalize runBody p t ((x.1.begin t).say (.caseStart t.id)) = s at *
  rw [hstatus]
  constructor
  · simp [Sys.say, count_trace, htrace, Visit.steps, Visit.status]
  · exact window_inside hcalls hwindow
  · cases windowStatus window <;> exact henv
  · cases windowStatus window <;> exact hcur
  · cases windowStatus window <;> rfl
  · cases windowStatus window <;> simp [Sys.say, Sys.count, hpassed]
  · cases windowStatus window <;> simp [Sys.say, Sys.count, hfailed]
  · cases windowStatus window <;> simp [Sys.say, Sys.count, hskipped]

/-- The loop and the last suite, by induction on the cases that are left. -/
theorem loop_ledger (hcalls : CallsOnly p (Speaks Q)) (sel : Env → Case → Bool) {env : Env}
    (ts : List Case) (hts : ∀ t ∈ ts, Q (.suiteStart t.suite) ∧ EndsWith Q t.suite)
    {x : Sys ω × Open} (henv : x.1.g.env = env)
    (hx : x.2.suite ≠ none → EndsWith Q x.2.suite) :
    ∃ early vs s, s = closeSuite p (ts.foldl (loopBody p sel) x).2
        (ts.foldl (loopBody p sel) x).1 ∧
      s.trace = x.1.trace ++ (early ++ vs.flatMap Visit.steps) ∧
      (∀ m ∈ messages early, Outside Q x.1.g.cur m) ∧ (∀ v ∈ vs, v.Ok Q) ∧
      vs.map Visit.case = ts.filter (sel env) ∧ Counted x.1.g s.g vs := by
  induction ts generalizing x with
  | nil =>
      obtain ⟨steps, hsteps⟩ := closeSuite_spoke hcalls x.1 hx
      refine ⟨steps, [], _, rfl, ?_, hsteps.source, by simp, rfl, hsteps.counted_nil⟩
      rw [List.flatMap_nil, List.append_nil]
      exact hsteps.trace
  | cons t ts ih =>
      have hrest : ∀ u ∈ ts, Q (.suiteStart u.suite) ∧ EndsWith Q u.suite := fun u hu =>
        hts u (by simp [hu])
      rw [List.foldl_cons, loopBody, henv]
      by_cases hsel : sel env t = true
      · obtain ⟨hstart, hend⟩ := hts t (by simp)
        obtain ⟨⟨early, hswitch⟩, hsuite⟩ := switchSuite_spoke hcalls hstart hx
        obtain ⟨window, hran⟩ := runCase_ran hcalls t (switchSuite p t x)
        have henvCase := hran.env.trans (hswitch.env.trans henv)
        have hsuiteCase := hran.suite.trans hsuite
        obtain ⟨late, vs, s, hs, htrace, hlate, hvs, hcases, hcounted⟩ :=
          ih hrest henvCase (fun _ => hsuiteCase ▸ hend)
        rw [if_pos hsel, List.filter_cons_of_pos hsel]
        refine ⟨early, ⟨t, window, late⟩ :: vs, s, hs, ?_, hswitch.source, ?_, ?_, ?_⟩
        · rw [htrace, hran.trace, hswitch.trace]
          simp [Visit.steps, Visit.status]
        · refine List.forall_mem_cons.mpr ⟨⟨hran.inner, ?_⟩, hvs⟩
          rw [← hran.cur]
          exact hlate
        · rw [List.map_cons, hcases]
        · constructor
          · rw [hcounted.passed, hran.passed, hswitch.passed]
            exact add_counted_cons _ ⟨t, window, late⟩ vs .passed
          · rw [hcounted.failed, hran.failed, hswitch.failed]
            exact add_counted_cons _ ⟨t, window, late⟩ vs .failed
          · rw [hcounted.skipped, hran.skipped, hswitch.skipped]
            exact add_counted_cons _ ⟨t, window, late⟩ vs .skipped
      · rw [if_neg hsel, List.filter_cons_of_neg hsel]
        exact ih hrest henv hx

/-- The counters of the last message. -/
def doneOf (vs : List Visit) : Msg :=
  .done (UInt32.ofNat (counted vs .passed)) (UInt32.ofNat (counted vs .failed))
    (UInt32.ofNat (counted vs .skipped))

/-- The steps of a run: those in front of the first case, the visits, and the
counters. -/
structure Ledger (p : Program ω) (Q : Msg → Prop) (sel : Env → Case → Bool) (s : Sys ω)
    (trace early : List Step) (vs : List Visit) : Prop where
  steps : trace = .msg .banner :: (early ++ vs.flatMap Visit.steps ++ [.msg (doneOf vs)])
  early : ∀ m ∈ messages early, Outside Q s.g.cur m
  visits : ∀ v ∈ vs, v.Ok Q
  cases : vs.map Visit.case = (sortCases (registered p s)).filter (sel (prepare p s).g.env)

theorem messages_visits (vs : List Visit) :
    messages (vs.flatMap Visit.steps) = vs.flatMap Visit.msgs := by
  induction vs with
  | nil => rfl
  | cons v vs ih =>
      rw [List.flatMap_cons, messages_append, ih]
      rfl

/-- The messages of a run. -/
theorem Ledger.messages_eq {sel : Env → Case → Bool} {s : Sys ω} {trace early : List Step}
    {vs : List Visit} (h : Ledger p Q sel s trace early vs) : messages trace =
      .banner :: (messages early ++ vs.flatMap Visit.msgs ++ [doneOf vs]) := by
  have hsplit : messages trace =
      .banner :: messages (early ++ vs.flatMap Visit.steps ++ [.msg (doneOf vs)]) :=
    congrArg messages h.steps
  rw [hsplit, messages_append, messages_append, messages_visits]
  rfl

/-- Every run has a ledger. -/
theorem runFiltered_ledger (hcalls : CallsOnly p (Speaks Q)) (sel : Env → Case → Bool)
    {s : Sys ω}
    (hsuites : ∀ t ∈ registered p s, Q (.suiteStart t.suite) ∧ EndsWith Q t.suite) :
    ∃ new early vs, (runFiltered p sel s).1.trace = s.trace ++ new ∧
      Ledger p Q sel s new early vs := by
  have hmem : ∀ t ∈ (prepare p s).g.env.reg.tests,
      Q (.suiteStart t.suite) ∧ EndsWith Q t.suite := fun t ht =>
    hsuites t ((sortCases_perm (registered p s)).mem_iff.mp ht)
  obtain ⟨early, vs, s', hs', htrace, hearly, hvs, hcases, hcounted⟩ :=
    @loop_ledger ω p Q hcalls sel (prepare p s).g.env (prepare p s).g.env.reg.tests hmem
      ((prepare p s).say .banner, ⟨none, 0, 0, 0⟩) rfl (fun h => absurd rfl h)
  have hend : (runFiltered p sel s).1 =
      s'.say (.done s'.g.passed s'.g.failed s'.g.skipped) := by
    rw [hs']
    rfl
  have hbanner : ((prepare p s).say .banner).trace = s.trace ++ [.msg .banner] := rfl
  have hdone : Msg.done s'.g.passed s'.g.failed s'.g.skipped = doneOf vs := by
    rw [hcounted.passed, hcounted.failed, hcounted.skipped]
    unfold doneOf
    congr 1 <;> exact UInt32.zero_add _
  have hlast : (s'.say (doneOf vs)).trace = s'.trace ++ [.msg (doneOf vs)] := rfl
  refine ⟨_, early, vs, ?_, rfl, hearly, hvs, hcases⟩
  rw [hend, hdone, hlast, htrace, hbanner]
  simp

end Loop

end PolyOnTest.Run
