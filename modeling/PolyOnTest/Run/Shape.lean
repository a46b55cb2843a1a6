import PolyOnTest.Harness.Links
import PolyOnTest.Run.Steps

/-!
# The shape of a run

What `run_filtered` appends to the trace.  A run is a list of suites, a suite is
a list of cases between an opening and a closing part, and a case is a window of
test code between its start and its end.  The three report structures are these
brackets with their content, and their `steps` are the stretch of the trace.

`runFiltered_report` is the main result: for every program that registers
nothing while it runs, and for every match function, the trace of a run is the
stretch of a report that is well formed.  The suite boundaries are found by
comparison with the last case only; that every suite has one bracket is due to
the order of the list.

The proof follows the loop.  `LoopAt` is its invariant, with the closed suites,
the open one, and the cases that are done.
-/

namespace PolyOnTest.Run

open CodeLib.CMemory PolyOnTest.Harness

variable {ω : Type}

/-! ## Reports -/

/-- One case and what its fixtures and its body did. -/
structure CaseReport where
  case : Case
  window : List Step

/-- One suite.  The cases without a suite name have a report of their own, with
no name and no brackets. -/
structure SuiteReport where
  name : Option CStr
  setup : List Step
  cases : List CaseReport
  teardown : List Step

/-- The status that the calls of a window give.  A skip wins. -/
def windowStatus (window : List Step) : TestStatus :=
  if (calls window).any ignores then .skipped
  else if (calls window).any fails then .failed
  else .passed

def CaseReport.status (r : CaseReport) : TestStatus := windowStatus r.window

/-- The stretch of a case. -/
def CaseReport.steps (r : CaseReport) : List Step :=
  .take r.case :: .msg (.caseStart r.case.id) ::
    (r.window ++ [.msg (.caseEnd r.case.id r.status)])

/-- The number of cases of a status. -/
def SuiteReport.count (r : SuiteReport) (status : TestStatus) : Nat :=
  r.cases.countP (·.status = status)

/-- The part of the stretch in front of the cases. -/
def SuiteReport.opening (r : SuiteReport) : List Step :=
  match r.name with
  | none => []
  | some _ => r.setup ++ [.msg (.suiteStart r.name)]

/-- The part of the stretch behind the cases. -/
def SuiteReport.closing (r : SuiteReport) : List Step :=
  match r.name with
  | none => []
  | some _ =>
      r.teardown ++
        [.msg (.suiteEnd r.name (UInt32.ofNat (r.count .passed))
          (UInt32.ofNat (r.count .failed)) (UInt32.ofNat (r.count .skipped)))]

/-- The stretch of a suite. -/
def SuiteReport.steps (r : SuiteReport) : List Step :=
  r.opening ++ r.cases.flatMap CaseReport.steps ++ r.closing

/-- The number of cases of a status in a run. -/
def total (rs : List SuiteReport) (status : TestStatus) : Nat :=
  (rs.map (·.count status)).sum

/-- The cases of a run in the order of execution. -/
def reportedCases (rs : List SuiteReport) : List Case :=
  rs.flatMap fun r => r.cases.map CaseReport.case

theorem mem_reportedCases {rs : List SuiteReport} {r : SuiteReport} (hr : r ∈ rs)
    {c : CaseReport} (hc : c ∈ r.cases) : c.case ∈ reportedCases rs :=
  List.mem_flatMap.mpr ⟨r, hr, List.mem_map_of_mem hc⟩

/-- A window: the group setup, the body and the group teardown, each at most
once and in this order. -/
def WindowOf (p : Program ω) (I : Globals → Prop) (reg : Registry) (t : Case)
    (window : List Step) : Prop :=
  ∃ setup body teardown,
    Entered p I .groupSetup ((findGroup reg t.suite t.group).bind Group.setup) t.id
      setup ∧
    Entered p I .body t.fn t.id body ∧
    Entered p I .groupTeardown
      ((findGroup reg t.suite t.group).bind Group.teardown) t.id teardown ∧
    window = setup ++ body ++ teardown

/-- The suite setup ran once, in front of the first case. -/
def SetupOf (p : Program ω) (I : Globals → Prop) (reg : Registry)
    (r : SuiteReport) : Prop :=
  r.name = none ∨ ∃ cur, Entered p I .suiteSetup
    ((findSuite reg r.name).bind Suite.setup) cur r.setup

/-- The suite teardown ran once, behind the last case. -/
def TeardownOf (p : Program ω) (I : Globals → Prop) (reg : Registry)
    (r : SuiteReport) : Prop :=
  r.name = none ∨ ∃ cur, Entered p I .suiteTeardown
    ((findSuite reg r.name).bind Suite.teardown) cur r.teardown

/-- A suite whose bracket is still open. -/
structure OpenReport (p : Program ω) (I : Globals → Prop) (reg : Registry)
    (r : SuiteReport) : Prop where
  suite : ∀ c ∈ r.cases, c.case.suite = r.name
  window : ∀ c ∈ r.cases, WindowOf p I reg c.case c.window
  setup : SetupOf p I reg r

/-- A suite whose bracket is closed. -/
structure ClosedReport (p : Program ω) (I : Globals → Prop) (reg : Registry)
    (r : SuiteReport) : Prop extends OpenReport p I reg r where
  nonempty : r.name ≠ none → r.cases ≠ []
  teardown : TeardownOf p I reg r

/-! ## Steps of the loop -/

/-- The spec of `runBody`. -/
theorem runBody_grew {p : Program ω} {I : Globals → Prop} (hI : Invariant p I)
    {reg : Registry} (hreg : ∀ g, I g → g.env.reg = reg) (t : Case) {s : Sys ω}
    (h : I s.g) (hcur : s.g.cur = t.id) :
    ∃ window, WindowOf p I reg t window ∧ Grew I s (runBody p t s) window := by
  unfold runBody
  rw [hreg s.g h]
  obtain ⟨setup, hsetup, hgrew1⟩ := enter_grew hI .groupSetup
    ((findGroup reg t.suite t.group).bind Group.setup) h
  obtain ⟨body, hbody, hgrew2⟩ := enter_grew hI .body t.fn hgrew1.inv
  obtain ⟨teardown, hteardown, hgrew3⟩ := enter_grew hI .groupTeardown
    ((findGroup reg t.suite t.group).bind Group.teardown) hgrew2.inv
  rw [hgrew1.cur, hcur] at hbody
  rw [hgrew2.cur, hgrew1.cur, hcur] at hteardown
  rw [hcur] at hsetup
  exact ⟨setup ++ body ++ teardown,
    ⟨setup, body, teardown, hsetup, hbody, hteardown, rfl⟩,
    (hgrew1.trans hgrew2).trans hgrew3⟩

/-- The counters that stand for the cases of a list of reports. -/
structure Counts (g : Globals) (rs : List SuiteReport) : Prop where
  passed : g.passed = UInt32.ofNat (total rs .passed)
  failed : g.failed = UInt32.ofNat (total rs .failed)
  skipped : g.skipped = UInt32.ofNat (total rs .skipped)

/-- The suite counters that stand for the cases of a report. -/
structure OpenCounts (o : Open) (r : SuiteReport) : Prop where
  suite : o.suite = r.name
  passed : o.passed = UInt32.ofNat (r.count .passed)
  failed : o.failed = UInt32.ofNat (r.count .failed)
  skipped : o.skipped = UInt32.ofNat (r.count .skipped)

/-- A suite with one case more. -/
def SuiteReport.add (r : SuiteReport) (c : CaseReport) : SuiteReport :=
  { r with cases := r.cases ++ [c] }

theorem count_add (r : SuiteReport) (c : CaseReport) (status : TestStatus) :
    (r.add c).count status =
      r.count status + if c.status = status then 1 else 0 := by
  unfold SuiteReport.count SuiteReport.add
  simp [List.countP_append, List.countP_singleton]

theorem total_append (rs : List SuiteReport) (r : SuiteReport)
    (status : TestStatus) : total (rs ++ [r]) status = total rs status + r.count status := by
  simp [total]

/-- The invariant of the loop: closed suites, one open suite, and the cases that
the loop has passed. -/
structure LoopAt (p : Program ω) (I : Globals → Prop) (sel : Env → Case → Bool)
    (env : Env) (base : List Step) (passed : List Case)
    (closed : List SuiteReport) (opened : SuiteReport) (x : Sys ω × Open) :
    Prop where
  trace : x.1.trace = base ++ closed.flatMap SuiteReport.steps ++
    (opened.opening ++ opened.cases.flatMap CaseReport.steps)
  inv : I x.1.g
  counts : Counts x.1.g (closed ++ [opened])
  openCounts : OpenCounts x.2 opened
  closedReports : ∀ r ∈ closed, ClosedReport p I env.reg r
  openReport : OpenReport p I env.reg opened
  cases : reportedCases (closed ++ [opened]) = passed.filter (sel env)
  names : ((closed ++ [opened]).map SuiteReport.name).Pairwise
    fun a b => strCmp a b = .lt

section Loop

variable {p : Program ω} {I : Globals → Prop} {sel : Env → Case → Bool} {env : Env}
  {base : List Step} {passed : List Case} {closed : List SuiteReport}
  {opened : SuiteReport} {x : Sys ω × Open}

/-- What closing the open suite leaves. -/
structure ClosedAt (p : Program ω) (I : Globals → Prop) (env : Env)
    (base : List Step) (closed : List SuiteReport) (opened : SuiteReport)
    (s : Sys ω) (teardown : List Step) : Prop where
  trace : s.trace = base ++
    (closed ++ [{ opened with teardown := teardown }]).flatMap SuiteReport.steps
  inv : I s.g
  counts : Counts s.g (closed ++ [opened])
  teardown : TeardownOf p I env.reg { opened with teardown := teardown }

/-- The spec of `close_suite`. -/
theorem LoopAt.close (hI : Invariant p I) (henv : ∀ g, I g → g.env = env)
    (h : LoopAt p I sel env base passed closed opened x) :
    ∃ teardown, ClosedAt p I env base closed opened (closeSuite p x.2 x.1)
      teardown := by
  have hcounts := h.openCounts
  unfold closeSuite
  rw [hcounts.suite]
  cases hname : opened.name with
  | none =>
    refine ⟨opened.teardown, ?_, h.inv, h.counts, Or.inl hname⟩
    have hopening : opened.opening = [] := by
      rw [SuiteReport.opening, hname]
    have hclosing : opened.closing = [] := by
      rw [SuiteReport.closing, hname]
    simp [h.trace, SuiteReport.steps, hopening, hclosing]
  | some name =>
    dsimp only
    obtain ⟨teardown, hentered, hgrew⟩ := enter_grew hI .suiteTeardown
      ((findSuite x.1.g.env.reg (some name)).bind Suite.teardown) h.inv
    rw [henv _ h.inv] at hentered
    refine ⟨teardown, ?_, hgrew.inv, ?_, Or.inr ⟨_, hname ▸ hentered⟩⟩
    · have hclosing : SuiteReport.closing { opened with teardown := teardown } =
          teardown ++ [.msg (.suiteEnd (some name) x.2.passed x.2.failed
            x.2.skipped)] := by
        rw [SuiteReport.closing, hname, hcounts.passed, hcounts.failed,
          hcounts.skipped]
        rfl
      have hopening : SuiteReport.opening { opened with teardown := teardown } =
          opened.opening := rfl
      simp [Sys.say, hgrew.trace, h.trace, SuiteReport.steps, hclosing, hopening]
    · exact ⟨hgrew.passed.trans h.counts.passed, hgrew.failed.trans h.counts.failed,
        hgrew.skipped.trans h.counts.skipped⟩

/-- The fixture of a suite takes no part in its counts. -/
theorem total_teardown (closed : List SuiteReport) (opened : SuiteReport)
    (teardown : List Step) (status : TestStatus) :
    total (closed ++ [{ opened with teardown := teardown }]) status =
      total (closed ++ [opened]) status := by
  rw [total_append, total_append]
  rfl

/-- Closing the open suite leaves closed suites only. -/
theorem LoopAt.reports (h : LoopAt p I sel env base passed closed opened x)
    (hne : opened.name ≠ none → opened.cases ≠ []) {s : Sys ω} {teardown : List Step}
    (hclosed : ClosedAt p I env base closed opened s teardown) :
    ∀ r ∈ closed ++ [{ opened with teardown := teardown }], ClosedReport p I env.reg r := by
  intro r hr
  rcases List.mem_append.mp hr with hr | hr
  · exact h.closedReports r hr
  · rw [List.mem_singleton.mp hr]
    exact ⟨⟨h.openReport.suite, h.openReport.window, h.openReport.setup⟩, hne,
      hclosed.teardown⟩

/-- A larger name behind the open suite keeps the names in order. -/
theorem LoopAt.names_append (h : LoopAt p I sel env base passed closed opened x)
    {name : Option CStr} (hlt : strCmp opened.name name = .lt) :
    ((closed ++ [opened]).map SuiteReport.name ++ [name]).Pairwise
      fun a b => strCmp a b = .lt := by
  have hnames := h.names
  refine List.pairwise_append.mpr ⟨hnames, List.pairwise_singleton _ _, ?_⟩
  intro a ha b hb
  rw [List.mem_singleton.mp hb]
  rw [List.map_append] at hnames ha
  -- the open suite is the last of the names so far
  rcases List.mem_append.mp ha with ha | ha
  · have hlast := (List.pairwise_append.mp hnames).2.2 a ha opened.name (by simp)
    exact Std.TransCmp.lt_trans hlast hlt
  · rw [List.map_singleton, List.mem_singleton] at ha
    rw [ha]
    exact hlt

/-- Opening a suite behind closed ones. -/
theorem LoopAt.switch (hI : Invariant p I) (henv : ∀ g, I g → g.env = env)
    (h : LoopAt p I sel env base passed closed opened x)
    (hne : opened.name ≠ none → opened.cases ≠ []) {t : Case}
    (hlt : strCmp opened.name t.suite = .lt) :
    ∃ closed' opened', opened'.name = t.suite ∧
      LoopAt p I sel env base passed closed' opened' (switchSuite p t x) := by
  have hdiffers : strCmp x.2.suite t.suite ≠ .eq := by
    rw [h.openCounts.suite, hlt]
    simp
  obtain ⟨name, hname⟩ : ∃ name, t.suite = some name := by
    cases hs : t.suite with
    | some name => exact ⟨name, rfl⟩
    | none =>
      rw [hs] at hlt
      cases hn : opened.name <;> rw [hn] at hlt <;> cases hlt
  obtain ⟨teardown, hclosed⟩ := h.close hI henv
  obtain ⟨setup, hsetup, hgrew⟩ := enter_grew hI .suiteSetup
    ((findSuite (closeSuite p x.2 x.1).g.env.reg t.suite).bind Suite.setup)
    hclosed.inv
  rw [henv _ hclosed.inv] at hsetup
  unfold switchSuite openSuiteEmit
  rw [if_pos hdiffers]
  dsimp only
  refine ⟨closed ++ [{ opened with teardown := teardown }], ⟨t.suite, setup, [], []⟩,
    rfl, ?_, hgrew.inv, ?_, ⟨rfl, rfl, rfl, rfl⟩, h.reports hne hclosed, ?_, ?_, ?_⟩
  · have hopening : SuiteReport.opening ⟨t.suite, setup, [], []⟩ =
        setup ++ [.msg (.suiteStart t.suite)] := by
      rw [SuiteReport.opening, hname]
    simp [Sys.say, hgrew.trace, hclosed.trace, hopening]
  · have htotal : ∀ status,
        total (closed ++ [{ opened with teardown := teardown }] ++
          [⟨t.suite, setup, [], []⟩]) status = total (closed ++ [opened]) status := by
      intro status
      rw [total_append, total_teardown]
      rfl
    exact ⟨by rw [htotal]; exact hgrew.passed.trans hclosed.counts.passed,
      by rw [htotal]; exact hgrew.failed.trans hclosed.counts.failed,
      by rw [htotal]; exact hgrew.skipped.trans hclosed.counts.skipped⟩
  · exact ⟨by simp, by simp, Or.inr ⟨_, hsetup⟩⟩
  · have hcases := h.cases
    simp only [reportedCases, List.flatMap_append] at hcases ⊢
    simpa using hcases
  · have hnames := h.names_append hlt
    rw [List.map_append] at hnames ⊢
    rw [List.map_append]
    exact hnames

theorem status_of_grew {s s' : Sys ω} {window : List Step}
    (h : Grew I s s' window) (hfailed : s.g.currentFailed = false)
    (hskipped : s.g.currentSkipped = false) : s'.status = windowStatus window := by
  unfold Sys.status windowStatus
  rw [h.currentFailed, h.currentSkipped, hfailed, hskipped, Bool.false_or,
    Bool.false_or]

theorem ofNat_add_ite (n : Nat) (c : Prop) [Decidable c] :
    UInt32.ofNat (n + if c then 1 else 0) =
      if c then UInt32.ofNat n + 1 else UInt32.ofNat n := by
  split_ifs
  · rw [UInt32.ofNat_add]
    rfl
  · rfl

theorem count_trace (s : Sys ω) (status : TestStatus) :
    (s.count status).trace = s.trace := by
  cases status <;> rfl

theorem count_inv (hI : Invariant p I) {s : Sys ω} (h : I s.g)
    (status : TestStatus) : I (s.count status).g := by
  cases status <;> exact hI.counters s.g _ _ _ h

/-- The run counters take in one case. -/
theorem Counts.add {s : Sys ω} (h : Counts s.g (closed ++ [opened]))
    (c : CaseReport) : Counts (s.count c.status).g (closed ++ [opened.add c]) := by
  have htotal : ∀ status, UInt32.ofNat (total (closed ++ [opened.add c]) status) =
      if c.status = status then UInt32.ofNat (total (closed ++ [opened]) status) + 1
      else UInt32.ofNat (total (closed ++ [opened]) status) := by
    intro status
    rw [total_append, total_append, count_add, ← Nat.add_assoc, ofNat_add_ite]
  constructor <;> rw [htotal] <;> cases c.status <;>
    simp [Sys.count, h.passed, h.failed, h.skipped]

/-- The suite counters take in one case. -/
theorem OpenCounts.add {o : Open} (h : OpenCounts o opened) (c : CaseReport) :
    OpenCounts (o.count c.status) (opened.add c) := by
  have hcount : ∀ status, UInt32.ofNat ((opened.add c).count status) =
      if c.status = status then UInt32.ofNat (opened.count status) + 1
      else UInt32.ofNat (opened.count status) := by
    intro status
    rw [count_add, ofNat_add_ite]
  have hname : (opened.add c).name = opened.name := rfl
  constructor
  · rw [hname, ← h.suite]
    cases c.status <;> rfl
  all_goals
    rw [hcount]
    cases c.status <;> simp [Open.count, h.passed, h.failed, h.skipped]

theorem OpenReport.add (h : OpenReport p I env.reg opened) {c : CaseReport}
    (hsuite : c.case.suite = opened.name)
    (hwindow : WindowOf p I env.reg c.case c.window) :
    OpenReport p I env.reg (opened.add c) where
  suite := by
    intro d hd
    rcases List.mem_append.mp hd with hd | hd
    · exact h.suite d hd
    · rw [List.mem_singleton.mp hd]
      exact hsuite
  window := by
    intro d hd
    rcases List.mem_append.mp hd with hd | hd
    · exact h.window d hd
    · rw [List.mem_singleton.mp hd]
      exact hwindow
  setup := h.setup

/-- Running a case of the open suite. -/
theorem LoopAt.run (hI : Invariant p I) (henv : ∀ g, I g → g.env = env)
    (h : LoopAt p I sel env base passed closed opened x) {t : Case}
    (hname : opened.name = t.suite) (hsel : sel env t = true) :
    ∃ c, LoopAt p I sel env base (passed ++ [t]) closed (opened.add c)
      (runCase p t x) := by
  have hstart : I ((x.1.begin t).say (.caseStart t.id)).g :=
    hI.case x.1.g t.id h.inv
  obtain ⟨window, hwindow, hgrew⟩ := runBody_grew hI
    (fun g hg => congrArg Env.reg (henv g hg)) t hstart rfl
  have hstatus : (runBody p t ((x.1.begin t).say (.caseStart t.id))).status =
      CaseReport.status ⟨t, window⟩ :=
    status_of_grew hgrew rfl rfl
  have hcounts : Counts (runBody p t ((x.1.begin t).say (.caseStart t.id))).g
      (closed ++ [opened]) :=
    ⟨hgrew.passed.trans h.counts.passed, hgrew.failed.trans h.counts.failed,
      hgrew.skipped.trans h.counts.skipped⟩
  have htrace : (runBody p t ((x.1.begin t).say (.caseStart t.id))).trace =
      x.1.trace ++ (.take t :: .msg (.caseStart t.id) :: window) := by
    rw [hgrew.trace]
    simp [Sys.say, Sys.begin]
  have hopening : (opened.add ⟨t, window⟩).opening = opened.opening := rfl
  have hcases : (opened.add ⟨t, window⟩).cases = opened.cases ++ [⟨t, window⟩] := rfl
  have hinv := hgrew.inv
  refine ⟨⟨t, window⟩, ?_⟩
  unfold runCase
  dsimp only
  generalize runBody p t _ = s' at hstatus hcounts htrace hinv ⊢
  rw [hstatus]
  exact
    { trace := by
        rw [hopening, hcases]
        simp [Sys.say, count_trace, htrace, h.trace, CaseReport.steps]
      inv := count_inv hI hinv _
      counts := hcounts.add ⟨t, window⟩
      openCounts := h.openCounts.add ⟨t, window⟩
      closedReports := h.closedReports
      openReport := h.openReport.add hname.symm hwindow
      cases := by
        rw [List.filter_append, ← h.cases]
        simp [reportedCases, SuiteReport.add, hsel]
      names := by
        have hnames := h.names
        rw [List.map_append] at hnames ⊢
        exact hnames }

/-- Before a case, the open suite is that of the case or a smaller one. -/
theorem LoopAt.suite_le (h : LoopAt p I sel env base passed closed opened x)
    (hne : opened.name ≠ none → opened.cases ≠ []) {t : Case}
    (hsorted : ∀ s ∈ passed, (caseCmp s t).isLE) :
    opened.name = t.suite ∨ strCmp opened.name t.suite = .lt := by
  have hle : (strCmp opened.name t.suite).isLE := by
    cases hname : opened.name with
    | none => cases t.suite <;> rfl
    | some name =>
      -- the last case of the open suite stands in front of the case in the list
      obtain ⟨c, cs, hcs⟩ := List.exists_cons_of_ne_nil
        (hne (by rw [hname]; simp))
      have hmem : c.case ∈ passed.filter (sel env) := by
        rw [← h.cases]
        simp [reportedCases, hcs]
      have hc := strCmp_suite_of_caseCmp (hsorted c.case (List.mem_filter.mp hmem).1)
      rw [h.openReport.suite c (by simp [hcs]), hname] at hc
      exact hc
  cases hcmp : strCmp opened.name t.suite with
  | lt => exact Or.inr rfl
  | eq => exact Or.inl (strCmp_eq_iff.mp hcmp)
  | gt =>
    rw [hcmp] at hle
    cases hle

/-- One round of the loop. -/
theorem LoopAt.round (hI : Invariant p I) (henv : ∀ g, I g → g.env = env)
    (h : LoopAt p I sel env base passed closed opened x)
    (hne : opened.name ≠ none → opened.cases ≠ []) {t : Case}
    (hsorted : ∀ s ∈ passed, (caseCmp s t).isLE) :
    ∃ closed' opened', (opened'.name ≠ none → opened'.cases ≠ []) ∧
      LoopAt p I sel env base (passed ++ [t]) closed' opened'
        (loopBody p sel x t) := by
  unfold loopBody
  rw [henv _ h.inv]
  split_ifs with hsel
  · have hadd : ∀ (r : SuiteReport) (c : CaseReport), (r.add c).cases ≠ [] := by
      intro r c
      simp [SuiteReport.add]
    rcases h.suite_le hne hsorted with heq | hlt
    · have hsame : switchSuite p t x = x := by
        unfold switchSuite
        rw [h.openCounts.suite, heq, strCmp_eq_iff.mpr rfl]
        simp
      obtain ⟨c, hrun⟩ := h.run hI henv heq hsel
      rw [hsame]
      exact ⟨closed, opened.add c, fun _ => hadd opened c, hrun⟩
    · obtain ⟨closed', opened', hname, hswitch⟩ := h.switch hI henv hne hlt
      obtain ⟨c, hrun⟩ := hswitch.run hI henv hname hsel
      exact ⟨closed', opened'.add c, fun _ => hadd opened' c, hrun⟩
  · refine ⟨closed, opened, hne, h.trace, h.inv, h.counts, h.openCounts,
      h.closedReports, h.openReport, ?_, h.names⟩
    rw [h.cases, List.filter_append]
    simp [hsel]

/-- The loop, by induction on the cases that are left. -/
theorem LoopAt.loop (hI : Invariant p I) (henv : ∀ g, I g → g.env = env)
    (rest : List Case)
    (h : LoopAt p I sel env base passed closed opened x)
    (hne : opened.name ≠ none → opened.cases ≠ [])
    (hsorted : SortedCases (passed ++ rest)) :
    ∃ closed' opened', (opened'.name ≠ none → opened'.cases ≠ []) ∧
      LoopAt p I sel env base (passed ++ rest) closed' opened'
        (rest.foldl (loopBody p sel) x) := by
  induction rest generalizing passed closed opened x with
  | nil => exact ⟨closed, opened, hne, by simpa using h⟩
  | cons t rest ih =>
      have hle : ∀ s ∈ passed, (caseCmp s t).isLE := fun s hs =>
        (List.pairwise_append.mp hsorted).2.2 s hs t (by simp)
      obtain ⟨closed1, opened1, hne1, hround⟩ := h.round hI henv hne hle
      have hsorted1 : SortedCases (passed ++ [t] ++ rest) := by simpa using hsorted
      obtain ⟨closed2, opened2, hne2, hloop⟩ := ih hround hne1 hsorted1
      refine ⟨closed2, opened2, hne2, ?_⟩
      rw [List.append_assoc] at hloop
      exact hloop

end Loop

/-! ## The run -/

/-- The cases that a run can take: those of the list and those of the section. -/
def registered (p : Program ω) (s : Sys ω) : List Case :=
  (collectSectionCases p s.g.env.reg).tests

/-- A report that accounts for a run. -/
structure ReportOf (p : Program ω) (I : Globals → Prop) (sel : Env → Case → Bool)
    (env : Env) (rs : List SuiteReport) : Prop where
  reports : ∀ r ∈ rs, ClosedReport p I env.reg r
  names : (rs.map SuiteReport.name).Pairwise fun a b => strCmp a b = .lt
  cases : reportedCases rs = env.reg.tests.filter (sel env)

/-- The cases of a report are cases of the list. -/
theorem ReportOf.case_mem {p : Program ω} {I : Globals → Prop}
    {sel : Env → Case → Bool} {env : Env} {rs : List SuiteReport}
    (h : ReportOf p I sel env rs) {r : SuiteReport} (hr : r ∈ rs) {c : CaseReport}
    (hc : c ∈ r.cases) : c.case ∈ env.reg.tests :=
  (List.mem_filter.mp (h.cases ▸ mem_reportedCases hr hc)).1

/-- The stretch of a run behind the banner. -/
def runSteps (rs : List SuiteReport) : List Step :=
  rs.flatMap SuiteReport.steps ++
    [.msg (.done (UInt32.ofNat (total rs .passed)) (UInt32.ofNat (total rs .failed))
      (UInt32.ofNat (total rs .skipped)))]

/-- What a run does, for every program and every match function. -/
theorem runFiltered_report {p : Program ω} {I : Globals → Prop} {env : Env}
    (hI : Invariant p I) (henv : ∀ g, I g → g.env = env)
    (sel : Env → Case → Bool) {s : Sys ω} (h : I (prepare p s).g)
    (hsorted : SortedCases env.reg.tests) :
    ∃ rs, ReportOf p I sel env rs ∧
      (runFiltered p sel s).1.trace = s.trace ++ .msg .banner :: runSteps rs ∧
      (runFiltered p sel s).2 =
        (if UInt32.ofNat (total rs .failed) ≠ 0 then 1 else 0) ∧
      I (runFiltered p sel s).1.g := by
  have hstart : LoopAt p I sel env (s.trace ++ [.msg .banner]) [] []
      ⟨none, [], [], []⟩ ((prepare p s).say .banner, ⟨none, 0, 0, 0⟩) :=
    { trace := by simp [Sys.say, prepare, SuiteReport.opening]
      inv := h
      counts := ⟨rfl, rfl, rfl⟩
      openCounts := ⟨rfl, rfl, rfl, rfl⟩
      closedReports := by simp
      openReport := ⟨by simp, by simp, Or.inl rfl⟩
      cases := by simp [reportedCases]
      names := List.pairwise_singleton _ _ }
  obtain ⟨closed, opened, hne, hloop⟩ := hstart.loop hI henv env.reg.tests
    (fun hname => absurd rfl hname) hsorted
  obtain ⟨teardown, hclosed⟩ := hloop.close hI henv
  have hlist : ((prepare p s).say .banner).g.env.reg.tests = env.reg.tests := by
    rw [henv _ hstart.inv]
  unfold runFiltered
  dsimp only
  rw [hlist]
  generalize closeSuite p _ _ = s' at hclosed ⊢
  refine ⟨closed ++ [{ opened with teardown := teardown }],
    ⟨hloop.reports hne hclosed, ?_, ?_⟩, ?_, ?_, hclosed.inv⟩
  · have hnames := hloop.names
    rw [List.map_append] at hnames ⊢
    exact hnames
  · have hcases := hloop.cases
    simp only [reportedCases, List.flatMap_append] at hcases ⊢
    simpa using hcases
  · simp [Sys.say, hclosed.trace, runSteps, total_teardown, hclosed.counts.passed,
      hclosed.counts.failed, hclosed.counts.skipped]
  · rw [total_teardown, hclosed.counts.failed]

theorem registered_congr (p : Program ω) {s s' : Sys ω}
    (h : s'.g.env.reg = s.g.env.reg) : registered p s' = registered p s := by
  rw [registered, registered, h]

/-- The public functions choose the match function and set the filters. -/
theorem Entry.run_matcher (p : Program ω) (e : Entry) (s : Sys ω) :
    e.run p s = runFiltered p e.matcher.sel (e.filters s) := by
  cases e with
  | all => rfl
  | tag t => cases t <;> rfl
  | suite u =>
    simp only [Entry.run, potRunSuite, Entry.matcher, Entry.filters]
    cases nonEmpty u <;> rfl
  | group u g =>
    simp only [Entry.run, potRunGroup, Entry.matcher, Entry.filters]
    cases nonEmpty u <;> cases nonEmpty g <;> rfl
  | case u g c =>
    simp only [Entry.run, potRunCase, Entry.matcher, Entry.filters]
    cases nonEmpty u <;> cases nonEmpty g <;> cases nonEmpty c <;> rfl

theorem filters_eq_setFilter (s : Sys ω) (e : Entry) :
    ∃ group name, e.filters s = s.setFilter group name := by
  cases e with
  | group u g =>
    simp only [Entry.filters]
    cases nonEmpty u <;> cases nonEmpty g <;> exact ⟨_, _, rfl⟩
  | case u g c =>
    simp only [Entry.filters]
    cases nonEmpty u <;> cases nonEmpty g <;> cases nonEmpty c <;> exact ⟨_, _, rfl⟩
  | _ => exact ⟨s.g.env.filterGroup, s.g.env.filterCase, rfl⟩

theorem filters_env (s : Sys ω) (e : Entry) : (e.filters s).g.env.reg = s.g.env.reg := by
  obtain ⟨group, name, hfilters⟩ := filters_eq_setFilter s e
  rw [hfilters]
  rfl

/-- Every entry point is a filtered run, from a state with the same registry. -/
theorem Entry.run_eq (p : Program ω) (e : Entry) (s : Sys ω) :
    ∃ sel s', e.run p s = runFiltered p sel s' ∧ s'.trace = s.trace ∧
      s'.g.env.reg = s.g.env.reg := by
  obtain ⟨group, name, hfilters⟩ := filters_eq_setFilter s e
  exact ⟨e.matcher.sel, e.filters s, Entry.run_matcher p e s, by rw [hfilters]; rfl,
    filters_env s e⟩

/-! ## The cases of a run -/

theorem executed_flatMap {α : Type} (f : α → List Step) (xs : List α) :
    executed (xs.flatMap f) = xs.flatMap fun x => executed (f x) := by
  induction xs with
  | nil => rfl
  | cons x xs ih => rw [List.flatMap_cons, List.flatMap_cons, executed_append, ih]

theorem executed_case {p : Program ω} {I : Globals → Prop} {reg : Registry}
    {r : CaseReport} (h : WindowOf p I reg r.case r.window) :
    executed r.steps = [r.case] := by
  obtain ⟨setup, body, teardown, hsetup, hbody, hteardown, hwindow⟩ := h
  have hsplit : executed r.steps = r.case :: executed (r.window ++
      [.msg (.caseEnd r.case.id r.status)]) := rfl
  rw [hsplit, executed_append, hwindow, executed_append, executed_append,
    hsetup.executed, hbody.executed, hteardown.executed]
  rfl

theorem executed_suite {p : Program ω} {I : Globals → Prop} {reg : Registry}
    {r : SuiteReport} (h : ClosedReport p I reg r) :
    executed r.steps = r.cases.map CaseReport.case := by
  have hopening : executed r.opening = [] := by
    unfold SuiteReport.opening
    rcases h.setup with hname | ⟨cur, hsetup⟩
    · rw [hname]
      rfl
    · cases r.name with
      | none => rfl
      | some name =>
        dsimp only
        rw [executed_append, hsetup.executed]
        rfl
  have hclosing : executed r.closing = [] := by
    unfold SuiteReport.closing
    rcases h.teardown with hname | ⟨cur, hteardown⟩
    · rw [hname]
      rfl
    · cases r.name with
      | none => rfl
      | some name =>
        dsimp only
        rw [executed_append, hteardown.executed]
        rfl
  have hcases : ∀ cs : List CaseReport,
      (∀ c ∈ cs, WindowOf p I reg c.case c.window) →
        executed (cs.flatMap CaseReport.steps) = cs.map CaseReport.case := by
    intro cs hcs
    rw [executed_flatMap]
    induction cs with
    | nil => rfl
    | cons c cs ih =>
        rw [List.flatMap_cons, executed_case (hcs c (by simp)),
          ih fun d hd => hcs d (by simp [hd])]
        rfl
  rw [SuiteReport.steps, executed_append, executed_append, hopening, hclosing,
    hcases r.cases h.window, List.append_nil, List.nil_append]

/-- A run executes the cases of its report. -/
theorem executed_run {p : Program ω} {I : Globals → Prop} {sel : Env → Case → Bool}
    {env : Env} {rs : List SuiteReport} (h : ReportOf p I sel env rs) :
    executed (runSteps rs) = reportedCases rs := by
  rw [runSteps, executed_append, executed_flatMap]
  show (rs.flatMap fun r => executed r.steps) ++ [] = _
  rw [List.append_nil]
  exact List.flatMap_congr fun r hr => executed_suite (h.reports r hr)

/-- The cases that a run executes, when the program registers nothing. -/
theorem executed_runFiltered {p : Program ω} (hquiet : CallsOnly p fun c => quiet c)
    (sel : Env → Case → Bool) (s : Sys ω) :
    ∃ new, (runFiltered p sel s).1.trace = s.trace ++ new ∧
      executed new = (sortCases (registered p s)).filter
        (sel (prepare p s).g.env) := by
  obtain ⟨rs, hreport, htrace, -, -⟩ := runFiltered_report
    (quiet_invariant hquiet (prepare p s).g.env) (fun _ hg => hg) sel rfl
    (sortCases_sorted (registered p s))
  refine ⟨.msg .banner :: runSteps rs, htrace, ?_⟩
  have hbanner : executed (.msg .banner :: runSteps rs) = executed (runSteps rs) := rfl
  rw [hbanner, executed_run hreport, hreport.cases]
  rfl

end PolyOnTest.Run
