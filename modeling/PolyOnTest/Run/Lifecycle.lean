import Mathlib.Algebra.Order.BigOperators.Group.List
import Mathlib.Algebra.Order.Group.Nat
import Mathlib.Data.List.Nodup
import PolyOnTest.Run.Shape
import PolyOnTest.Run.Stretches

/-!
# The lifecycle of a run

The shape of a run whose cases and group fixtures make assertions only and
whose suite fixtures are silent, from every state that earlier registrations and
runs can leave.  `run_lifecycle` collects what a reader of the output relies on:
which cases run and in which order, one bracket for each suite with the fixtures
inside of it, and totals that are those of the cases.

A run that is not the first one starts from the registry that the runs before
it left.  `Reachable` are the states in front of a run, with any programs in the
runs before, and `Reachable.linked` is the invariant that matters here: no
descriptor is linked twice.
-/

namespace PolyOnTest.Run

open CodeLib.CMemory PolyOnTest.Harness

variable {ω : Type}

/-! ## Earlier registrations and runs -/

/-- The states that calls of the public functions lead to. -/
inductive Reachable : Sys ω → Prop
  | start (world : ω) : Reachable ⟨.init, world, []⟩
  | call {s : Sys ω} (c : Call) : Reachable s → Reachable (s.call c)
  | setFilter {s : Sys ω} (group name : Option CStr) :
      Reachable s → Reachable (s.setFilter group name)
  | run {s : Sys ω} (p : Program ω) (sel : Env → Case → Bool) :
      Reachable s → Reachable (runFiltered p sel s).1

section Invariants

variable {p : Program ω} {I : Globals → Prop}

theorem enter_inv (hI : Invariant p I) (hook : Hook) (f : Option FnId) {s : Sys ω}
    (h : I s.g) : I (s.enter p hook f).g := by
  obtain ⟨_, -, hgrew⟩ := enter_grew hI hook f h
  exact hgrew.inv

/-- Every stretch of a run keeps an invariant of the program. -/
theorem inv_stretch (hI : Invariant p I) : Stretch p fun s s' => I s.g → I s'.g where
  refl _ := id
  trans h h' := h' ∘ h
  say _ _ _ := id
  enter _ hook f := enter_inv hI hook f
  begin s t := hI.case s.g t.id
  count _ status h := count_inv hI h status

theorem closeSuite_inv (hI : Invariant p I) (o : Open) {s : Sys ω} (h : I s.g) :
    I (closeSuite p o s).g :=
  (inv_stretch hI).closeSuite o s h

theorem loopBody_inv (hI : Invariant p I) (sel : Env → Case → Bool)
    {x : Sys ω × Open} (h : I x.1.g) (t : Case) : I (loopBody p sel x t).1.g :=
  (inv_stretch hI).loopBody sel x t h

/-- An invariant of the program holds behind a run. -/
theorem runFiltered_inv (hI : Invariant p I) (sel : Env → Case → Bool) {s : Sys ω}
    (h : I (prepare p s).g) : I (runFiltered p sel s).1.g :=
  (inv_stretch hI).runFiltered sel s h

end Invariants

theorem effect_linked {g : Globals} (h : g.env.reg.Linked) (c : Call) :
    (c.effect g).env.reg.Linked := by
  cases c with
  | register t => exact h.register t
  | registerSuite u => exact h.registerSuite u
  | registerGroup u => exact h.registerGroup u
  | _ => exact h

theorem linked_invariant (p : Program ω) :
    Invariant p fun g => g.env.reg.Linked where
  call := fun _ _ c _ _ hg => effect_linked hg c
  case := fun _ _ hg => hg
  counters := fun _ _ _ _ hg => hg

theorem collect_linked (p : Program ω) {reg : Registry} (h : reg.Linked) :
    (collectSectionCases p reg).Linked := by
  unfold collectSectionCases
  induction p.potInfo generalizing reg with
  | nil => exact h
  | cons t ts ih => exact ih (h.register (some t))

theorem prepare_linked (p : Program ω) {s : Sys ω} (h : s.g.env.reg.Linked) :
    (prepare p s).g.env.reg.Linked :=
  (collect_linked p h).sort

/-- Whatever came before, no descriptor is linked twice. -/
theorem Reachable.linked {s : Sys ω} (h : Reachable s) : s.g.env.reg.Linked := by
  induction h with
  | start world => exact ⟨List.nodup_nil, List.nodup_nil, List.nodup_nil⟩
  | call c _ ih => exact effect_linked ih c
  | setFilter group name _ ih => exact ih
  | run p sel _ ih => exact runFiltered_inv (linked_invariant p) sel (prepare_linked p ih)

/-! ## Silent suite fixtures -/

/-- A call that an assertion makes. -/
def plain : Call → Bool
  | .failAt .. => true
  | .ignore _ => true
  | _ => false

/-- The fixtures of every suite make no call of the harness. -/
def SilentSuites (p : Program ω) (reg : Registry) : Prop :=
  ∀ u ∈ reg.suites, ∀ f, u.setup = some f ∨ u.teardown = some f →
    ∀ w, (p.code f w).1 = []

/-- The stretch of a silent fixture. -/
def fixtureSteps (hook : Hook) : Option FnId → List Step
  | none => []
  | some f => [.enter hook f]

theorem plain_quiet {c : Call} (h : plain c = true) : quiet c = true := by
  cases c <;> first | rfl | simp [plain] at h

theorem Entered.silent {p : Program ω} {I : Globals → Prop} {hook : Hook}
    {f : Option FnId} {cur : CaseId} {steps : List Step}
    (h : Entered p I hook f cur steps)
    (hsilent : ∀ f', f = some f' → ∀ w, (p.code f' w).1 = []) :
    steps = fixtureSteps hook f := by
  cases f with
  | none => exact h
  | some f =>
    obtain ⟨w, g, -, -, rfl⟩ := h
    rw [hsilent f rfl w]
    rfl

/-- A silent fixture of a suite leaves its own step. -/
theorem silent_fixture {p : Program ω} {I : Globals → Prop} {reg : Registry}
    (h : SilentSuites p reg) {hook : Hook} {pick : Suite → Option FnId}
    (hpick : ∀ u f, pick u = some f → u.setup = some f ∨ u.teardown = some f)
    {name : Option CStr} {steps : List Step} (hname : name.isSome = true)
    (hsteps : name = none ∨
      ∃ cur, Entered p I hook ((findSuite reg name).bind pick) cur steps) :
    steps = fixtureSteps hook ((findSuite reg name).bind pick) := by
  rcases hsteps with hnone | ⟨cur, hentered⟩
  · simp [hnone] at hname
  · refine hentered.silent fun f hf => ?_
    obtain ⟨u, hu, hfixture⟩ := Option.bind_eq_some_iff.mp hf
    exact h u (List.mem_of_find?_eq_some hu) f (hpick u f hfixture)

/-! ## Runs over named suites -/

/-- The reports with brackets. -/
def named (rs : List SuiteReport) : List SuiteReport :=
  rs.filter fun r => r.name.isSome

theorem flatMap_filter {α β : Type} {f : α → List β} {q : α → Bool} {xs : List α}
    (h : ∀ x ∈ xs, q x = false → f x = []) :
    (xs.filter q).flatMap f = xs.flatMap f := by
  induction xs with
  | nil => rfl
  | cons x xs ih =>
      have hrest := ih fun y hy => h y (by simp [hy])
      rw [List.filter_cons, List.flatMap_cons]
      split_ifs with hq
      · rw [List.flatMap_cons, hrest]
      · rw [h x (by simp) (by simpa using hq), hrest]
        rfl

/-- Without cases that lack a suite name, the report without a name is empty. -/
theorem unnamed_empty {p : Program ω} {I : Globals → Prop} {reg : Registry}
    {r : SuiteReport} (h : ClosedReport p I reg r)
    (hsuite : ∀ c ∈ r.cases, c.case.suite ≠ none) (hname : r.name.isSome = false) :
    r.cases = [] := by
  have hnone : r.name = none := by simpa using hname
  rcases hr : r.cases with _ | ⟨c, cs⟩
  · rfl
  · have hc : c ∈ r.cases := by simp [hr]
    exact absurd ((h.suite c hc).trans hnone) (hsuite c hc)

theorem unnamed_steps {r : SuiteReport} (hname : r.name.isSome = false)
    (hcases : r.cases = []) : r.steps = [] := by
  have hnone : r.name = none := by simpa using hname
  rw [SuiteReport.steps, SuiteReport.opening, SuiteReport.closing, hnone, hcases]
  rfl

theorem total_named {rs : List SuiteReport}
    (h : ∀ r ∈ rs, r.name.isSome = false → r.cases = []) (status : TestStatus) :
    total (named rs) status = total rs status := by
  induction rs with
  | nil => rfl
  | cons r rs ih =>
      have hrest := ih fun x hx => h x (by simp [hx])
      unfold total named at hrest ⊢
      rw [List.filter_cons, List.map_cons, List.sum_cons, ← hrest]
      split_ifs with hname
      · rw [List.map_cons, List.sum_cons]
      · have hcount : r.count status = 0 := by
          rw [SuiteReport.count, h r (by simp) (by simpa using hname)]
          rfl
        rw [hcount, Nat.zero_add]

/-! ## Messages -/

/-- The failures that a case reports. -/
def CaseReport.failures (r : CaseReport) : List Msg :=
  (messages r.window).filter fun m => !m.isNote

/-- The messages of a case. -/
def CaseReport.msgs (r : CaseReport) : List Msg :=
  .caseStart r.case.id :: (r.failures ++ [.caseEnd r.case.id r.status])

/-- The messages of a suite with silent fixtures. -/
def SuiteReport.msgs (r : SuiteReport) : List Msg :=
  .suiteStart r.name :: (r.cases.flatMap CaseReport.msgs ++
    [.suiteEnd r.name (UInt32.ofNat (r.count .passed)) (UInt32.ofNat (r.count .failed))
      (UInt32.ofNat (r.count .skipped))])

/-- The messages of a trace that both output modes have. -/
def reported (trace : List Step) : List Msg :=
  (messages trace).filter fun m => !m.isNote

theorem reported_append (a b : List Step) :
    reported (a ++ b) = reported a ++ reported b := by
  unfold reported
  rw [messages_append, List.filter_append]

theorem reported_flatMap {α : Type} (f : α → List Step) (xs : List α) :
    reported (xs.flatMap f) = xs.flatMap fun x => reported (f x) := by
  induction xs with
  | nil => rfl
  | cons x xs ih => rw [List.flatMap_cons, List.flatMap_cons, reported_append, ih]

theorem reported_case (r : CaseReport) : reported r.steps = r.msgs := by
  have hsplit : reported r.steps =
      .caseStart r.case.id :: reported (r.window ++
        [.msg (.caseEnd r.case.id r.status)]) := rfl
  rw [hsplit, reported_append]
  rfl

theorem reported_fixture (hook : Hook) (f : Option FnId) :
    reported (fixtureSteps hook f) = [] := by
  cases f <;> rfl

theorem reported_suite {r : SuiteReport} (hname : r.name.isSome = true)
    (hsetup : reported r.setup = []) (hteardown : reported r.teardown = []) :
    reported r.steps = r.msgs := by
  obtain ⟨name, hn⟩ := Option.isSome_iff_exists.mp hname
  have hopening : r.opening = r.setup ++ [.msg (.suiteStart r.name)] := by
    rw [SuiteReport.opening, hn]
  have hclosing : r.closing = r.teardown ++
      [.msg (.suiteEnd r.name (UInt32.ofNat (r.count .passed))
        (UInt32.ofNat (r.count .failed)) (UInt32.ofNat (r.count .skipped)))] := by
    rw [SuiteReport.closing, hn]
  rw [SuiteReport.steps, hopening, hclosing, reported_append, reported_append,
    reported_append, reported_append, hsetup, hteardown, reported_flatMap]
  simp only [reported_case]
  rfl

/-- The messages of a run are those of its suites, between a banner that is not
among them and the counters. -/
theorem reported_runSteps {rs : List SuiteReport}
    (h : ∀ r ∈ rs, reported r.steps = r.msgs) :
    reported (.msg .banner :: runSteps rs) = rs.flatMap SuiteReport.msgs ++
      [.done (UInt32.ofNat (total rs .passed)) (UInt32.ofNat (total rs .failed))
        (UInt32.ofNat (total rs .skipped))] := by
  have hbanner : reported (.msg .banner :: runSteps rs) = reported (runSteps rs) := rfl
  rw [hbanner, runSteps, reported_append, reported_flatMap]
  congr 1
  exact List.flatMap_congr h

/-- Each failure of a case names the case. -/
theorem failures_of_window {p : Program ω} {I : Globals → Prop} {reg : Registry}
    {r : CaseReport} (h : WindowOf p I reg r.case r.window) {m : Msg}
    (hm : m ∈ r.failures) :
    ∃ file line message, m = .assertFail r.case.id file line message := by
  obtain ⟨setup, body, teardown, hsetup, hbody, hteardown, hwindow⟩ := h
  obtain ⟨hmem, hnote⟩ := List.mem_filter.mp hm
  rw [hwindow, messages_append, messages_append, List.mem_append,
    List.mem_append] at hmem
  have hfrom : FromCase r.case.id m := by
    rcases hmem with (hmem | hmem) | hmem
    · exact hsetup.fromCase hmem
    · exact hbody.fromCase hmem
    · exact hteardown.fromCase hmem
  cases m with
  | assertFail id file line message =>
    rw [show id = r.case.id from hfrom]
    exact ⟨file, line, message, rfl⟩
  | ignored id message => simp [Msg.isNote] at hnote
  | _ => exact hfrom.elim

/-! ## The lifecycle -/

/-- What the bracketed reports of a run promise. -/
structure Lifecycle (p : Program ω) (sel : Env → Case → Bool) (env : Env)
    (rs : List SuiteReport) : Prop where
  named : ∀ r ∈ rs, r.name ≠ none
  once : (rs.map SuiteReport.name).Nodup
  nonempty : ∀ r ∈ rs, r.cases ≠ []
  suite : ∀ r ∈ rs, ∀ c ∈ r.cases, c.case.suite = r.name
  setup : ∀ r ∈ rs, r.setup =
    fixtureSteps .suiteSetup ((findSuite env.reg r.name).bind Suite.setup)
  teardown : ∀ r ∈ rs, r.teardown =
    fixtureSteps .suiteTeardown ((findSuite env.reg r.name).bind Suite.teardown)
  window : ∀ r ∈ rs, ∀ c ∈ r.cases,
    WindowOf p (fun g => g.env = env) env.reg c.case c.window
  failures : ∀ r ∈ rs, ∀ c ∈ r.cases, ∀ m ∈ c.failures,
    ∃ file line message, m = .assertFail c.case.id file line message
  sorted : SortedCases (reportedCases rs)
  nodup : (reportedCases rs).Nodup
  counters : ∀ status, total rs status < 2 ^ 32 →
    (UInt32.ofNat (total rs status)).toNat = total rs status ∧
      ∀ r ∈ rs, (UInt32.ofNat (r.count status)).toNat = r.count status

theorem silent_prepare {p : Program ω} {s : Sys ω}
    (h : SilentSuites p s.g.env.reg) : SilentSuites p (prepare p s).g.env.reg := by
  intro u hu
  exact h u (collect_suites p s.g.env.reg ▸ hu)

theorem count_le_total {rs : List SuiteReport} {r : SuiteReport} (h : r ∈ rs)
    (status : TestStatus) : r.count status ≤ total rs status :=
  List.le_sum_of_mem (List.mem_map_of_mem h)

theorem counters_exact {rs : List SuiteReport} {status : TestStatus}
    (h : total rs status < 2 ^ 32) :
    (UInt32.ofNat (total rs status)).toNat = total rs status ∧
      ∀ r ∈ rs, (UInt32.ofNat (r.count status)).toNat = r.count status := by
  refine ⟨?_, fun r hr => ?_⟩
  · rw [UInt32.toNat_ofNat', Nat.mod_eq_of_lt h]
  · have hle := count_le_total hr status
    rw [UInt32.toNat_ofNat', Nat.mod_eq_of_lt (by omega)]

theorem names_nodup {names : List (Option CStr)}
    (h : names.Pairwise fun a b => strCmp a b = .lt) : names.Nodup := by
  refine h.imp fun {a b} hab heq => ?_
  rw [heq, strCmp_eq_iff.mpr rfl] at hab
  cases hab

theorem reportedCases_named {rs : List SuiteReport}
    (h : ∀ r ∈ rs, r.name.isSome = false → r.cases = []) :
    reportedCases (Run.named rs) = reportedCases rs :=
  flatMap_filter fun r hr hname => by rw [h r hr hname]; rfl

/-- A report in which every suite has a name and brackets, and silent fixtures. -/
structure NamedReport (p : Program ω) (I : Globals → Prop) (sel : Env → Case → Bool)
    (env : Env) (rs : List SuiteReport) : Prop extends ReportOf p I sel env rs where
  named : ∀ r ∈ rs, r.name.isSome = true
  setup : ∀ r ∈ rs, r.setup =
    fixtureSteps .suiteSetup ((findSuite env.reg r.name).bind Suite.setup)
  teardown : ∀ r ∈ rs, r.teardown =
    fixtureSteps .suiteTeardown ((findSuite env.reg r.name).bind Suite.teardown)

/-- What a run does when every case has a suite name and the suite fixtures are
silent. -/
theorem run_named {p : Program ω} {I : Globals → Prop} {env : Env}
    (hI : Invariant p I) (henv : ∀ g, I g → g.env = env) (sel : Env → Case → Bool)
    {s : Sys ω} (h : I (prepare p s).g) (hsorted : SortedCases env.reg.tests)
    (hsilent : SilentSuites p env.reg) (hnames : ∀ t ∈ env.reg.tests, t.suite ≠ none) :
    ∃ rs, NamedReport p I sel env rs ∧
      (runFiltered p sel s).1.trace = s.trace ++ .msg .banner :: runSteps rs ∧
      (runFiltered p sel s).2 =
        (if UInt32.ofNat (total rs .failed) ≠ 0 then 1 else 0) ∧
      reported (.msg .banner :: runSteps rs) = rs.flatMap SuiteReport.msgs ++
        [.done (UInt32.ofNat (total rs .passed)) (UInt32.ofNat (total rs .failed))
          (UInt32.ofNat (total rs .skipped))] := by
  obtain ⟨rs, hreport, htrace, hreturn, -⟩ := runFiltered_report hI henv sel h hsorted
  have hempty : ∀ r ∈ rs, r.name.isSome = false → r.cases = [] := fun r hr =>
    unnamed_empty (hreport.reports r hr) fun c hc => hnames c.case (hreport.case_mem hr hc)
  have hsub : ∀ r ∈ Run.named rs, r ∈ rs ∧ r.name.isSome = true := fun r hr =>
    List.mem_filter.mp hr
  have hsetup : ∀ r ∈ Run.named rs, r.setup = fixtureSteps .suiteSetup
      ((findSuite env.reg r.name).bind Suite.setup) := fun r hr =>
    silent_fixture hsilent (fun _ _ => Or.inl) (hsub r hr).2
      (hreport.reports r (hsub r hr).1).setup
  have hteardown : ∀ r ∈ Run.named rs, r.teardown = fixtureSteps .suiteTeardown
      ((findSuite env.reg r.name).bind Suite.teardown) := fun r hr =>
    silent_fixture hsilent (fun _ _ => Or.inr) (hsub r hr).2
      (hreport.reports r (hsub r hr).1).teardown
  have hsteps : runSteps (Run.named rs) = runSteps rs := by
    unfold runSteps
    rw [total_named hempty, total_named hempty, total_named hempty]
    congr 1
    exact flatMap_filter fun r hr hname => unnamed_steps hname (hempty r hr hname)
  refine ⟨Run.named rs, ?_, by rw [htrace, hsteps], by rw [hreturn, total_named hempty],
    ?_⟩
  · exact
      { reports := fun r hr => hreport.reports r (hsub r hr).1
        names := hreport.names.sublist (List.filter_sublist.map SuiteReport.name)
        cases := (reportedCases_named hempty).trans hreport.cases
        named := fun r hr => (hsub r hr).2
        setup := hsetup
        teardown := hteardown }
  · refine reported_runSteps fun r hr => reported_suite (hsub r hr).2 ?_ ?_
    · rw [hsetup r hr]
      exact reported_fixture _ _
    · rw [hteardown r hr]
      exact reported_fixture _ _

/-- The lifecycle of a run, behind any registrations and runs that leave no
case without a suite name. -/
theorem run_lifecycle {p : Program ω} {s : Sys ω} (hreach : Reachable s)
    (sel : Env → Case → Bool) (hplain : CallsOnly p fun c => plain c)
    (hsilent : SilentSuites p s.g.env.reg)
    (hnames : ∀ t ∈ registered p s, t.suite ≠ none) :
    ∃ rs, Lifecycle p sel (prepare p s).g.env rs ∧
      (∀ t, t ∈ reportedCases rs ↔
        t ∈ registered p s ∧ sel (prepare p s).g.env t) ∧
      (runFiltered p sel s).1.trace = s.trace ++ .msg .banner :: runSteps rs ∧
      executed (runSteps rs) = reportedCases rs ∧
      reported (.msg .banner :: runSteps rs) = rs.flatMap SuiteReport.msgs ++
        [.done (UInt32.ofNat (total rs .passed)) (UInt32.ofNat (total rs .failed))
          (UInt32.ofNat (total rs .skipped))] := by
  have hperm := sortCases_perm (registered p s)
  have hquiet : CallsOnly p fun c => quiet c := fun f w c hc =>
    plain_quiet (hplain f w c hc)
  obtain ⟨rs, hreport, htrace, -, hreported⟩ := run_named
    (quiet_invariant hquiet (prepare p s).g.env) (fun _ hg => hg) sel rfl
    (sortCases_sorted (registered p s)) (silent_prepare hsilent)
    (fun t ht => hnames t (hperm.mem_iff.mp ht))
  have hlinked : (prepare p s).g.env.reg.tests.Nodup :=
    List.Nodup.of_map Case.addr (prepare_linked p hreach.linked).tests
  refine ⟨rs, ?_, ?_, htrace, executed_run hreport.toReportOf, hreported⟩
  · exact
      { named := fun r hr => Option.isSome_iff_ne_none.mp (hreport.named r hr)
        once := names_nodup hreport.names
        nonempty := fun r hr => (hreport.reports r hr).nonempty
          (Option.isSome_iff_ne_none.mp (hreport.named r hr))
        suite := fun r hr => (hreport.reports r hr).suite
        setup := hreport.setup
        teardown := hreport.teardown
        window := fun r hr => (hreport.reports r hr).window
        failures := fun r hr c hc m hm => failures_of_window
          ((hreport.reports r hr).window c hc) hm
        sorted := by
          rw [hreport.cases]
          exact (sortCases_sorted (registered p s)).sublist List.filter_sublist
        nodup := by
          rw [hreport.cases]
          exact hlinked.sublist List.filter_sublist
        counters := fun status hlt => counters_exact hlt }
  · intro t
    rw [hreport.cases, List.mem_filter]
    exact and_congr_left fun _ => hperm.mem_iff

/-! ## A small registry -/

/-- The case `Math.ops.add`, with the function 1 as its body. -/
def mathCase : Case :=
  ⟨1, some (CStr.lit "Math"), some (CStr.lit "ops"), some (CStr.lit "add"), some 1, none⟩

/-- A fresh process that has registered the case. -/
def mathSys : Sys Unit :=
  Sys.call ⟨.init, (), []⟩ (.register (some mathCase))

/-- A program whose function 1 makes the given calls. -/
def bodyCalls (cs : List Call) : Program Unit :=
  ⟨fun f w => (if f = 1 then cs else [], w), []⟩

theorem bodyCalls_only {cs : List Call} {ok : Call → Prop} (h : ∀ c ∈ cs, ok c) :
    CallsOnly (bodyCalls cs) ok := by
  intro f w c hc
  unfold bodyCalls at hc
  dsimp only at hc
  split_ifs at hc
  · exact h c hc
  · simp at hc

/-- The bodies of two cases: the first one fails, and the second one fails and then
skips.  All other functions make no call of the harness. -/
def twoBodies : FnId → List Call
  | 1 => [.failAt none 7 none]
  | 2 => [.failAt none 9 none, .ignore none]
  | _ => []

/-- A program with these bodies. -/
def twoSuites : Program Unit := ⟨fun f w => (twoBodies f, w), []⟩

/-- Two suites with both fixtures, and three cases, one of which passes. -/
def twoSuitesSys : Sys Unit :=
  [.registerSuite (some ⟨10, some (CStr.lit "Math"), some 3, some 4, none⟩),
    .registerSuite (some ⟨11, some (CStr.lit "Text"), some 5, some 6, none⟩),
    .register (some mathCase),
    .register (some ⟨2, some (CStr.lit "Text"), some (CStr.lit "trim"),
      some (CStr.lit "left"), some 2, none⟩),
    .register (some ⟨3, some (CStr.lit "Math"), some (CStr.lit "ops"),
      some (CStr.lit "sub"), some 7, none⟩)].foldl Sys.call ⟨.init, (), []⟩

theorem twoSuites_reachable : Reachable twoSuitesSys :=
  .call _ (.call _ (.call _ (.call _ (.call _ (.start ())))))

theorem twoSuites_only {ok : Call → Prop} (h : ∀ c ∈ twoBodies 1 ++ twoBodies 2, ok c) :
    CallsOnly twoSuites ok := by
  intro f w c hc
  unfold twoSuites at hc
  dsimp only at hc
  unfold twoBodies at hc
  split at hc
  · exact h c (List.mem_append_left _ hc)
  · exact h c (List.mem_append_right _ hc)
  · exact (List.not_mem_nil hc).elim

theorem twoSuites_silent : SilentSuites twoSuites twoSuitesSys.g.env.reg := by
  intro u hu f hf w
  have hsuites : u ∈ [(⟨11, some (CStr.lit "Text"), some 5, some 6, none⟩ : Suite),
      ⟨10, some (CStr.lit "Math"), some 3, some 4, none⟩] := hu
  rcases List.mem_cons.mp hsuites with rfl | hsuites
  · rcases hf with hf | hf <;> cases hf <;> rfl
  · cases List.mem_singleton.mp hsuites
    rcases hf with hf | hf <;> cases hf <;> rfl

/-- The lifecycle of the two suites. -/
theorem run_lifecycle_twoSuites :
    ∃ rs, Lifecycle twoSuites matchAll (prepare twoSuites twoSuitesSys).g.env rs ∧
      (∀ t, t ∈ reportedCases rs ↔
        t ∈ registered twoSuites twoSuitesSys ∧
          matchAll (prepare twoSuites twoSuitesSys).g.env t) ∧
      (runFiltered twoSuites matchAll twoSuitesSys).1.trace =
        twoSuitesSys.trace ++ .msg .banner :: runSteps rs ∧
      executed (runSteps rs) = reportedCases rs ∧
      reported (.msg .banner :: runSteps rs) = rs.flatMap SuiteReport.msgs ++
        [.done (UInt32.ofNat (total rs .passed)) (UInt32.ofNat (total rs .failed))
          (UInt32.ofNat (total rs .skipped))] :=
  run_lifecycle twoSuites_reachable matchAll (twoSuites_only (by decide))
    twoSuites_silent (by decide)

end PolyOnTest.Run
