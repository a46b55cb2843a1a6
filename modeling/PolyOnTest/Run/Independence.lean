import PolyOnTest.Run.Filters
import PolyOnTest.Run.Residue

/-!
# Independence of the cases

Whether a case reports the same behind other cases as it does alone in a fresh
process.

The loop is followed twice.  `starts_initial_iff` finds the globals in front of
each case: they are as in a fresh process exactly when each stretch of calls
between two starts is tidy.  `loop_windows` finds the messages of each case when
they are.  The run of `pot_run_case` has fewer stretches, and `tidy_alone` says
that they are tidy too.  `independent_iff` puts these together.
-/

namespace PolyOnTest.Run

open CodeLib.CMemory PolyOnTest.Harness

variable {ω : Type}

/-! ## Cases in a process -/

/-- A process that has registered some descriptors and run nothing. -/
def fresh (reg : Registry) (world : ω) : Sys ω :=
  ⟨{ Globals.init with env := ⟨reg, none, none⟩ }, world, []⟩

/-- The globals of a case are as in a fresh process. -/
structure Initial (g : Globals) : Prop where
  currentFailed : g.currentFailed = Globals.init.currentFailed
  currentSkipped : g.currentSkipped = Globals.init.currentSkipped
  paramActive : g.paramActive = Globals.init.paramActive
  paramIndex : g.paramIndex = Globals.init.paramIndex
  param : g.param = Globals.init.param
  protectActive : g.protectActive = Globals.init.protectActive

/-- The globals in front of each case that the loop runs. -/
def starts (p : Program ω) (sel : Env → Case → Bool) :
    Sys ω × Open → List Case → List Globals
  | _, [] => []
  | x, t :: ts =>
      let later := starts p sel (loopBody p sel x t) ts
      if sel x.1.g.env t then ((switchSuite p t x).1.begin t).g :: later else later

/-- The globals in front of each case of a run. -/
def runStarts (p : Program ω) (sel : Env → Case → Bool) (s : Sys ω) : List Globals :=
  starts p sel ((prepare p s).say .banner, ⟨none, 0, 0, 0⟩) (prepare p s).g.env.reg.tests

/-- The messages up to the first end of a case. -/
def throughEnd : List Msg → List Msg
  | [] => []
  | .caseEnd id status :: _ => [.caseEnd id status]
  | m :: ms => m :: throughEnd ms

/-- The cases of a trace, each with the messages from its start to its end. -/
def windows : List Step → List (Case × List Msg)
  | [] => []
  | .take t :: steps => (t, throughEnd (messages steps)) :: windows steps
  | _ :: steps => windows steps

/-- What a case of `pot_run_all` emits is what a fresh process emits for it under
`pot_run_case`. -/
def RunsAsAlone (p : Program ω) (reg : Registry) (world : ω) : Prop :=
  ∀ t ms, (t, ms) ∈ windows (potRunAll p (fresh reg world)).1.trace →
    ∀ ms', (t, ms') ∈
      windows (potRunCase p t.suite t.group t.name (fresh reg world)).1.trace ↔ ms' = ms

/-- The cases of a registry do not influence each other. -/
structure Independent (p : Program ω) (reg : Registry) (world : ω) : Prop where
  alone : RunsAsAlone p reg world
  initial : ∀ g ∈ runStarts p matchAll (fresh reg world), Initial g

/-! ## The globals in front of the cases -/

/-- In front of a case, the globals are as in a fresh process when the calls
before it are tidy. -/
theorem Left.initial_iff {s : Sys ω} {cs : List Call} (h : Left s.g cs) (t : Case) :
    Initial (s.begin t).g ↔ Tidy cs := by
  constructor
  · intro hinit
    exact ⟨h.row.symm.trans hinit.paramActive, h.mark.symm.trans hinit.protectActive⟩
  · intro htidy
    have hrow := (h.reset htidy).row
    exact ⟨rfl, rfl, hrow, (h.index hrow).1, (h.index hrow).2, (h.reset htidy).mark⟩

theorem Left.congr {g g' : Globals} {cs : List Call} (h : Left g cs)
    (hactive : g'.paramActive = g.paramActive) (hindex : g'.paramIndex = g.paramIndex)
    (hparam : g'.param = g.param) (hprotect : g'.protectActive = g.protectActive) : Left g' cs where
  row := hactive.trans h.row
  mark := hprotect.trans h.mark
  index := by
    rw [hactive, hindex, hparam]
    exact h.index

/-- Behind a case, the globals have what its calls leave behind. -/
theorem QuietScripts.left_runCase {p : Program ω} {script : FnId → List Call}
    (h : QuietScripts p script) {env : Env} {x : Sys ω × Open} (henv : x.1.g.env = env)
    (hleft : Left x.1.g []) (t : Case) :
    Left (runCase p t x).1.g (windowCalls script env.reg t) := by
  have hstart : Left ((x.1.begin t).say (.caseStart t.id)).g [] :=
    hleft.congr rfl rfl rfl rfl
  have hmade := h.runBody_made t ((x.1.begin t).say (.caseStart t.id))
  have hreg : ((x.1.begin t).say (.caseStart t.id)).g.env = env := henv
  rw [hreg] at hmade
  have hbody := hstart.foldl (windowCalls script env.reg t)
  rw [← hmade.globals] at hbody
  unfold runCase
  dsimp only
  generalize runBody p t _ = s at hbody ⊢
  cases s.status <;> exact hbody.congr rfl rfl rfl rfl

section Loop

variable {p : Program ω} {script : FnId → List Call} {sel : Env → Case → Bool} {env : Env}

theorem loopBody_of_sel {x : Sys ω × Open} (henv : x.1.g.env = env) {t : Case}
    (hsel : sel env t = true) :
    loopBody p sel x t = runCase p t (switchSuite p t x) := by
  unfold loopBody
  rw [henv, if_pos hsel]

theorem loopBody_of_not_sel {x : Sys ω × Open} (henv : x.1.g.env = env) {t : Case}
    (hsel : ¬sel env t = true) : loopBody p sel x t = x := by
  unfold loopBody
  rw [henv, if_neg hsel]

theorem runCase_suite (t : Case) (x : Sys ω × Open) :
    (runCase p t x).2.suite = x.2.suite := by
  unfold runCase
  dsimp only
  cases Sys.status _ <;> rfl

/-- The globals in front of the cases that the loop runs are as in a fresh process
exactly when the calls between their starts are tidy.  By induction on the cases
that are left, with the calls since the last start. -/
theorem QuietScripts.starts_initial_iff (h : QuietScripts p script) (ts : List Case)
    {x : Sys ω × Open} {pending : List Call} (henv : x.1.g.env = env)
    (hleft : Left x.1.g pending) :
    (∀ g ∈ starts p sel x ts, Initial g) ↔
      ∀ cs ∈ stretches script env.reg x.2.suite pending (ts.filter (sel env)), Tidy cs := by
  induction ts generalizing x pending with
  | nil => simp [starts, stretches]
  | cons t ts ih =>
      have hkeep : (loopBody p sel x t).1.g.env = env :=
        loopBody_inv (quiet_invariant h.callsOnly env) sel henv t
      unfold starts
      dsimp only
      rw [henv]
      by_cases hsel : sel env t = true
      · obtain ⟨hswitch, henvSwitch, hsuite⟩ := h.switchSuite_reached t henv
        have hfront := hleft.foldl (switchCalls script env.reg x.2.suite t.suite)
        rw [← hswitch.globals] at hfront
        have hinit := hfront.initial_iff t
        rw [if_pos hsel, List.filter_cons_of_pos hsel, stretches, List.forall_mem_cons,
          List.forall_mem_cons, hinit]
        refine and_congr_right fun htidy => ?_
        have hbehind := h.left_runCase henvSwitch (hfront.reset htidy) t
        have hrest := @ih (loopBody p sel x t) (windowCalls script env.reg t) hkeep
        rw [loopBody_of_sel henv hsel] at hrest ⊢
        rw [runCase_suite, hsuite] at hrest
        exact hrest hbehind
      · rw [if_neg hsel, List.filter_cons_of_neg hsel]
        rw [loopBody_of_not_sel henv hsel]
        exact ih henv hleft

end Loop

/-! ## The messages of the cases -/

theorem windows_silent {steps : List Step} (h : executed steps = []) (rest : List Step) :
    windows (steps ++ rest) = windows rest := by
  induction steps with
  | nil => rfl
  | cons step steps ih =>
      cases step with
      | take t => cases h
      | _ => exact ih h

theorem throughEnd_append {ms : List Msg} {cur : CaseId} (h : ∀ m ∈ ms, FromCase cur m)
    (id : CaseId) (status : TestStatus) (rest : List Msg) :
    throughEnd (ms ++ .caseEnd id status :: rest) = ms ++ [.caseEnd id status] := by
  induction ms with
  | nil => rfl
  | cons m ms ih =>
      have hm := h m (by simp)
      have hrest := ih fun n hn => h n (by simp [hn])
      cases m <;> first | exact congrArg (_ :: ·) hrest | exact hm.elim

/-- A trace whose cases have all ended, with the messages of each. -/
def Shows (trace : List Step) (ws : List (Case × List Msg)) : Prop :=
  ∀ rest, windows (trace ++ rest) = ws ++ windows rest

theorem Shows.silent {trace steps : List Step} {ws : List (Case × List Msg)}
    (h : Shows trace ws) (hsteps : executed steps = []) : Shows (trace ++ steps) ws := by
  intro rest
  rw [List.append_assoc, h, windows_silent hsteps]

/-- A case at the end of a trace. -/
theorem Shows.case {trace steps : List Step} {ws : List (Case × List Msg)}
    (h : Shows trace ws) (hsteps : executed steps = []) (t : Case) {cur : CaseId}
    (hfrom : ∀ m ∈ messages steps, FromCase cur m) (status : TestStatus) :
    Shows (trace ++ (.take t :: .msg (.caseStart t.id) ::
        (steps ++ [.msg (.caseEnd t.id status)])))
      (ws ++ [(t, .caseStart t.id :: (messages steps ++ [.caseEnd t.id status]))]) := by
  intro rest
  have hsplit : messages (.msg (.caseStart t.id) ::
      (steps ++ .msg (.caseEnd t.id status) :: rest)) =
        .caseStart t.id :: (messages steps ++ .caseEnd t.id status :: messages rest) :=
    congrArg (_ :: ·) (messages_append _ _)
  have hwindow : windows (.take t :: .msg (.caseStart t.id) ::
      (steps ++ .msg (.caseEnd t.id status) :: rest)) =
        (t, .caseStart t.id :: (messages steps ++ [.caseEnd t.id status])) ::
          windows rest := by
    show (t, throughEnd (messages _)) :: windows (steps ++ _) = _
    rw [windows_silent hsteps, hsplit, throughEnd,
      throughEnd_append hfrom t.id status (messages rest)]
    · rfl
    · intro id status h
      cases h
  rw [List.append_assoc, h]
  simpa using hwindow

/-- The messages of a case in a fresh process. -/
def freshWindow (script : FnId → List Call) (reg : Registry) (t : Case) : List Msg :=
  .caseStart t.id ::
    (messages (callSteps { Globals.init with cur := t.id } (windowCalls script reg t)) ++
      [.caseEnd t.id (scriptStatus (windowCalls script reg t))])

section Loop

variable {p : Program ω} {script : FnId → List Call} {sel : Env → Case → Bool} {env : Env}

/-- A case that starts as in a fresh process reports as in a fresh process. -/
theorem QuietScripts.shows_runCase (h : QuietScripts p script) {x : Sys ω × Open}
    (henv : x.1.g.env = env) (hleft : Left x.1.g []) {ws : List (Case × List Msg)}
    (hshows : Shows x.1.trace ws) (t : Case) :
    Shows (runCase p t x).1.trace (ws ++ [(t, freshWindow script env.reg t)]) := by
  have hmade := h.runBody_made t ((x.1.begin t).say (.caseStart t.id))
  have hreg : ((x.1.begin t).say (.caseStart t.id)).g.env = env := henv
  rw [hreg] at hmade
  obtain ⟨steps, htrace, hexecuted, hmessages⟩ := hmade.trace
  have hfrom : ∀ m ∈ messages steps, FromCase t.id m := by
    intro m hm
    rw [hmessages] at hm
    exact fromCase_callSteps hm
  have hfresh : messages steps =
      messages (callSteps { Globals.init with cur := t.id } (windowCalls script env.reg t)) := by
    rw [hmessages]
    apply messages_callSteps_congr
    · rfl
    · exact hleft.row
    · exact (hleft.index hleft.row).1
  have hstatus : (runBody p t ((x.1.begin t).say (.caseStart t.id))).status =
      scriptStatus (windowCalls script env.reg t) := by
    unfold Sys.status scriptStatus
    rw [hmade.globals, foldl_currentFailed, foldl_currentSkipped]
    rfl
  have hcase := hshows.case hexecuted t hfrom (scriptStatus (windowCalls script env.reg t))
  rw [hfresh] at hcase
  unfold runCase
  dsimp only
  generalize runBody p t _ = s at htrace hstatus ⊢
  rw [hstatus]
  have htraceCase : ((s.count (scriptStatus (windowCalls script env.reg t))).say
      (.caseEnd t.id (scriptStatus (windowCalls script env.reg t)))).trace =
        x.1.trace ++ (.take t :: .msg (.caseStart t.id) :: (steps ++
          [.msg (.caseEnd t.id (scriptStatus (windowCalls script env.reg t)))])) := by
    simp [Sys.say, count_trace, htrace, Sys.begin]
  rw [htraceCase]
  exact hcase

/-- When the calls between the starts are tidy, each case reports as in a fresh
process.  By induction on the cases that are left. -/
theorem QuietScripts.loop_windows (h : QuietScripts p script) (ts : List Case)
    {x : Sys ω × Open} {pending : List Call} (henv : x.1.g.env = env)
    (hleft : Left x.1.g pending)
    (htidy : ∀ cs ∈ stretches script env.reg x.2.suite pending (ts.filter (sel env)),
      Tidy cs)
    {ws : List (Case × List Msg)} (hshows : Shows x.1.trace ws) :
    Shows (ts.foldl (loopBody p sel) x).1.trace
      (ws ++ (ts.filter (sel env)).map fun t => (t, freshWindow script env.reg t)) := by
  induction ts generalizing x pending ws with
  | nil => simpa using hshows
  | cons t ts ih =>
      rw [List.foldl_cons]
      by_cases hsel : sel env t = true
      · obtain ⟨hswitch, henvSwitch, hsuite⟩ := h.switchSuite_reached t henv
        obtain ⟨steps, htrace, hexecuted⟩ := hswitch.trace
        have hfront := hleft.foldl (switchCalls script env.reg x.2.suite t.suite)
        rw [← hswitch.globals] at hfront
        rw [List.filter_cons_of_pos hsel, stretches, List.forall_mem_cons] at htidy
        have hreset := hfront.reset htidy.1
        have hkeep : (loopBody p sel x t).1.g.env = env :=
          loopBody_inv (quiet_invariant h.callsOnly env) sel henv t
        have hcase := h.shows_runCase henvSwitch hreset
          (htrace ▸ hshows.silent hexecuted) t
        have hsuiteCase := (runCase_suite (p := p) t (switchSuite p t x)).trans hsuite
        rw [loopBody_of_sel henv hsel] at hkeep ⊢
        rw [List.filter_cons_of_pos hsel, List.map_cons, List.append_cons]
        exact ih hkeep (h.left_runCase henvSwitch hreset t) (hsuiteCase ▸ htidy.2) hcase
      · rw [List.filter_cons_of_neg hsel] at htidy ⊢
        rw [loopBody_of_not_sel henv hsel]
        exact ih henv hleft htidy hshows

end Loop

/-! ## One case of a tidy run -/

section Alone

variable {script : FnId → List Call} {reg : Registry} {ts : List Case}

/-- In a tidy run over a suite, the setup of the suite alone is tidy. -/
theorem tidy_setup {o : Option CStr} {pending : List Call}
    (h : ∀ cs ∈ stretches script reg o pending ts, Tidy cs) {t : Case} (ht : t ∈ ts)
    (ho : strCmp o t.suite ≠ .eq) :
    Tidy (hookCalls script ((findSuite reg t.suite).bind Suite.setup)) := by
  induction ts generalizing o pending with
  | nil => cases ht
  | cons u ts ih =>
      rw [stretches, List.forall_mem_cons] at h
      by_cases hu : u.suite = t.suite
      · have hfirst := h.1.suffix
        unfold switchCalls at hfirst
        rw [hu, if_pos ho] at hfirst
        exact hfirst.suffix
      · have hne : t ≠ u := fun heq => hu (by rw [heq])
        refine ih h.2 ((List.mem_cons.mp ht).resolve_left hne) ?_
        intro heq
        exact hu (strCmp_eq_iff.mp heq)

/-- In a tidy run, a case with a later case of the same names is tidy.  The list
is sorted, so the next case has the names as well, and no fixture of a suite runs
between the two. -/
theorem tidy_windows (hsorted : SortedCases ts) {o : Option CStr} {pending : List Call}
    (h : ∀ cs ∈ stretches script reg o pending ts, Tidy cs) :
    ts.Pairwise fun t u => t.id = u.id → Tidy (windowCalls script reg t) := by
  induction ts generalizing o pending with
  | nil => exact List.Pairwise.nil
  | cons t ts ih =>
      obtain ⟨hle, hrest⟩ := List.pairwise_cons.mp hsorted
      rw [stretches, List.forall_mem_cons] at h
      refine List.pairwise_cons.mpr ⟨?_, ih hrest h.2⟩
      intro u hu hid
      have hsuite : t.suite = u.suite := congrArg CaseId.suite hid
      cases ts with
      | nil => cases hu
      | cons v ts =>
        have htv := strCmp_suite_of_caseCmp (hle v (by simp))
        have hvu : (strCmp v.suite u.suite).isLE := by
          rcases List.mem_cons.mp hu with rfl | hu
          · rw [strCmp_eq_iff.mpr rfl]
            rfl
          · exact strCmp_suite_of_caseCmp ((List.pairwise_cons.mp hrest).1 u hu)
        rw [← hsuite] at hvu
        have hnext := (List.forall_mem_cons.mp h.2).1
        unfold switchCalls at hnext
        rw [if_neg (not_not.mpr (Std.OrientedCmp.isLE_antisymm htv hvu)),
          List.append_nil] at hnext
        exact hnext

/-- Tidy cases of one suite. -/
theorem tidy_suite {o : Option CStr} {pending : List Call} (hsuite : ∀ t ∈ ts, t.suite = o)
    (hpending : Tidy pending)
    (h : ts.Pairwise fun t _ => Tidy (windowCalls script reg t)) :
    ∀ cs ∈ stretches script reg o pending ts, Tidy cs := by
  induction ts generalizing pending with
  | nil => simp [stretches]
  | cons t ts ih =>
      have ht := hsuite t (by simp)
      have hswitch : switchCalls script reg o t.suite = [] := by
        unfold switchCalls
        rw [if_neg (not_not.mpr (strCmp_eq_iff.mpr ht.symm))]
      rw [stretches, hswitch, List.append_nil, List.forall_mem_cons, ht]
      refine ⟨hpending, ?_⟩
      cases ts with
      | nil => simp [stretches]
      | cons u ts =>
        obtain ⟨hhead, hrest⟩ := List.pairwise_cons.mp h
        exact ih (fun v hv => hsuite v (by simp [hv])) (hhead u (by simp)) hrest

/-- The cases of some names run alone as tidily as among the others. -/
theorem tidy_alone (hsorted : SortedCases ts)
    (h : ∀ cs ∈ stretches script reg none [] ts, Tidy cs) (id : CaseId) :
    ∀ cs ∈ stretches script reg none [] (ts.filter fun t => t.id = id), Tidy cs := by
  have hpairs : (ts.filter fun t => t.id = id).Pairwise
      fun t _ => Tidy (windowCalls script reg t) := by
    refine ((tidy_windows hsorted h).sublist List.filter_sublist).imp_of_mem ?_
    intro t u ht hu htidy
    have htid := of_decide_eq_true (List.mem_filter.mp ht).2
    have huid := of_decide_eq_true (List.mem_filter.mp hu).2
    exact htidy (htid.trans huid.symm)
  have hmem : ∀ t ∈ ts.filter fun t => t.id = id, t ∈ ts ∧ t.id = id := fun t ht =>
    ⟨(List.mem_filter.mp ht).1, of_decide_eq_true (List.mem_filter.mp ht).2⟩
  generalize ts.filter (fun t => decide (t.id = id)) = fs at hpairs hmem
  cases fs with
  | nil => simp [stretches]
  | cons t fs =>
    have hsame : ∀ u ∈ t :: fs, u.suite = t.suite := fun u hu =>
      congrArg CaseId.suite ((hmem u hu).2.trans (hmem t (by simp)).2.symm)
    have hfirst : Tidy (switchCalls script reg none t.suite) := by
      unfold switchCalls
      by_cases hsuite : strCmp none t.suite ≠ .eq
      · rw [if_pos hsuite]
        exact tidy_setup h (hmem t (by simp)).1 hsuite
      · rw [if_neg hsuite]
        exact ⟨rfl, rfl⟩
    have hall := tidy_suite hsame hfirst hpairs
    have hswitch : switchCalls script reg t.suite t.suite = [] := by
      unfold switchCalls
      rw [if_neg (not_not.mpr (strCmp_eq_iff.mpr rfl))]
    rw [stretches, hswitch, List.append_nil] at hall
    exact hall

/-- Section cases bring no calls of fixtures. -/
theorem stretches_congr {reg reg' : Registry} (hsuites : reg.suites = reg'.suites)
    (hgroups : reg.groups = reg'.groups) (ts : List Case) (o : Option CStr)
    (pending : List Call) :
    stretches script reg o pending ts = stretches script reg' o pending ts := by
  induction ts generalizing o pending with
  | nil => rfl
  | cons t ts ih =>
      unfold stretches
      rw [ih]
      unfold switchCalls windowCalls findSuite findGroup
      rw [hsuites, hgroups]

end Alone

/-! ## Runs -/

/-- The cases of a process in the order of a run. -/
def sortedCases (p : Program ω) (reg : Registry) : List Case :=
  sortCases (collectSectionCases p reg).tests

/-- The windows of a run whose calls are tidy. -/
theorem QuietScripts.run_windows {p : Program ω} {script : FnId → List Call}
    (h : QuietScripts p script) (sel : Env → Case → Bool) {s : Sys ω}
    (hleft : Left s.g []) (htrace : s.trace = [])
    (htidy : ∀ cs ∈ stretches script (prepare p s).g.env.reg none []
      ((prepare p s).g.env.reg.tests.filter (sel (prepare p s).g.env)), Tidy cs) :
    windows (runFiltered p sel s).1.trace =
      ((prepare p s).g.env.reg.tests.filter (sel (prepare p s).g.env)).map
        fun t => (t, freshWindow script (prepare p s).g.env.reg t) := by
  have hstart : Shows ((prepare p s).say .banner).trace [] := by
    intro rest
    have hbanner : ((prepare p s).say .banner).trace = [.msg .banner] := by
      unfold Sys.say prepare
      rw [htrace]
      rfl
    rw [hbanner]
    rfl
  have hloop := @QuietScripts.loop_windows ω p script sel (prepare p s).g.env h
    (prepare p s).g.env.reg.tests ((prepare p s).say .banner, ⟨none, 0, 0, 0⟩) [] rfl
    (hleft.congr rfl rfl rfl rfl) htidy [] hstart
  unfold runFiltered
  dsimp only
  have htests : ((prepare p s).say .banner).g.env.reg.tests =
      (prepare p s).g.env.reg.tests := rfl
  rw [htests]
  generalize List.foldl _ _ _ = x at hloop ⊢
  obtain ⟨steps, hclose, hexecuted⟩ := ((h.closeSuite_reached x.2 x.1).say
    (.done (closeSuite p x.2 x.1).g.passed (closeSuite p x.2 x.1).g.failed
      (closeSuite p x.2 x.1).g.skipped)).trace
  rw [hclose]
  have hend := (hloop.silent hexecuted) []
  rw [List.append_nil] at hend
  exact hend.trans (List.append_nil _)

section Fresh

variable {p : Program ω} {script : FnId → List Call} {reg : Registry}

theorem left_fresh (reg : Registry) (world : ω) : Left (fresh reg world).g [] :=
  ⟨rfl, rfl, fun _ => ⟨rfl, rfl⟩⟩

/-- The calls of a run, with the registry as it was before the section cases. -/
theorem stretches_prepare (world : ω) :
    stretches script (prepare p (fresh reg world)).g.env.reg none [] (sortedCases p reg) =
      stretches script reg none [] (sortedCases p reg) :=
  @stretches_congr script (prepare p (fresh reg world)).g.env.reg reg
    (collect_suites p reg) (collect_groups p reg) _ _ _

/-- What `pot_run_case` selects: the cases with the three names. -/
theorem matchCase_iff {suite group name : CStr} {env : Env}
    (hgroup : env.filterGroup = some group) (hname : env.filterCase = some name) (t : Case) :
    matchCase suite env t = decide (t.id = ⟨some suite, some group, some name⟩) := by
  unfold matchCase Case.id
  rw [hgroup, hname]
  simp [strCmp_eq_iff, Bool.and_assoc]

/-- A tidy run over cases that include this one shows its window. -/
theorem QuietScripts.shows_window (h : QuietScripts p script) (world : ω) {t : Case}
    (ht : t ∈ sortedCases p reg) (ms : List Msg) (sel : Env → Case → Bool) {s : Sys ω}
    (hleft : Left s.g []) (htrace : s.trace = [])
    (hreg : (prepare p s).g.env.reg = (prepare p (fresh reg world)).g.env.reg)
    (htidy : ∀ cs ∈ stretches script (prepare p s).g.env.reg none []
      ((prepare p s).g.env.reg.tests.filter (sel (prepare p s).g.env)), Tidy cs)
    (hsel : sel (prepare p s).g.env t = true) :
    (t, ms) ∈ windows (runFiltered p sel s).1.trace ↔
      ms = freshWindow script (prepare p (fresh reg world)).g.env.reg t := by
  rw [h.run_windows sel hleft htrace htidy, List.mem_map, hreg]
  constructor
  · intro hmem
    obtain ⟨u, -, heq⟩ := hmem
    obtain ⟨rfl, rfl⟩ := Prod.mk.inj heq
    rfl
  · intro hms
    exact ⟨t, List.mem_filter.mpr ⟨ht, hsel⟩, by rw [hms]⟩

/-- The windows of a tidy run of `pot_run_case` for a case of the registry. -/
theorem QuietScripts.alone_windows (h : QuietScripts p script) (world : ω)
    (htidy : ∀ cs ∈ stretches script (prepare p (fresh reg world)).g.env.reg none []
      (sortedCases p reg), Tidy cs) {t : Case} (ht : t ∈ sortedCases p reg) (ms : List Msg) :
    (t, ms) ∈ windows (potRunCase p t.suite t.group t.name (fresh reg world)).1.trace ↔
      ms = freshWindow script (prepare p (fresh reg world)).g.env.reg t := by
  have hall : (t, ms) ∈ windows (potRunAll p (fresh reg world)).1.trace ↔
      ms = freshWindow script (prepare p (fresh reg world)).g.env.reg t := by
    refine h.shows_window world ht ms matchAll (left_fresh reg world) rfl rfl ?_ rfl
    have hfilter : (prepare p (fresh reg world)).g.env.reg.tests.filter
        (matchAll (prepare p (fresh reg world)).g.env) = sortedCases p reg :=
      List.filter_true _
    rw [hfilter]
    exact htidy
  unfold potRunCase
  cases hsuite : nonEmpty t.suite with
  | none => exact hall
  | some suite =>
    cases hgroup : nonEmpty t.group with
    | none => exact hall
    | some group =>
      cases hname : nonEmpty t.name with
      | none => exact hall
      | some name =>
        have hid : t.id = ⟨some suite, some group, some name⟩ := by
          unfold Case.id
          rw [nonEmpty_eq hsuite, nonEmpty_eq hgroup, nonEmpty_eq hname]
        have hsel : matchCase suite
            (prepare p ((fresh reg world).setFilter (some group) (some name))).g.env =
              fun u => decide (u.id = ⟨some suite, some group, some name⟩) :=
          funext fun u => matchCase_iff rfl rfl u
        refine h.shows_window world ht ms (matchCase suite)
          ((left_fresh reg world).congr rfl rfl rfl rfl) rfl rfl ?_ ?_
        · rw [hsel]
          exact tidy_alone (sortCases_sorted _) htidy _
        · rw [hsel]
          exact decide_eq_true hid

/-- The cases of a registry do not influence each other exactly when the calls
between two starts, and those in front of the first, leave no row and no mark. -/
theorem independent_iff (h : QuietScripts p script) (reg : Registry) (world : ω) :
    Independent p reg world ↔
      ∀ cs ∈ stretches script reg none [] (sortedCases p reg), Tidy cs := by
  have hfilter : (prepare p (fresh reg world)).g.env.reg.tests.filter
      (matchAll (prepare p (fresh reg world)).g.env) = sortedCases p reg :=
    List.filter_true _
  have hstarts := @QuietScripts.starts_initial_iff ω p script matchAll
    (prepare p (fresh reg world)).g.env h (prepare p (fresh reg world)).g.env.reg.tests
    ((prepare p (fresh reg world)).say .banner, ⟨none, 0, 0, 0⟩) [] rfl
    ((left_fresh reg world).congr rfl rfl rfl rfl)
  rw [hfilter, stretches_prepare] at hstarts
  constructor
  · intro hindependent
    exact hstarts.mp hindependent.initial
  · intro htidy
    refine ⟨?_, hstarts.mpr htidy⟩
    rw [← stretches_prepare world] at htidy
    intro t ms hmem
    have hwindows := h.run_windows matchAll (left_fresh reg world) rfl
      (by rw [hfilter]; exact htidy)
    have hrun : windows (potRunAll p (fresh reg world)).1.trace = _ := hwindows
    rw [hrun, hfilter, List.mem_map] at hmem
    obtain ⟨u, hu, heq⟩ := hmem
    obtain ⟨rfl, rfl⟩ := Prod.mk.inj heq
    exact h.alone_windows world htidy hu

end Fresh

/-! ## Two cases -/

/-- The case `Math.ops.sub`, with the function 2 as its body. -/
def subCase : Case :=
  ⟨2, some (CStr.lit "Math"), some (CStr.lit "ops"), some (CStr.lit "sub"), some 2, none⟩

/-- The cases `Math.ops.add` and `Math.ops.sub`. -/
def mathOps : Registry := ⟨[subCase, mathCase], [], []⟩

/-- A program whose function 1 makes the given calls and whose function 2 makes a
failing assertion. -/
def beforeFail (cs : List Call) : FnId → List Call
  | 1 => cs
  | 2 => [.failAt none 7 (some (CStr.lit "odd"))]
  | _ => []

/-- The program of a script. -/
def scriptProgram (script : FnId → List Call) : Program Unit :=
  ⟨fun f w => (script f, w), []⟩

theorem quietScripts_beforeFail {cs : List Call} (h : ∀ c ∈ cs, quiet c = true) :
    QuietScripts (scriptProgram (beforeFail cs)) (beforeFail cs) where
  code := fun _ _ => rfl
  quiet := by
    intro f c hc
    unfold beforeFail at hc
    split at hc
    · exact h c hc
    · rw [List.mem_singleton.mp hc]
      rfl
    · cases hc

/-- Rows that `POT_FOR_EACH` runs to the end. -/
theorem independent_iff_rows :
    Independent (scriptProgram (beforeFail [.setParam 0 (some 64), .clearParam])) mathOps () :=
  (independent_iff (quietScripts_beforeFail (by decide)) mathOps ()).mpr (by decide)

/-- A return out of the first row: the next case starts with the row, and its
message names it. -/
theorem earlyReturn_row :
    QuietScripts (scriptProgram (beforeFail [.setParam 0 (some 64)]))
        (beforeFail [.setParam 0 (some 64)]) ∧
      ¬RunsAsAlone (scriptProgram (beforeFail [.setParam 0 (some 64)])) mathOps () ∧
      ¬∀ g ∈ runStarts (scriptProgram (beforeFail [.setParam 0 (some 64)])) matchAll
        (fresh mathOps ()), Initial g := by
  refine ⟨quietScripts_beforeFail (by decide), ?_, ?_⟩
  · intro halone
    have hsame := halone subCase [.caseStart subCase.id,
      .assertFail subCase.id none 7 (CStr.lit "odd [param=0]"),
      .caseEnd subCase.id .failed] (by decide +kernel)
      [.caseStart subCase.id, .assertFail subCase.id none 7 (CStr.lit "odd"),
        .caseEnd subCase.id .failed]
    exact absurd (hsame.mp (by decide +kernel)) (by decide +kernel)
  · intro hinitial
    have hstart := hinitial { Globals.init with
      env := ⟨⟨[mathCase, subCase], [], []⟩, none, none⟩
      cur := subCase.id
      passed := 1
      paramActive := true
      param := some 64 } (by decide +kernel)
    cases hstart.paramActive

end PolyOnTest.Run
