import PolyOnTest.Harness.Constructors
import PolyOnTest.Run.Integrity

/-!
# The order of the constructors

The linker chooses the order of the constructors, and with it the order of the lists of
the registry.  A run sorts the cases and looks suites and groups up by name, so it does
not see that order, as long as no two descriptors have the same name.

`Registry.Alike` is what a run can see of a registry.  Each step of the runner keeps it
(`Mirrors`), the test code may register more descriptors meanwhile, and `boot_order` says
that two orders of the constructors give the same trace, the same answers and the same
list of cases, for any runs one after the other.  Two binaries may differ in their
sections on the way (`Ready`), which each run collects again (`Collected`).
-/

namespace PolyOnTest.Run

open CodeLib CodeLib.CMemory PolyOnTest.Harness

variable {ω : Type}

/-! ## What a run sees of a registry -/

/-- The same sorted cases, the same lookups, and the same answers to a registration. -/
structure Alike (reg reg' : Registry) : Prop where
  tests : reg.tests = reg'.tests
  suite : ∀ name, findSuite reg name = findSuite reg' name
  group : ∀ suite name, findGroup reg suite name = findGroup reg' suite name
  linkedSuite : ∀ s, alreadyLinkedSuite reg s = alreadyLinkedSuite reg' s
  linkedGroup : ∀ g, alreadyLinkedGroup reg g = alreadyLinkedGroup reg' g

theorem Alike.register {reg reg' : Registry} (h : Alike reg reg') (t : Option Case) :
    Alike (reg.register t) (reg'.register t) := by
  cases t with
  | none => exact h
  | some t =>
    have hlinked : alreadyLinkedCase reg t = alreadyLinkedCase reg' t := by
      unfold alreadyLinkedCase
      rw [h.tests]
    unfold Registry.register
    dsimp only
    rw [hlinked]
    split_ifs
    · exact h
    · exact ⟨congrArg (t :: ·) h.tests, h.suite, h.group, h.linkedSuite, h.linkedGroup⟩

theorem Alike.registerSuite {reg reg' : Registry} (h : Alike reg reg') (s : Option Suite) :
    Alike (reg.registerSuite s) (reg'.registerSuite s) := by
  cases s with
  | none => exact h
  | some s =>
    unfold Registry.registerSuite
    dsimp only
    rw [h.linkedSuite s]
    split_ifs
    · exact h
    · refine ⟨h.tests, fun name => ?_, h.group, fun s' => ?_, h.linkedGroup⟩
      · have hrest := h.suite name
        unfold findSuite at hrest ⊢
        rw [List.find?_cons, List.find?_cons, hrest]
      · have hrest := h.linkedSuite s'
        unfold alreadyLinkedSuite at hrest ⊢
        rw [List.any_cons, List.any_cons, hrest]

theorem Alike.registerGroup {reg reg' : Registry} (h : Alike reg reg') (g : Option Group) :
    Alike (reg.registerGroup g) (reg'.registerGroup g) := by
  cases g with
  | none => exact h
  | some g =>
    unfold Registry.registerGroup
    dsimp only
    rw [h.linkedGroup g]
    split_ifs
    · exact h
    · refine ⟨h.tests, h.suite, fun suite name => ?_, h.linkedSuite, fun g' => ?_⟩
      · have hrest := h.group suite name
        unfold findGroup at hrest ⊢
        rw [List.find?_cons, List.find?_cons, hrest]
      · have hrest := h.linkedGroup g'
        unfold alreadyLinkedGroup at hrest ⊢
        rw [List.any_cons, List.any_cons, hrest]

/-! ## The runner on both sides -/

/-- The system with another registry. -/
def withReg (s : Sys ω) (reg : Registry) : Sys ω :=
  { s with g := { s.g with env := { s.g.env with reg := reg } } }

/-- The second system is the first one with a registry that looks alike. -/
def Mirrors (s s' : Sys ω) : Prop :=
  ∃ reg, Alike s.g.env.reg reg ∧ s' = withReg s reg

variable {s s' : Sys ω} {p p' : Program ω}

theorem Mirrors.say (h : Mirrors s s') (m : Msg) : Mirrors (s.say m) (s'.say m) := by
  obtain ⟨reg, hreg, rfl⟩ := h
  exact ⟨reg, hreg, rfl⟩

theorem Mirrors.call (h : Mirrors s s') (c : Call) : Mirrors (s.call c) (s'.call c) := by
  obtain ⟨reg, hreg, rfl⟩ := h
  cases c with
  | register t => exact ⟨_, hreg.register t, rfl⟩
  | registerSuite u => exact ⟨_, hreg.registerSuite u, rfl⟩
  | registerGroup g => exact ⟨_, hreg.registerGroup g, rfl⟩
  | failAt file line message => exact ⟨reg, hreg, rfl⟩
  | ignore message => exact ⟨reg, hreg, rfl⟩
  | protect => exact ⟨reg, hreg, rfl⟩
  | abort => exact ⟨reg, hreg, rfl⟩
  | setParam index param => exact ⟨reg, hreg, rfl⟩
  | clearParam => exact ⟨reg, hreg, rfl⟩

theorem Mirrors.calls (h : Mirrors s s') (cs : List Call) :
    Mirrors (cs.foldl Sys.call s) (cs.foldl Sys.call s') := by
  induction cs generalizing s s' with
  | nil => exact h
  | cons c cs ih => exact ih (h.call c)

theorem Mirrors.enter (h : Mirrors s s') (hook : Hook) (f : Option FnId) :
    Mirrors (s.enter p hook f) (s'.enter p hook f) := by
  cases f with
  | none => exact h
  | some f =>
    obtain ⟨reg, hreg, rfl⟩ := h
    apply Mirrors.calls
    exact ⟨reg, hreg, rfl⟩

theorem Mirrors.begin (h : Mirrors s s') (t : Case) : Mirrors (s.begin t) (s'.begin t) := by
  obtain ⟨reg, hreg, rfl⟩ := h
  exact ⟨reg, hreg, rfl⟩

theorem Mirrors.status (h : Mirrors s s') : s.status = s'.status := by
  obtain ⟨reg, -, rfl⟩ := h
  rfl

theorem Mirrors.count (h : Mirrors s s') (status : TestStatus) :
    Mirrors (s.count status) (s'.count status) := by
  obtain ⟨reg, hreg, rfl⟩ := h
  cases status <;> exact ⟨reg, hreg, rfl⟩

theorem Mirrors.suite (h : Mirrors s s') (name : Option CStr) :
    findSuite s.g.env.reg name = findSuite s'.g.env.reg name := by
  obtain ⟨reg, hreg, rfl⟩ := h
  exact hreg.suite name

theorem Mirrors.group (h : Mirrors s s') (suite name : Option CStr) :
    findGroup s.g.env.reg suite name = findGroup s'.g.env.reg suite name := by
  obtain ⟨reg, hreg, rfl⟩ := h
  exact hreg.group suite name

theorem Mirrors.closeSuite (h : Mirrors s s') (o : Open) :
    Mirrors (closeSuite p o s) (closeSuite p o s') := by
  unfold Harness.closeSuite
  cases o.suite with
  | none => exact h
  | some name =>
    dsimp only
    rw [h.suite]
    exact (h.enter .suiteTeardown _).say _

theorem Mirrors.openSuiteEmit (h : Mirrors s s') (name : Option CStr) :
    Mirrors (openSuiteEmit p name s) (openSuiteEmit p name s') := by
  unfold Harness.openSuiteEmit
  rw [h.suite]
  exact (h.enter .suiteSetup _).say _

theorem Mirrors.runBody (h : Mirrors s s') (t : Case) :
    Mirrors (runBody p t s) (runBody p t s') := by
  unfold Harness.runBody
  dsimp only
  rw [h.group]
  exact ((h.enter .groupSetup _).enter .body _).enter .groupTeardown _

/-- The matches of the entry points read the filters, and the registry by name. -/
def ByName (sel : Env → Case → Bool) : Prop :=
  ∀ env reg t, Alike env.reg reg → sel env t = sel { env with reg := reg } t

theorem byName_matchTag (tag : CStr) : ByName (matchTag tag) := by
  intro env reg t h
  unfold matchTag caseMatchesTag
  dsimp only
  rw [h.suite, h.group]

variable {sel : Env → Case → Bool} {o : Open}

theorem Mirrors.loopBody (h : Mirrors s s') (hsel : ByName sel) (t : Case) :
    Mirrors (loopBody p sel (s, o) t).1 (loopBody p sel (s', o) t).1 ∧
      (loopBody p sel (s, o) t).2 = (loopBody p sel (s', o) t).2 := by
  have hsame : sel s.g.env t = sel s'.g.env t := by
    obtain ⟨reg, hreg, rfl⟩ := h
    exact hsel s.g.env reg t hreg
  have hcase : ∀ {s s' : Sys ω} {o : Open}, Mirrors s s' →
      Mirrors (runCase p t (s, o)).1 (runCase p t (s', o)).1 ∧
        (runCase p t (s, o)).2 = (runCase p t (s', o)).2 := by
    intro s s' o h
    have hbody := ((h.begin t).say (.caseStart t.id)).runBody (p := p) t
    unfold runCase
    dsimp only
    rw [hbody.status]
    exact ⟨(hbody.count _).say _, rfl⟩
  unfold Harness.loopBody
  dsimp only
  rw [← hsame]
  split_ifs
  · unfold switchSuite
    dsimp only
    split_ifs
    · exact hcase ((h.closeSuite o).openSuiteEmit t.suite)
    · exact hcase h
  · exact ⟨h, rfl⟩

theorem Mirrors.loop (h : Mirrors s s') (hsel : ByName sel) (ts : List Case) :
    Mirrors (ts.foldl (Harness.loopBody p sel) (s, o)).1
        (ts.foldl (Harness.loopBody p sel) (s', o)).1 ∧
      (ts.foldl (Harness.loopBody p sel) (s, o)).2 =
        (ts.foldl (Harness.loopBody p sel) (s', o)).2 := by
  induction ts generalizing s s' o with
  | nil => exact ⟨h, rfl⟩
  | cons t ts ih =>
      rw [List.foldl_cons, List.foldl_cons]
      obtain ⟨hstep, hopen⟩ := h.loopBody (p := p) (o := o) hsel t
      generalize Harness.loopBody p sel (s, o) t = x at hstep hopen ⊢
      generalize Harness.loopBody p sel (s', o) t = x' at hstep hopen ⊢
      obtain ⟨t, o⟩ := x
      obtain ⟨t', o'⟩ := x'
      cases hopen
      exact ih hstep

/-- Two runs that are prepared alike. -/
theorem runFiltered_mirrors (hcode : p.code = p'.code)
    (h : Mirrors (prepare p s) (prepare p' s')) (hsel : ByName sel) :
    Mirrors (runFiltered p sel s).1 (runFiltered p' sel s').1 ∧
      (runFiltered p sel s).2 = (runFiltered p' sel s').2 := by
  -- behind `prepare`, a run does not look at the section
  have hround : Harness.loopBody p' sel = Harness.loopBody p sel := by
    obtain ⟨code, info⟩ := p
    cases hcode
    rfl
  have hlast : Harness.closeSuite p' = Harness.closeSuite p := by
    obtain ⟨code, info⟩ := p
    cases hcode
    rfl
  have hbanner := h.say .banner
  have htests : ((prepare p' s').say .banner).g.env.reg.tests =
      ((prepare p s).say .banner).g.env.reg.tests := by
    obtain ⟨reg, hreg, heq⟩ := hbanner
    rw [heq]
    exact hreg.tests.symm
  obtain ⟨hloop, hopen⟩ := hbanner.loop (p := p) (o := ⟨none, 0, 0, 0⟩) hsel
    ((prepare p s).say .banner).g.env.reg.tests
  unfold runFiltered
  dsimp only
  rw [htests, hround, hlast]
  generalize List.foldl _ ((prepare p s).say .banner, _) _ = x at hloop hopen ⊢
  generalize List.foldl _ ((prepare p' s').say .banner, _) _ = x' at hloop hopen ⊢
  rw [← hopen]
  have hclose := hloop.closeSuite (p := p) x.2
  generalize Harness.closeSuite p x.2 x.1 = y at hclose ⊢
  generalize Harness.closeSuite p x.2 x'.1 = y' at hclose ⊢
  obtain ⟨reg, hreg, rfl⟩ := hclose
  exact ⟨⟨reg, hreg, rfl⟩, rfl⟩

/-! ## Runs one after the other -/

/-- The cases of the section are linked. -/
def Collected (p : Program ω) (reg : Registry) : Prop :=
  ∀ t ∈ p.potInfo, alreadyLinkedCase reg t = true

theorem linked_register {reg : Registry} {t : Case} (h : alreadyLinkedCase reg t = true)
    (u : Option Case) : alreadyLinkedCase (reg.register u) t = true := by
  obtain ⟨x, hx, haddr⟩ := List.any_eq_true.mp h
  exact List.any_eq_true.mpr ⟨x, (register_suffix reg u).subset hx, haddr⟩

theorem register_linked (reg : Registry) (t : Case) :
    alreadyLinkedCase (reg.register (some t)) t = true := by
  unfold Registry.register
  dsimp only
  split_ifs with h
  · exact h
  · simp [alreadyLinkedCase]

/-- A walk over cases that are linked changes nothing. -/
theorem Collected.collect {reg : Registry} (h : Collected p reg) :
    collectSectionCases p reg = reg := by
  have hwalk : ∀ ts : List Case, (∀ t ∈ ts, alreadyLinkedCase reg t = true) →
      ts.foldl (fun reg t => reg.register (some t)) reg = reg := by
    intro ts
    induction ts with
    | nil => exact fun _ => rfl
    | cons t ts ih =>
        intro hts
        rw [List.forall_mem_cons] at hts
        have hsame : reg.register (some t) = reg := if_pos hts.1
        rw [List.foldl_cons, hsame, ih hts.2]
  exact hwalk p.potInfo h

/-- Behind a walk the cases of the section are linked. -/
theorem collect_collected (p : Program ω) (reg : Registry) :
    Collected p (collectSectionCases p reg) := by
  have hkeep : ∀ (ts : List Case) (reg : Registry) (t : Case), alreadyLinkedCase reg t = true →
      alreadyLinkedCase (ts.foldl (fun reg t => reg.register (some t)) reg) t = true := by
    intro ts
    induction ts with
    | nil => exact fun _ _ h => h
    | cons u ts ih => exact fun reg t h => ih _ t (linked_register h (some u))
  have hwalk : ∀ (ts : List Case) (reg : Registry), ∀ t ∈ ts,
      alreadyLinkedCase (ts.foldl (fun reg t => reg.register (some t)) reg) t = true := by
    intro ts
    induction ts with
    | nil => exact fun _ _ h => absurd h List.not_mem_nil
    | cons u ts ih =>
        intro reg t ht
        rcases List.mem_cons.mp ht with rfl | ht
        · exact hkeep ts _ t (register_linked reg t)
        · exact ih _ t ht
  exact hwalk p.potInfo reg

theorem collected_invariant (p : Program ω) : Invariant p fun g => Collected p g.env.reg where
  call := fun _ _ c _ g hg t ht => by
    cases c with
    | register u => exact linked_register (hg t ht) u
    | registerSuite u =>
        have hsame : (g.env.reg.registerSuite u).tests = g.env.reg.tests := by
          unfold Registry.registerSuite
          split
          · rfl
          · split_ifs <;> rfl
        show (g.env.reg.registerSuite u).tests.any _ = true
        rw [hsame]
        exact hg t ht
    | registerGroup u =>
        have hsame : (g.env.reg.registerGroup u).tests = g.env.reg.tests := by
          unfold Registry.registerGroup
          split
          · rfl
          · split_ifs <;> rfl
        show (g.env.reg.registerGroup u).tests.any _ = true
        rw [hsame]
        exact hg t ht
    | _ => exact hg t ht
  case := fun _ _ hg => hg
  counters := fun _ _ _ _ hg => hg

/-- Behind a run the cases of the section are linked. -/
theorem run_collected (p : Program ω) (sel : Env → Case → Bool) (s : Sys ω) :
    Collected p (runFiltered p sel s).1.g.env.reg := by
  refine runFiltered_inv (collected_invariant p) sel fun t ht => ?_
  have hlinked := collect_collected p s.g.env.reg t ht
  exact ((sortCases_perm _).any_eq).trans hlinked

theorem entry_collected (p : Program ω) (e : Entry) (s : Sys ω) :
    Collected p (e.run p s).1.g.env.reg := by
  obtain ⟨sel, s', hrun, -⟩ := Entry.run_eq p e s
  rw [hrun]
  exact run_collected p sel s'

/-- The next run of two systems that have collected their sections. -/
theorem Mirrors.prepare (h : Mirrors s s') (hs : Collected p s.g.env.reg)
    (hs' : Collected p' s'.g.env.reg) : Mirrors (prepare p s) (prepare p' s') := by
  obtain ⟨reg, hreg, rfl⟩ := h
  refine ⟨{ reg with tests := sortCases reg.tests }, ?_, ?_⟩
  · show Alike { collectSectionCases p s.g.env.reg with
      tests := sortCases (collectSectionCases p s.g.env.reg).tests } _
    rw [hs.collect]
    exact ⟨congrArg sortCases hreg.tests, hreg.suite, hreg.group, hreg.linkedSuite,
      hreg.linkedGroup⟩
  · have hcollect : collectSectionCases p' reg = reg := hs'.collect
    unfold Harness.prepare withReg
    dsimp only
    rw [hcollect]

theorem Mirrors.setFilter (h : Mirrors s s') (group name : Option CStr) :
    Mirrors (s.setFilter group name) (s'.setFilter group name) := by
  obtain ⟨reg, hreg, rfl⟩ := h
  exact ⟨reg, hreg, rfl⟩

/-- Two binaries with the same functions are alike once their next run is prepared. -/
structure Ready (p p' : Program ω) (s s' : Sys ω) : Prop where
  code : p.code = p'.code
  filterGroup : s'.g.env.filterGroup = s.g.env.filterGroup
  filterCase : s'.g.env.filterCase = s.g.env.filterCase
  prepared : ∀ group name,
    Mirrors (prepare p (s.setFilter group name)) (prepare p' (s'.setFilter group name))

theorem Mirrors.ready (h : Mirrors s s') (hcode : p.code = p'.code)
    (hs : Collected p s.g.env.reg) (hs' : Collected p' s'.g.env.reg) : Ready p p' s s' where
  code := hcode
  filterGroup := by
    obtain ⟨reg, -, rfl⟩ := h
    rfl
  filterCase := by
    obtain ⟨reg, -, rfl⟩ := h
    rfl
  prepared group name := (h.setFilter group name).prepare hs hs'

/-- The two runs end alike, and with the same answer. -/
def SameRun (r r' : Sys ω × Nat) : Prop := Mirrors r.1 r'.1 ∧ r.2 = r'.2

theorem Ready.filtered (h : Ready p p' s s') (hsel : ByName sel) (group name : Option CStr) :
    SameRun (runFiltered p sel (s.setFilter group name))
      (runFiltered p' sel (s'.setFilter group name)) :=
  runFiltered_mirrors h.code (h.prepared group name) hsel

theorem Ready.plain (h : Ready p p' s s') (hsel : ByName sel) :
    SameRun (runFiltered p sel s) (runFiltered p' sel s') := by
  have hsame := h.filtered hsel s.g.env.filterGroup s.g.env.filterCase
  have hs' : s'.setFilter s.g.env.filterGroup s.g.env.filterCase = s' := by
    rw [← h.filterGroup, ← h.filterCase]
    rfl
  rw [hs'] at hsame
  exact hsame

theorem Ready.all (h : Ready p p' s s') : SameRun (potRunAll p s) (potRunAll p' s') :=
  h.plain fun _ _ _ _ => rfl

theorem Ready.tag (h : Ready p p' s s') (tag : Option CStr) :
    SameRun (potRunTag p tag s) (potRunTag p' tag s') := by
  cases tag with
  | none => exact h.all
  | some tag => exact h.plain (byName_matchTag tag)

theorem Ready.suite (h : Ready p p' s s') (suite : Option CStr) :
    SameRun (potRunSuite p suite s) (potRunSuite p' suite s') := by
  unfold potRunSuite
  cases nonEmpty suite with
  | none => exact h.all
  | some suite => exact h.plain fun _ _ _ _ => rfl

theorem Ready.group (h : Ready p p' s s') (suite group : Option CStr) :
    SameRun (potRunGroup p suite group s) (potRunGroup p' suite group s') := by
  unfold potRunGroup
  cases nonEmpty suite with
  | none => exact h.all
  | some suite =>
    cases nonEmpty group with
    | none => exact h.all
    | some group =>
      dsimp only
      rw [h.filterCase]
      exact h.filtered (fun _ _ _ _ => rfl) _ _

theorem Ready.case (h : Ready p p' s s') (suite group name : Option CStr) :
    SameRun (potRunCase p suite group name s) (potRunCase p' suite group name s') := by
  unfold potRunCase
  cases nonEmpty suite with
  | none => exact h.all
  | some suite =>
    cases nonEmpty group with
    | none => exact h.all
    | some group =>
      cases nonEmpty name with
      | none => exact h.all
      | some name => exact h.filtered (fun _ _ _ _ => rfl) _ _

theorem Ready.entry (h : Ready p p' s s') (e : Entry) : SameRun (e.run p s) (e.run p' s') := by
  cases e with
  | all => exact h.all
  | tag tag => exact h.tag tag
  | suite suite => exact h.suite suite
  | group suite group => exact h.group suite group
  | case suite group name => exact h.case suite group name

theorem Ready.cascade (h : Ready p p' s s') (v : Vars) :
    SameRun (cascade p v s) (cascade p' v s') := by
  unfold Harness.cascade
  split_ifs
  · exact h.case v.suite v.group v.case
  · exact h.tag v.tag
  · exact h.group v.suite v.group
  · exact h.suite v.suite
  · exact h.all

/-- The list of cases for the host reads the registry by name as well. -/
theorem Ready.discovered (h : Ready p p' s s') (v : Vars) :
    discovered p v s = discovered p' v s' := by
  obtain ⟨reg, hreg, heq⟩ := h.prepared s.g.env.filterGroup s.g.env.filterCase
  have hs' : (prepare p' (s'.setFilter s.g.env.filterGroup s.g.env.filterCase)).g.env.reg = reg := by
    rw [heq]
    rfl
  have htests : sortCases (collectSectionCases p s.g.env.reg).tests =
      sortCases (collectSectionCases p' s'.g.env.reg).tests :=
    hreg.tests.trans (congrArg Registry.tests hs').symm
  have hselects : ∀ t, discoverSelects (collectSectionCases p s.g.env.reg) v t =
      discoverSelects (collectSectionCases p' s'.g.env.reg) v t := by
    intro t
    have hsuite : findSuite (collectSectionCases p s.g.env.reg) t.suite =
        findSuite (collectSectionCases p' s'.g.env.reg) t.suite :=
      (hreg.suite t.suite).trans (congrArg (fun reg => findSuite reg t.suite) hs').symm
    have hgroup : findGroup (collectSectionCases p s.g.env.reg) t.suite t.group =
        findGroup (collectSectionCases p' s'.g.env.reg) t.suite t.group :=
      (hreg.group t.suite t.group).trans
        (congrArg (fun reg => findGroup reg t.suite t.group) hs').symm
    have htag : ∀ tag, caseMatchesTag (collectSectionCases p s.g.env.reg) t tag =
        caseMatchesTag (collectSectionCases p' s'.g.env.reg) t tag := by
      intro tag
      unfold caseMatchesTag
      rw [hsuite, hgroup]
    unfold discoverSelects passesTag
    cases nonEmpty v.tag with
    | none => rfl
    | some tag =>
      dsimp only
      rw [htag]
  unfold Harness.discovered
  dsimp only
  rw [htests]
  exact List.filter_congr fun t _ => hselects t

/-! ## Two orders of the constructors -/

/-- A search with one match at most does not see the order of a list. -/
theorem find?_perm {α : Type} {xs ys : List α} (h : xs.Perm ys) {q : α → Bool}
    (hone : ∀ a ∈ xs, ∀ b ∈ xs, q a = true → q b = true → a = b) :
    xs.find? q = ys.find? q := by
  cases hx : xs.find? q with
  | none =>
    symm
    rw [List.find?_eq_none] at hx ⊢
    exact fun b hb => hx b (h.mem_iff.mpr hb)
  | some a =>
    cases hy : ys.find? q with
    | none =>
      rw [List.find?_eq_none] at hy
      have ha := h.mem_iff.mp (List.mem_of_find?_eq_some hx)
      exact absurd (List.find?_some hx) (hy a ha)
    | some b =>
      have hb := h.mem_iff.mpr (List.mem_of_find?_eq_some hy)
      rw [hone a (List.mem_of_find?_eq_some hx) b hb (List.find?_some hx) (List.find?_some hy)]

/-- No two cases, suites or groups of a binary have the same names. -/
structure DistinctNames (p : Program ω) (reg : Registry) : Prop where
  cases : ((collectSectionCases p reg).tests.map Case.id).Nodup
  suites : (reg.suites.map Suite.name).Nodup
  groups : (reg.groups.map fun g => (g.suite, g.name)).Nodup

/-- The section cases join either list. -/
theorem collect_perm (ts : List Case) {reg reg' : Registry} (h : reg.tests.Perm reg'.tests) :
    (ts.foldl (fun reg t => reg.register (some t)) reg).tests.Perm
      (ts.foldl (fun reg t => reg.register (some t)) reg').tests := by
  induction ts generalizing reg reg' with
  | nil => exact h
  | cons t ts ih =>
      apply ih
      have hlinked : reg.tests.any (·.addr == t.addr) = reg'.tests.any (·.addr == t.addr) :=
        h.any_eq
      rw [register_tests, register_tests, hlinked]
      split_ifs
      · exact h
      · exact h.cons t

/-- Registries with the same descriptors look alike once the cases are sorted. -/
theorem DistinctNames.alike {reg reg' : Registry} (h : DistinctNames p reg)
    (htests : reg.tests.Perm reg'.tests) (hsuites : reg.suites.Perm reg'.suites)
    (hgroups : reg.groups.Perm reg'.groups) :
    Alike { collectSectionCases p reg with tests := sortCases (collectSectionCases p reg).tests }
      { collectSectionCases p reg' with
        tests := sortCases (collectSectionCases p reg').tests } where
  tests := sortCases_congr (collect_perm p.potInfo htests) h.cases
  suite name := by
    show (collectSectionCases p reg).suites.find? _ = (collectSectionCases p reg').suites.find? _
    rw [collect_suites, collect_suites]
    apply find?_perm hsuites
    intro a ha b hb hqa hqb
    have hname : a.name = b.name :=
      (strCmp_eq_iff.mp (of_decide_eq_true hqa)).trans
        (strCmp_eq_iff.mp (of_decide_eq_true hqb)).symm
    exact List.inj_on_of_nodup_map h.suites ha hb hname
  group suite name := by
    show (collectSectionCases p reg).groups.find? _ = (collectSectionCases p reg').groups.find? _
    rw [collect_groups, collect_groups]
    apply find?_perm hgroups
    intro a ha b hb hqa hqb
    have hqa := of_decide_eq_true hqa
    have hqb := of_decide_eq_true hqb
    have hname : (a.suite, a.name) = (b.suite, b.name) := by
      rw [strCmp_eq_iff.mp hqa.1, strCmp_eq_iff.mp hqa.2, strCmp_eq_iff.mp hqb.1,
        strCmp_eq_iff.mp hqb.2]
    exact List.inj_on_of_nodup_map h.groups ha hb hname
  linkedSuite s := by
    show (collectSectionCases p reg).suites.any _ = (collectSectionCases p reg').suites.any _
    rw [collect_suites, collect_suites]
    exact hsuites.any_eq
  linkedGroup g := by
    show (collectSectionCases p reg).groups.any _ = (collectSectionCases p reg').groups.any _
    rw [collect_groups, collect_groups]
    exact hgroups.any_eq

/-- In front of `main`, the two orders are ready for the same runs. -/
theorem start_ready {b : Boot} (hload : Loaded b) {cs cs' : List Ctor} (hperm : cs.Perm cs')
    (hset : SetOnce cs) (hnames : DistinctNames p (b.start cs).registry) (world : ω) :
    Ready p p ((b.start cs).sys world) ((b.start cs').sys world) where
  code := rfl
  filterGroup := rfl
  filterCase := rfl
  prepared group name := by
    obtain ⟨htests, hsuites, hgroups⟩ := start_perm hload hperm hset
    exact ⟨_, hnames.alike htests hsuites hgroups, rfl⟩

/-- Runs one after the other, with their answers. -/
def runs (p : Program ω) : List Entry → Sys ω → Sys ω × List Nat
  | [], s => (s, [])
  | e :: es, s =>
      let r := e.run p s
      let rest := runs p es r.1
      (rest.1, r.2 :: rest.2)

/-- What the outside sees of `pot_run_from_env`: the list of cases, or the trace, the state
of the test code and the answer. -/
def seen : FromEnv ω → List (List UInt8) ⊕ (List Step × ω × Nat)
  | .listed writes => .inl writes
  | .ran r => .inr (r.1.trace, r.1.world, r.2)

/-- The runs have written the same, and the next ones will. -/
structure SameSoFar (p p' : Program ω) (s s' : Sys ω) : Prop where
  trace : s.trace = s'.trace
  world : s.world = s'.world
  ready : Ready p p' s s'

theorem Mirrors.outside (h : Mirrors s s') : s.trace = s'.trace ∧ s.world = s'.world := by
  obtain ⟨reg, -, rfl⟩ := h
  exact ⟨rfl, rfl⟩

theorem SameSoFar.runs (h : SameSoFar p p' s s') (es : List Entry) :
    (runs p es s).2 = (runs p' es s').2 ∧ SameSoFar p p' (runs p es s).1 (runs p' es s').1 := by
  induction es generalizing s s' with
  | nil => exact ⟨rfl, h⟩
  | cons e es ih =>
      obtain ⟨hmirrors, hanswer⟩ := h.ready.entry e
      have hready : Ready p p' (e.run p s).1 (e.run p' s').1 :=
        hmirrors.ready h.ready.code (entry_collected p e s) (entry_collected p' e s')
      obtain ⟨hrest, hend⟩ := ih ⟨hmirrors.outside.1, hmirrors.outside.2, hready⟩
      refine ⟨?_, hend⟩
      show (e.run p s).2 :: _ = (e.run p' s').2 :: _
      rw [hanswer, hrest]

theorem Ready.fromEnv (h : Ready p p' s s') (v : Vars) :
    seen (potRunFromEnv p v s) = seen (potRunFromEnv p' v s') := by
  unfold potRunFromEnv
  split_ifs
  · rw [h.discovered v]
  · obtain ⟨hmirrors, hanswer⟩ := h.cascade v
    obtain ⟨htrace, hworld⟩ := hmirrors.outside
    show Sum.inr (_, _, _) = Sum.inr (_, _, _)
    rw [htrace, hworld, hanswer]

/-- Binaries that are ready for the same runs do the same in all of them. -/
theorem SameSoFar.seen (h : SameSoFar p p' s s') (es : List Entry) (v : Vars) :
    (Run.runs p es s).2 = (Run.runs p' es s').2 ∧
      (Run.runs p es s).1.trace = (Run.runs p' es s').1.trace ∧
      (Run.runs p es s).1.world = (Run.runs p' es s').1.world ∧
      Run.seen (potRunFromEnv p v (Run.runs p es s).1) =
        Run.seen (potRunFromEnv p' v (Run.runs p' es s').1) := by
  obtain ⟨hanswers, hend⟩ := h.runs es
  exact ⟨hanswers, hend.trace, hend.world, hend.ready.fromEnv v⟩

/-- For any order of the constructors that the linker chooses, the same runs write the same
bytes, call the same functions in the same order and give the same answers, and
`pot_run_from_env` does the same behind them. -/
theorem boot_order {b : Boot} (hload : Loaded b) {cs cs' : List Ctor} (hperm : cs.Perm cs')
    (hset : SetOnce cs) (hnames : DistinctNames p (b.start cs).registry) (world : ω)
    (es : List Entry) (v : Vars) :
    let r := runs p es ((b.start cs).sys world)
    let r' := runs p es ((b.start cs').sys world)
    r.2 = r'.2 ∧ r.1.trace = r'.1.trace ∧ r.1.world = r'.1.world ∧
      seen (potRunFromEnv p v r.1) = seen (potRunFromEnv p v r'.1) := by
  have hsame : SameSoFar p p ((b.start cs).sys world) ((b.start cs').sys world) :=
    ⟨rfl, rfl, start_ready hload hperm hset hnames world⟩
  exact hsame.seen es v

/-- A file with two cases of a suite: the first case has address 1. -/
def twoCases : Boot where
  case a := ⟨a, some (CStr.lit "math"), some (CStr.lit "add"),
    some (CStr.lit (if a = 1 then "zero" else "one")), some a, none⟩
  suite a := ⟨a, some (CStr.lit "math"), none, none, none⟩
  group a := ⟨a, some (CStr.lit "math"), some (CStr.lit "add"), none, none, none⟩
  tests := []
  suites := []
  groups := []

/-- Its constructors in the order of the file. -/
def twoCasesCtors : List Ctor :=
  [.suite 0, .suiteTeardown 0 7, .suiteTags 0 [CStr.lit "slow"], .groupTags 0 [], .test 1, .test 2]

/-- The cases in the other order, and the teardown in front of the suite. -/
theorem boot_order_turned :
    let p := bodyCalls [.ignore none]
    let cs := [.test 2, .suiteTags 0 [CStr.lit "slow"], .suiteTeardown 0 7, .test 1, .suite 0,
      .groupTags 0 []]
    let es := [.all, .tag (some (CStr.lit "slow"))]
    let v : Vars := ⟨some (CStr.lit "1"), none, none, none, none⟩
    let r := runs p es ((twoCases.start twoCasesCtors).sys ())
    let r' := runs p es ((twoCases.start cs).sys ())
    r.2 = r'.2 ∧ r.1.trace = r'.1.trace ∧ r.1.world = r'.1.world ∧
      seen (potRunFromEnv p v r.1) = seen (potRunFromEnv p v r'.1) :=
  boot_order ⟨rfl, rfl, rfl, fun _ => rfl, fun _ => rfl, fun _ => rfl⟩ (by decide)
    (by unfold SetOnce; decide) ⟨by decide, by decide, by decide⟩ () _ _

end PolyOnTest.Run
