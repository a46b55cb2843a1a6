import PolyOnTest.CodeLib.Lockstep
import PolyOnTest.Harness.Profiles

/-!
# Every build is the full one on a smaller file

A size profile takes features out of the harness.  `Build.script` takes them out of the
test file instead: the registrations of suites and groups, `TEST_PROTECT`, the tags of
a run and, on a freestanding target, the environment.  `build_runs` says that this is the
same: a build, whatever macros it defines, runs a test file as the build with everything
switched on runs the smaller one.

There is one lemma for each function, in the order of `Harness.Profiles`.
-/

namespace PolyOnTest.Harness.Build

open CodeLib CodeLib.CMemory

variable {ω : Type} (bd : Build)

/-! ## The smaller file -/

/-- The build with everything switched on that writes in the same mode and has the same
hooks. -/
def whole : Setup := { bd.setup with protect := true }

/-- The entry point that is left of one. -/
def entry : Entry → Entry
  | .tag tag => if bd.config.tags then .tag tag else .all
  | e => e

/-- The environment that is left of one.  Without tags a run that `POT_TAG` selects is a
run of all cases, also where `POT_SUITE` or `POT_GROUP` is set. -/
def vars (v : Vars) : Vars :=
  if bd.config.tags then v
  else if v.discover.isNone ∧ (nonEmpty v.tag).isSome ∧
      ¬((nonEmpty v.suite).isSome ∧ (nonEmpty v.group).isSome ∧ (nonEmpty v.case).isSome) then
    ⟨none, none, none, none, none⟩
  else { v with tag := none }

/-- Whether a call is still made. -/
def makes : Call → Bool
  | .registerSuite _ | .registerGroup _ => bd.config.fixtures
  | .protect => bd.config.protect
  | _ => true

/-- The script that is left of one. -/
def script : Script → Script
  | .done => .done
  | .call c next => if bd.makes c then .call c (script next) else script next
  | .protect one zero =>
      if bd.config.protect then .protect (script one) (script zero) else script one
  | .run e next => .run (bd.entry e) fun returned => script (next returned)
  | .runFromEnv v next =>
      if bd.defines.freestanding then .run .all fun returned => script (next returned)
      else .runFromEnv (bd.vars v) fun returned => script (next returned)

/-- The test binary that is left of one. -/
def binary (b : TestBinary ω) : TestBinary ω where
  code f w := (bd.script (b.code f w).1, (b.code f w).2)
  potInfo := b.potInfo

end PolyOnTest.Harness.Build

namespace PolyOnTest.Run

open CodeLib CodeLib.CMemory CodeLib.Trace PolyOnTest.Harness PolyOnTest.Harness.Hooks

variable {ω α : Type} {bd : Build}

/-- The build and the whole one are in the same state, and what is not compiled was never
used. -/
structure InStep (bd : Build) (s s' : Sys ω) : Prop where
  g : s'.g = s.g
  world : s'.world = s.world
  fixtures : bd.config.fixtures = false → s.g.env.reg.suites = [] ∧ s.g.env.reg.groups = []
  mark : bd.config.protect = false → s.g.protectActive = false

/-- The two programs do the same. -/
abbrev SameCode (bd : Build) (m m' : Hooked ω α) : Prop := Lockstep (InStep bd) Eq m m'

theorem InStep.update {s s' t t' : Sys ω} (h : InStep bd s s') (hg : t'.g = t.g)
    (hworld : t'.world = t.world) (hreg : t.g.env.reg.suites = s.g.env.reg.suites)
    (hgroups : t.g.env.reg.groups = s.g.env.reg.groups)
    (hmark : t.g.protectActive = s.g.protectActive) : InStep bd t t' where
  g := hg
  world := hworld
  fixtures hf := ⟨hreg.trans (h.fixtures hf).1, hgroups.trans (h.fixtures hf).2⟩
  mark hp := hmark.trans (h.mark hp)

/-! ## Locks and output -/

theorem ptLock_inStep : SameCode (ω := ω) bd (ptLock bd.setup) (ptLock bd.whole) := by
  show SameCode bd (ptLock bd.setup) (ptLock bd.setup)
  unfold ptLock
  split_ifs
  · exact Lockstep.log _
  · exact Lockstep.done

theorem ptUnlock_inStep : SameCode (ω := ω) bd (ptUnlock bd.setup) (ptUnlock bd.whole) := by
  show SameCode bd (ptUnlock bd.setup) (ptUnlock bd.setup)
  unfold ptUnlock
  split_ifs
  · exact Lockstep.log _
  · exact Lockstep.done

theorem emitRaw_inStep (data : List UInt8) :
    SameCode (ω := ω) bd (emitRaw bd.setup data) (emitRaw bd.whole data) :=
  ptLock_inStep.next fun _ => (Lockstep.log _).next fun _ => ptUnlock_inStep

theorem say_inStep (m : Msg) : SameCode (ω := ω) bd (say bd.setup m) (say bd.whole m) := by
  have hsay : SameCode (ω := ω) bd (change fun s => s.say m) (change fun s => s.say m) :=
    Lockstep.change fun _ _ h => h.update h.g h.world rfl rfl rfl
  exact hsay.next fun _ => Lockstep.forM emitRaw_inStep _

/-! ## Calls of test code -/

/-- The flags are set under the lock. -/
theorem setFlag_inStep {f : Sys ω → Sys ω} {rest rest' : Hooked ω α}
    (hf : ∀ s s', InStep bd s s' → InStep bd (f s) (f s')) (hrest : SameCode bd rest rest') :
    SameCode bd (do ptLock bd.setup; change f; ptUnlock bd.setup; rest)
      (do ptLock bd.whole; change f; ptUnlock bd.whole; rest') :=
  ptLock_inStep.next fun _ => (Lockstep.change hf).next fun _ =>
    ptUnlock_inStep.next fun _ => hrest

theorem InStep.fail {s s' : Sys ω} (h : InStep bd s s') :
    InStep bd { s with g := { s.g with currentFailed := true } }
      { s' with g := { s'.g with currentFailed := true } } :=
  h.update (by rw [h.g]) h.world rfl rfl rfl

theorem InStep.skip {s s' : Sys ω} (h : InStep bd s s') :
    InStep bd { s with g := { s.g with currentSkipped := true } }
      { s' with g := { s'.g with currentSkipped := true } } :=
  h.update (by rw [h.g]) h.world rfl rfl rfl

theorem potFailAt_inStep (file : Option CStr) (line : Int32) (message : Option CStr) :
    SameCode (ω := ω) bd (potFailAt bd.setup file line message)
      (potFailAt bd.whole file line message) := by
  refine Lockstep.read.bind fun s s' h => ?_
  rw [h.g]
  exact setFlag_inStep (fun _ _ h => h.fail) (say_inStep _)

theorem potIgnore_inStep (message : Option CStr) :
    SameCode (ω := ω) bd (potIgnore bd.setup message) (potIgnore bd.whole message) := by
  refine setFlag_inStep (fun _ _ h => h.skip) (Lockstep.read.bind fun s s' h => ?_)
  rw [h.g]
  cases message with
  | none => exact Lockstep.done
  | some text =>
    dsimp only
    split_ifs
    · exact say_inStep _
    · exact Lockstep.done

/-- Without `longjmp` no mark was set, so the whole build does not jump either. -/
theorem potAbort_inStep : SameCode (ω := ω) bd (potAbort bd.setup) (potAbort bd.whole) := by
  refine setFlag_inStep (fun _ _ h => h.fail) (Lockstep.read.bind fun s s' h => ?_)
  have hjump : (bd.setup.protect = true ∧ s.g.protectActive = true) ↔
      (bd.whole.protect = true ∧ s'.g.protectActive = true) := by
    rw [h.g]
    refine ⟨fun ⟨_, hs⟩ => ⟨rfl, hs⟩, fun ⟨_, hs⟩ => ⟨?_, hs⟩⟩
    by_contra hoff
    have := h.mark (Bool.eq_false_of_not_eq_true hoff)
    simp [this] at hs
  by_cases hs : bd.setup.protect = true ∧ s.g.protectActive = true
  · rw [if_pos hs, if_pos (hjump.mp hs)]
    exact (Lockstep.log _).next fun _ => Lockstep.leave _
  · rw [if_neg hs, if_neg (hjump.not.mp hs)]
    exact Lockstep.done

theorem mark_inStep (hp : bd.config.protect = true) (mark : Bool) :
    SameCode (ω := ω) bd
      (change fun s => { s with g := { s.g with protectActive := mark } })
      (change fun s => { s with g := { s.g with protectActive := mark } }) := by
  refine Lockstep.change fun s s' h => ⟨?_, h.world, h.fixtures, ?_⟩
  · show { s'.g with protectActive := mark } = { s.g with protectActive := mark }
    rw [h.g]
  · intro hoff
    rw [hp] at hoff
    cases hoff

theorem potProtect_inStep (hp : bd.config.protect = true) {one one' zero zero' : Hooked ω Unit}
    (hone : SameCode bd one one') (hzero : SameCode bd zero zero') :
    SameCode bd (potProtect bd.setup one zero) (potProtect bd.whole one' zero') := by
  unfold potProtect
  rw [if_pos (show bd.setup.protect = true from hp), if_pos (show bd.whole.protect = true from rfl)]
  refine (mark_inStep hp true).next fun _ => Lockstep.catching hone fun x => ?_
  cases x with
  | longjmp => exact (mark_inStep hp false).next fun _ => hzero
  | exit => exact Lockstep.leave _
  | fuel => exact Lockstep.leave _

/-- The trace of calls is not compared. -/
theorem note_inStep (c : Call) :
    SameCode (ω := ω) bd (change fun s => { s with trace := s.trace ++ [.call c] })
      (change fun s => { s with trace := s.trace ++ [.call c] }) :=
  Lockstep.change fun _ _ h => h.update h.g h.world rfl rfl rfl

theorem InStep.register {s s' : Sys ω} (h : InStep bd s s') (t : Option Case) :
    InStep bd { s with g := (Call.register t).effect s.g }
      { s' with g := (Call.register t).effect s'.g } :=
  h.update (by rw [h.g]) h.world (register_other _ t).1 (register_other _ t).2 rfl

/-- Where suites and groups are compiled there may be some. -/
theorem InStep.fixture {s s' : Sys ω} (h : InStep bd s s') (hf : bd.config.fixtures = true)
    {c : Call} (hmark : (c.effect s.g).protectActive = s.g.protectActive) :
    InStep bd { s with g := c.effect s.g } { s' with g := c.effect s'.g } where
  g := by rw [h.g]
  world := h.world
  fixtures hoff := by
    rw [hf] at hoff
    cases hoff
  mark hp := hmark.trans (h.mark hp)

/-- A function whose body is only compiled with fixtures. -/
theorem stub_inStep {c : Call} {next next' call call' : Hooked ω Unit}
    (hnext : SameCode bd next next')
    (hcall : bd.config.fixtures = true → SameCode bd call call') :
    SameCode bd
      (if bd.config.fixtures then call
      else do
        change fun s => { s with trace := s.trace ++ [.call c] }
        next)
      (if bd.config.fixtures then call' else next') := by
  split_ifs with hf
  · exact hcall hf
  · exact Lockstep.changeLeft (fun _ _ h => h.update h.g h.world rfl rfl rfl) hnext

/-- A call that is left in the smaller file, and one that is not. -/
theorem call_inStep (c : Call) {next next' : Hooked ω Unit} (hnext : SameCode bd next next') :
    SameCode bd (bd.call c next)
      (if bd.makes c then Hooks.call bd.whole c next' else next') := by
  have hnote : SameCode bd (change fun s : Sys ω => { s with trace := s.trace ++ [.call c] })
      (change fun s => { s with trace := s.trace ++ [.call c] }) := note_inStep c
  cases c with
  | failAt file line message =>
      exact hnote.next fun _ => (potFailAt_inStep file line message).next fun _ => hnext
  | ignore message => exact hnote.next fun _ => (potIgnore_inStep message).next fun _ => hnext
  | abort => exact hnote.next fun _ => potAbort_inStep.next fun _ => hnext
  | protect =>
      by_cases hp : bd.config.protect = true
      · rw [if_pos (show bd.makes .protect = true from hp)]
        exact hnote.next fun _ => potProtect_inStep hp hnext hnext
      · rw [if_neg (show ¬bd.makes .protect = true from hp)]
        refine Lockstep.changeLeft (fun _ _ h => h.update h.g h.world rfl rfl rfl) ?_
        show SameCode bd (potProtect bd.setup next next) next'
        rw [potProtect, if_neg (show ¬bd.setup.protect = true from hp)]
        exact hnext
  | register t =>
      exact hnote.next fun _ => (Lockstep.change fun _ _ h => h.register t).next fun _ => hnext
  | registerSuite u =>
      exact stub_inStep hnext fun hf => hnote.next fun _ =>
        (Lockstep.change fun _ _ h => h.fixture hf rfl).next fun _ => hnext
  | registerGroup u =>
      exact stub_inStep hnext fun hf => hnote.next fun _ =>
        (Lockstep.change fun _ _ h => h.fixture hf rfl).next fun _ => hnext
  | setParam index param =>
      exact hnote.next fun _ =>
        (Lockstep.change fun _ _ h =>
          h.update (by rw [h.g]) h.world rfl rfl rfl).next fun _ => hnext
  | clearParam =>
      exact hnote.next fun _ =>
        (Lockstep.change fun _ _ h =>
          h.update (by rw [h.g]) h.world rfl rfl rfl).next fun _ => hnext

/-! ## Lookup -/

/-- Without fixtures the lists that are searched are empty. -/
theorem findSuite_inStep {s s' : Sys ω} (h : InStep bd s s') (name : Option CStr) :
    Harness.findSuite s'.g.env.reg name = bd.findSuite s.g.env.reg name := by
  rw [h.g]
  unfold Build.findSuite
  split_ifs with hf
  · rfl
  · rw [Harness.findSuite, (h.fixtures (Bool.eq_false_of_not_eq_true hf)).1]
    rfl

theorem findGroup_inStep {s s' : Sys ω} (h : InStep bd s s') (suite group : Option CStr) :
    Harness.findGroup s'.g.env.reg suite group = bd.findGroup s.g.env.reg suite group := by
  rw [h.g]
  unfold Build.findGroup
  split_ifs with hf
  · rfl
  · rw [Harness.findGroup, (h.fixtures (Bool.eq_false_of_not_eq_true hf)).2]
    rfl

theorem caseMatchesTag_inStep {s s' : Sys ω} (h : InStep bd s s') (t : Case)
    (tag : Option CStr) :
    Harness.caseMatchesTag s'.g.env.reg t tag = bd.caseMatchesTag s.g.env.reg t tag := by
  unfold Harness.caseMatchesTag Build.caseMatchesTag
  rw [findSuite_inStep h, findGroup_inStep h]
  cases bd.findSuite s.g.env.reg t.suite <;>
    cases bd.findGroup s.g.env.reg t.suite t.group <;> rfl

/-- The two programs select the same cases. -/
theorem sel_inStep {s s' : Sys ω} (h : InStep bd s s') (m : Matcher) (t : Case) :
    bd.sel m s.g.env t = m.sel s'.g.env t := by
  cases m with
  | tag u => exact (caseMatchesTag_inStep h t (some u)).symm
  | _ =>
    rw [h.g]
    rfl

theorem entry_matcher (e : Entry) : (bd.entry e).matcher = bd.matcher e := by
  cases e with
  | tag tag =>
    unfold Build.entry Build.matcher
    split_ifs
    · rfl
    · rfl
  | _ => rfl

/-! ## States and entry points -/

theorem status_inStep {s s' : Sys ω} (h : InStep bd s s') : s'.status = s.status := by
  rw [Sys.status, Sys.status, h.g]

theorem InStep.count {s s' : Sys ω} (h : InStep bd s s') (status : TestStatus) :
    InStep bd (s.count status) (s'.count status) := by
  cases status with
  | passed => exact h.update (by simp only [Sys.count, h.g]) h.world rfl rfl rfl
  | failed => exact h.update (by simp only [Sys.count, h.g]) h.world rfl rfl rfl
  | skipped => exact h.update (by simp only [Sys.count, h.g]) h.world rfl rfl rfl

theorem InStep.prepare {s s' : Sys ω} (h : InStep bd s s') (b : TestBinary ω) :
    InStep bd (Harness.prepare b.sections s) (Harness.prepare (bd.binary b).sections s') := by
  have hlists := collect_keeps b.sections s.g.env.reg
  refine h.update ?_ h.world hlists.1 hlists.2 rfl
  simp only [Harness.prepare, h.g]
  rfl

theorem entry_filters (e : Entry) (s : Sys ω) : (bd.entry e).filters s = e.filters s := by
  cases e with
  | tag tag =>
    unfold Build.entry
    dsimp only
    split_ifs
    · rfl
    · rfl
  | _ => rfl

theorem InStep.setFilter {s s' : Sys ω} (h : InStep bd s s') (group name : Option CStr) :
    InStep bd (s.setFilter group name) (s'.setFilter group name) :=
  h.update (by simp only [Sys.setFilter, h.g]) h.world rfl rfl rfl

theorem InStep.filters {s s' : Sys ω} (h : InStep bd s s') (e : Entry) :
    InStep bd (e.filters s) (e.filters s') := by
  cases e with
  | group u g =>
    simp only [Entry.filters, h.g]
    cases nonEmpty u with
    | none => exact h
    | some u =>
      cases nonEmpty g with
      | none => exact h
      | some g => exact h.setFilter _ _
  | case u g c =>
    simp only [Entry.filters]
    cases nonEmpty u with
    | none => exact h
    | some u =>
      cases nonEmpty g with
      | none => exact h
      | some g =>
        cases nonEmpty c with
        | none => exact h
        | some c => exact h.setFilter _ _
  | _ => exact h

/-! ## The environment -/

theorem vars_discover {v : Vars} (hd : v.discover.isSome = true) :
    bd.vars v = if bd.config.tags then v else { v with tag := none } := by
  unfold Build.vars
  split_ifs with ht hrun
  · rfl
  · rw [Option.isNone_iff_eq_none.mp hrun.1] at hd
    cases hd
  · rfl

theorem passesTag_inStep {s s' : Sys ω} (h : InStep bd s s') (v : Vars) (t : Case) :
    Harness.passesTag s'.g.env.reg (if bd.config.tags then v else { v with tag := none }) t =
      bd.passesTag s.g.env.reg v t := by
  unfold Build.passesTag Harness.passesTag
  split_ifs with ht
  · cases nonEmpty v.tag with
    | none => rfl
    | some tag => exact caseMatchesTag_inStep h t (some tag)
  · rfl

/-- The state behind `pot_collect_section_cases`. -/
theorem InStep.collected {s s' : Sys ω} (h : InStep bd s s') (b : TestBinary ω) :
    InStep bd
      { s with g := { s.g with env := { s.g.env with
          reg := collectSectionCases b.sections s.g.env.reg } } }
      { s' with g := { s'.g with env := { s'.g.env with
          reg := collectSectionCases (bd.binary b).sections s'.g.env.reg } } } := by
  have hlists := collect_keeps b.sections s.g.env.reg
  refine h.update ?_ h.world hlists.1 hlists.2 rfl
  rw [h.g]
  rfl

theorem discovered_inStep {s s' : Sys ω} (h : InStep bd s s') (b : TestBinary ω) {v : Vars}
    (hd : v.discover.isSome = true) :
    Harness.discovered (bd.binary b).sections (bd.vars v) s' = bd.discovered b v s := by
  have hc := h.collected b
  have hselects : ∀ t, discoverSelects (collectSectionCases (bd.binary b).sections s'.g.env.reg)
      (bd.vars v) t =
      (bd.passesTag (collectSectionCases b.sections s.g.env.reg) v t && passesSuite v t &&
        passesGroup v t) := by
    intro t
    rw [vars_discover hd]
    unfold discoverSelects
    rw [passesTag_inStep hc]
    split_ifs
    · rfl
    · rfl
  unfold Harness.discovered Build.discovered
  dsimp only
  rw [show (collectSectionCases (bd.binary b).sections s'.g.env.reg).tests =
    (collectSectionCases b.sections s.g.env.reg).tests from congrArg (·.env.reg.tests) hc.g]
  exact List.filter_congr fun t _ => hselects t

/-- The smaller environment leads to the entry point that is left. -/
theorem cascadeEntry_vars {v : Vars} (hd : ¬v.discover.isSome = true) :
    cascadeEntry (bd.vars v) = bd.entry (cascadeEntry v) := by
  have hnone : v.discover.isNone = true := by simpa using hd
  by_cases ht : bd.config.tags = true
  · rw [Build.vars, if_pos ht]
    unfold cascadeEntry
    split_ifs <;> simp [Build.entry, ht]
  · by_cases hcase : (nonEmpty v.suite).isSome ∧ (nonEmpty v.group).isSome ∧
        (nonEmpty v.case).isSome
    · have hvars : bd.vars v = { v with tag := none } := by
        rw [Build.vars, if_neg ht, if_neg fun h => h.2.2 hcase]
      rw [hvars]
      simp [cascadeEntry, Build.entry, hcase]
    · by_cases htag : (nonEmpty v.tag).isSome = true
      · have hvars : bd.vars v = ⟨none, none, none, none, none⟩ := by
          rw [Build.vars, if_neg ht, if_pos ⟨hnone, htag, hcase⟩]
        rw [hvars, cascadeEntry, cascadeEntry, if_neg hcase, if_pos htag]
        simp [Build.entry, ht, nonEmpty]
      · have hvars : bd.vars v = { v with tag := none } := by
          rw [Build.vars, if_neg ht, if_neg fun h => htag h.2.1]
        rw [hvars]
        simp only [cascadeEntry, if_neg hcase, if_neg htag]
        have hnot : ¬(nonEmpty none).isSome = true := Bool.false_ne_true
        rw [if_neg hnot]
        split_ifs
        · rfl
        · rfl
        · rfl

/-! ## `run_filtered` -/

section Runner

variable {b : TestBinary ω} {go go' : Script → Hooked ω Unit}
  (hgo : ∀ script, SameCode bd (go script) (go' (bd.script script)))

include hgo

theorem enter_inStep (hook : Hook) (f : Option FnId) :
    SameCode bd (enter b go hook f) (enter (bd.binary b) go' hook f) := by
  cases f with
  | none => exact Lockstep.done
  | some f =>
      refine (Lockstep.log _).next fun _ => Lockstep.read.bind fun s s' h => ?_
      rw [h.world]
      exact (Lockstep.change fun x x' hx =>
        hx.update hx.g (by rw [hx.world]; rfl) rfl rfl rfl).next fun _ => hgo _

theorem closeSuite_inStep (o : Open) :
    SameCode bd (bd.closeSuite b go o) (Hooks.closeSuite bd.whole (bd.binary b) go' o) := by
  unfold Build.closeSuite Hooks.closeSuite
  cases o.suite with
  | none => exact Lockstep.done
  | some suite =>
      refine Lockstep.read.bind fun s s' h => ?_
      rw [findSuite_inStep h]
      exact (enter_inStep hgo _ _).next fun _ => say_inStep _

theorem openSuiteEmit_inStep (name : Option CStr) :
    SameCode bd (bd.openSuiteEmit b go name)
      (Hooks.openSuiteEmit bd.whole (bd.binary b) go' name) := by
  refine Lockstep.read.bind fun s s' h => ?_
  rw [findSuite_inStep h]
  exact (enter_inStep hgo _ _).next fun _ => say_inStep _

theorem runBody_inStep (t : Case) :
    SameCode bd (bd.runBody b go t) (Hooks.runBody (bd.binary b) go' t) := by
  refine Lockstep.read.bind fun s s' h => ?_
  rw [findGroup_inStep h]
  exact (enter_inStep hgo _ _).next fun _ => (enter_inStep hgo _ _).next fun _ =>
    enter_inStep hgo _ _

theorem switchSuite_inStep (t : Case) (o : Open) :
    SameCode bd (bd.switchSuite b go t o) (Hooks.switchSuite bd.whole (bd.binary b) go' t o) := by
  unfold Build.switchSuite Hooks.switchSuite
  split_ifs
  · exact (closeSuite_inStep hgo o).next fun _ =>
      (openSuiteEmit_inStep hgo t.suite).next fun _ => Lockstep.pure rfl
  · exact Lockstep.pure rfl

theorem runCase_inStep (t : Case) (o : Open) :
    SameCode bd (bd.runCase b go t o) (Hooks.runCase bd.whole (bd.binary b) go' t o) := by
  have hbegin : SameCode bd (change fun s : Sys ω => s.begin t) (change fun s => s.begin t) :=
    Lockstep.change fun _ _ h => h.update (by simp only [Sys.begin, h.g]) h.world rfl rfl rfl
  have hcount : SameCode bd (change fun s : Sys ω => s.count s.status)
      (change fun s => s.count s.status) :=
    Lockstep.change fun s s' h => by
      rw [status_inStep h]
      exact h.count s.status
  refine hbegin.next fun _ => (say_inStep _).next fun _ => (runBody_inStep hgo t).next fun _ =>
    Lockstep.read.bind fun s s' h => hcount.next fun _ => ?_
  rw [status_inStep h]
  exact (say_inStep _).next fun _ => Lockstep.pure rfl

theorem loopBody_inStep {sel sel' : Env → Case → Bool}
    (hsel : ∀ s s' : Sys ω, InStep bd s s' → ∀ t, sel s.g.env t = sel' s'.g.env t) (o : Open)
    (t : Case) :
    SameCode bd (bd.loopBody b go sel o t)
      (Hooks.loopBody bd.whole (bd.binary b) go' sel' o t) := by
  refine Lockstep.read.bind fun s s' h => ?_
  rw [hsel s s' h t]
  split_ifs
  · exact (switchSuite_inStep hgo t o).next fun o => runCase_inStep hgo t o
  · exact Lockstep.pure rfl

theorem runFiltered_inStep {sel sel' : Env → Case → Bool}
    (hsel : ∀ s s' : Sys ω, InStep bd s s' → ∀ t, sel s.g.env t = sel' s'.g.env t) :
    SameCode bd (bd.runFiltered b go sel)
      (Hooks.runFiltered bd.whole (bd.binary b) go' sel') := by
  have hprepare : SameCode bd (change fun s => Harness.prepare b.sections s)
      (change fun s => Harness.prepare (bd.binary b).sections s) :=
    Lockstep.change fun _ _ h => h.prepare b
  refine hprepare.next fun _ => (say_inStep _).next fun _ => Lockstep.read.bind fun s s' h => ?_
  rw [h.g]
  refine (Lockstep.foldlM (loopBody_inStep hgo hsel) _ _).next fun o =>
    (closeSuite_inStep hgo o).next fun _ => Lockstep.read.bind fun t t' ht => ?_
  rw [ht.g]
  exact (say_inStep _).next fun _ => Lockstep.pure rfl

/-! ## The public functions that start a run -/

theorem run_inStep (e : Entry) :
    SameCode bd (bd.run b go e) (run bd.whole (bd.binary b) go' (bd.entry e)) := by
  have hfilters : SameCode bd (change fun s : Sys ω => e.filters s)
      (change fun s => (bd.entry e).filters s) :=
    Lockstep.change fun s s' h => by
      rw [entry_filters]
      exact h.filters e
  refine hfilters.next fun _ => runFiltered_inStep hgo ?_
  intro s s' h t
  rw [sel_inStep h, entry_matcher]

/-- `POT_FREESTANDING` decides before the environment does. -/
theorem runFromEnv_inStep (v : Vars) :
    SameCode bd (bd.runFromEnv b go v)
      (if bd.defines.freestanding then run bd.whole (bd.binary b) go' .all
      else runFromEnv bd.whole (bd.binary b) go' (bd.vars v)) := by
  unfold Build.runFromEnv
  by_cases hf : bd.defines.freestanding = true
  · rw [if_pos hf, if_pos hf]
    exact run_inStep hgo .all
  · rw [if_neg hf, if_neg hf]
    unfold Hooks.runFromEnv
    by_cases hd : v.discover.isSome = true
    · have hvars : (bd.vars v).discover.isSome = true := by
        rw [vars_discover hd]
        split_ifs
        · exact hd
        · exact hd
      rw [if_pos hd, if_pos hvars]
      refine Lockstep.read.bind fun s s' h => ?_
      rw [discovered_inStep h b hd]
      exact (Lockstep.forM emitRaw_inStep _).next fun _ => Lockstep.leave _
    · have hvars : ¬(bd.vars v).discover.isSome = true := by
        unfold Build.vars
        split_ifs
        · exact hd
        · exact Bool.false_ne_true
        · exact hd
      rw [if_neg hd, if_neg hvars, cascadeEntry_vars hd]
      exact run_inStep hgo _

/-! ## Test code -/

/-- By induction on the script. -/
theorem interp_inStep (script : Script) :
    SameCode bd (bd.interp b go script)
      (interp bd.whole (bd.binary b) go' (bd.script script)) := by
  induction script with
  | done => exact Lockstep.done
  | call c next ih =>
      have hcall := call_inStep c ih
      unfold Build.script
      split_ifs at hcall ⊢
      · exact hcall
      · exact hcall
  | protect one zero ihone ihzero =>
      unfold Build.script
      split_ifs with hp
      · exact potProtect_inStep hp ihone ihzero
      · show SameCode bd (potProtect bd.setup _ _) _
        rw [potProtect, if_neg (show ¬bd.setup.protect = true from hp)]
        exact ihone
  | run e next ih => exact (run_inStep hgo e).next ih
  | runFromEnv v next ih =>
      have hrun : SameCode bd (bd.runFromEnv b go v) _ := runFromEnv_inStep hgo v
      unfold Build.script
      split_ifs at hrun ⊢
      · exact hrun.next ih
      · exact hrun.next ih

end Runner

variable {b : TestBinary ω}

/-- By induction on the fuel. -/
theorem exec_inStep (n : Nat) (script : Script) :
    SameCode bd (bd.exec b n script) (exec bd.whole (bd.binary b) n (bd.script script)) := by
  induction n generalizing script with
  | zero => exact Lockstep.leave _
  | succ n ih => exact interp_inStep ih script

theorem inStep_init (world : ω) :
    InStep bd ⟨Globals.init, world, []⟩ ⟨Globals.init, world, []⟩ where
  g := rfl
  world := rfl
  fixtures _ := ⟨rfl, rfl⟩
  mark _ := rfl

/-- A tiny build, whatever else it defines. -/
example : (Build.mk ⟨true, true, false, false, false, false, true, false⟩ true true).script
    (.call (.registerSuite none) (.protect (.call .abort .done) (.run .all fun _ => .done))) =
    .call .abort .done :=
  rfl

end PolyOnTest.Run
