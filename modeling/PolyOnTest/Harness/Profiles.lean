import PolyOnTest.Harness.Hooks

/-!
# Size profiles

The macros of `polytest_profile.h`, and `polytest_core.c` as the preprocessor leaves it
for them.  `Hooks` is the code with everything switched on.  Here are the functions
that have an `#if` in them, in the order of `Hooks`; the others come from there.
-/

namespace PolyOnTest.Harness

open CodeLib CodeLib.CMemory CodeLib.Trace

/-! ## The macros -/

/-- The macros that the command line of a build may define. -/
structure Defines where
  profileTiny : Bool
  profileSmall : Bool
  profileFull : Bool
  minimalPrint : Bool
  excludeFloat : Bool
  noLongjmp : Bool
  useHeap : Bool
  freestanding : Bool
  deriving DecidableEq

/-- `POT_PROFILE_ACTIVE_TINY`, `POT_PROFILE_ACTIVE_SMALL` and
`POT_PROFILE_ACTIVE_FULL` -/
inductive Profile
  | tiny
  | small
  | full
  deriving DecidableEq

/-- The macros behind `polytest_profile.h`. -/
structure Config where
  cobs : Bool
  tags : Bool
  fixtures : Bool
  float : Bool
  protect : Bool
  mutex : Bool
  extendedAsserts : Bool
  heap : Bool
  minimalPrint : Bool
  excludeFloat : Bool
  noLongjmp : Bool
  deriving DecidableEq

/-- The first block of the header. -/
def Defines.profile (d : Defines) : Profile :=
  if d.profileTiny then .tiny
  else if d.profileSmall then .small
  else if d.profileFull then .full
  else .full

/-- The block of the active profile, and `POT_CFG_HAS_HEAP`. -/
def Defines.derive (d : Defines) : Config :=
  match d.profile with
  | .tiny =>
      { cobs := false
        tags := false
        fixtures := false
        float := false
        protect := false
        mutex := false
        extendedAsserts := false
        heap := d.useHeap
        minimalPrint := true
        excludeFloat := true
        noLongjmp := true }
  | .small =>
      { cobs := !d.minimalPrint
        tags := true
        fixtures := true
        -- the block defines `POT_EXCLUDE_FLOAT` before it tests it
        float := false
        protect := !d.noLongjmp
        mutex := false
        extendedAsserts := true
        heap := d.useHeap
        minimalPrint := d.minimalPrint
        excludeFloat := true
        noLongjmp := d.noLongjmp }
  | .full =>
      { cobs := !d.minimalPrint
        tags := true
        fixtures := true
        float := !d.excludeFloat
        protect := !d.noLongjmp
        mutex := true
        extendedAsserts := true
        heap := d.useHeap
        minimalPrint := d.minimalPrint
        excludeFloat := d.excludeFloat
        noLongjmp := d.noLongjmp }

/-- The header: the three blocks at its end define a knob whose feature is off. -/
def Defines.config (d : Defines) : Config :=
  let c := d.derive
  { c with
    excludeFloat := c.excludeFloat || !c.float
    noLongjmp := c.noLongjmp || !c.protect
    minimalPrint := c.minimalPrint || !c.cobs }

/-- Behind the header a knob is defined exactly where its feature is off. -/
theorem Defines.config_knobs (d : Defines) :
    d.config.minimalPrint = !d.config.cobs ∧ d.config.excludeFloat = !d.config.float ∧
      d.config.noLongjmp = !d.config.protect := by
  unfold Defines.config Defines.derive
  cases d.profile with
  | tiny => exact ⟨rfl, rfl, rfl⟩
  | small => simp
  | full => simp

/-- No knob brings a feature back into the tiny profile. -/
theorem Defines.config_tiny {d : Defines} (h : d.profileTiny = true) :
    d.config = ⟨false, false, false, false, false, false, false, d.useHeap, true, true, true⟩ := by
  have hprofile : d.profile = .tiny := by rw [Defines.profile, if_pos h]
  unfold Defines.config Defines.derive
  rw [hprofile]
  rfl

/-- The macros of a build, and whether the program sets `g_lock` and `g_unlock` where
there is a `pot_set_locks`. -/
structure Build where
  defines : Defines
  lock : Bool
  unlock : Bool
  deriving DecidableEq

namespace Build

variable {ω : Type} (bd : Build)

/-- The macros behind the header. -/
def config : Config := bd.defines.config

/-- What `Hooks` knows of a build.  `POT_EMIT_TEXT` is set without COBS or with
`POT_MINIMAL_PRINT`, and `pt_lock` is empty without a mutex. -/
def setup : Setup where
  mode := if !bd.config.cobs || bd.config.minimalPrint then .text else .binary
  protect := bd.config.protect
  lock := bd.config.mutex && bd.lock
  unlock := bd.config.mutex && bd.unlock

/-- A build writes text exactly where it has no COBS. -/
theorem setup_mode : bd.setup.mode = if bd.config.cobs then .binary else .text := by
  have hknob : bd.config.minimalPrint = !bd.config.cobs := bd.defines.config_knobs.1
  unfold setup
  rw [hknob]
  cases bd.config.cobs with
  | false => rfl
  | true => rfl

/-! ## Registration and lookup -/

/-- A public function that starts no run, and what follows.  Without fixtures
`pot_register_suite` and `pot_register_group` have empty bodies. -/
def call (c : Call) (next : Hooked ω Unit) : Hooked ω Unit :=
  match c with
  | .registerSuite s =>
      if bd.config.fixtures then Hooks.call bd.setup (.registerSuite s) next
      else do
        change fun x => { x with trace := x.trace ++ [.call (.registerSuite s)] }
        next
  | .registerGroup g =>
      if bd.config.fixtures then Hooks.call bd.setup (.registerGroup g) next
      else do
        change fun x => { x with trace := x.trace ++ [.call (.registerGroup g)] }
        next
  | c => Hooks.call bd.setup c next

/-- `find_suite` where it is compiled. -/
def findSuite (reg : Registry) (name : Option CStr) : Option Suite :=
  if bd.config.fixtures then Harness.findSuite reg name else none

/-- `find_group` where it is compiled. -/
def findGroup (reg : Registry) (suite group : Option CStr) : Option Group :=
  if bd.config.fixtures then Harness.findGroup reg suite group else none

/-- `case_matches_tag` where it is compiled. -/
def caseMatchesTag (reg : Registry) (t : Case) (tag : Option CStr) : Bool :=
  tagsContain t.tags tag ||
    ((bd.findSuite reg t.suite).any fun s => tagsContain s.tags tag) ||
    ((bd.findGroup reg t.suite t.group).any fun g => tagsContain g.tags tag)

/-- The function and the string that `run_filtered` gets.  Without tags `pot_run_tag`
is `pot_run_all`. -/
def matcher (e : Entry) : Matcher :=
  match e with
  | .tag tag => if bd.config.tags then Entry.matcher (.tag tag) else .all
  | e => e.matcher

/-- The function on a case. -/
def sel (m : Matcher) : Env → Case → Bool :=
  match m with
  | .tag u => fun env t => bd.caseMatchesTag env.reg t (some u)
  | m => m.sel

/-! ## `run_filtered` -/

variable (b : TestBinary ω) (go : Script → Hooked ω Unit)

/-- `close_suite` -/
def closeSuite (o : Open) : Hooked ω Unit :=
  match o.suite with
  | none => pure ()
  | some _ => do
      let s ← read
      Hooks.enter b go .suiteTeardown ((bd.findSuite s.g.env.reg o.suite).bind Suite.teardown)
      Hooks.say bd.setup (.suiteEnd o.suite o.passed o.failed o.skipped)

/-- `open_suite_emit` -/
def openSuiteEmit (name : Option CStr) : Hooked ω Unit := do
  let s ← read
  Hooks.enter b go .suiteSetup ((bd.findSuite s.g.env.reg name).bind Suite.setup)
  Hooks.say bd.setup (.suiteStart name)

/-- The block of `run_filtered` that runs a case. -/
def runBody (t : Case) : Hooked ω Unit := do
  let s ← read
  let g := bd.findGroup s.g.env.reg t.suite t.group
  Hooks.enter b go .groupSetup (g.bind Group.setup)
  Hooks.enter b go .body t.fn
  Hooks.enter b go .groupTeardown (g.bind Group.teardown)

/-- The part of the loop body that closes and opens suites. -/
def switchSuite (t : Case) (o : Open) : Hooked ω Open :=
  if strCmp o.suite t.suite ≠ .eq then do
    bd.closeSuite b go o
    bd.openSuiteEmit b go t.suite
    pure ⟨t.suite, 0, 0, 0⟩
  else pure o

/-- The part of the loop body that runs a case. -/
def runCase (t : Case) (o : Open) : Hooked ω Open := do
  change fun s => s.begin t
  Hooks.say bd.setup (.caseStart t.id)
  bd.runBody b go t
  let s ← read
  change fun s => s.count s.status
  Hooks.say bd.setup (.caseEnd t.id s.status)
  pure (o.count s.status)

/-- The loop body. -/
def loopBody (sel : Env → Case → Bool) (o : Open) (t : Case) : Hooked ω Open := do
  let s ← read
  if sel s.g.env t then do
    let o ← bd.switchSuite b go t o
    bd.runCase b go t o
  else pure o

/-- `run_filtered` -/
def runFiltered (sel : Env → Case → Bool) : Hooked ω Nat := do
  change fun s => prepare b.sections s
  Hooks.say bd.setup .banner
  let s ← read
  let o ← s.g.env.reg.tests.foldlM (bd.loopBody b go sel) ⟨none, 0, 0, 0⟩
  bd.closeSuite b go o
  let s ← read
  Hooks.say bd.setup (.done s.g.passed s.g.failed s.g.skipped)
  pure (if s.g.failed ≠ 0 then 1 else 0)

/-! ## The public functions that start a run -/

/-- `pot_run_all`, `pot_run_tag`, `pot_run_suite`, `pot_run_group` and
`pot_run_case` -/
def run (e : Entry) : Hooked ω Nat := do
  change fun s => e.filters s
  bd.runFiltered b go (bd.sel (bd.matcher e))

/-- The test of `POT_TAG` in the discovery loop, where it is compiled. -/
def passesTag (reg : Registry) (v : Vars) (t : Case) : Bool :=
  if bd.config.tags then
    match nonEmpty v.tag with
    | some tag => bd.caseMatchesTag reg t (some tag)
    | none => true
  else true

/-- The cases that the discovery loop lists. -/
def discovered (v : Vars) (s : Sys ω) : List Case :=
  let reg := collectSectionCases b.sections s.g.env.reg
  (sortCases reg.tests).filter fun t =>
    bd.passesTag reg v t && passesSuite v t && passesGroup v t

/-- `pot_run_from_env` -/
def runFromEnv (v : Vars) : Hooked ω Nat :=
  if bd.defines.freestanding then bd.run b go .all
  else if v.discover.isSome then do
    let s ← read
    ((bd.discovered b v s).flatMap fun t => emitLine (discoverLine t)).forM
      (Hooks.emitRaw bd.setup)
    leave .exit
  else bd.run b go (Hooks.cascadeEntry v)

/-! ## Test code -/

/-- What a function of the test binary does, where `go` is what the functions do
that it enters by a run. -/
def interp : Script → Hooked ω Unit
  | .done => pure ()
  | .call c next => bd.call c (interp next)
  | .protect one zero => Hooks.potProtect bd.setup (interp one) (interp zero)
  | .run e next => do
      let returned ← bd.run b go e
      interp (next returned)
  | .runFromEnv v next => do
      let returned ← bd.runFromEnv b go v
      interp (next returned)

/-- The same with fuel. -/
def exec : Nat → Script → Hooked ω Unit
  | 0, _ => leave .fuel
  | n + 1, script => bd.interp b (exec n) script

end Build

end PolyOnTest.Harness
