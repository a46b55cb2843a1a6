import PolyOnTest.Harness.Registry

/-!
# The runner

The state and the control flow of `polytest_core.c`: the calls that test code
may make, `run_filtered` with its suite and case brackets, the entry points, and
`pot_run_from_env`.

Test code is a parameter.  A function of the test binary makes a list of calls
of the harness, which may depend on a state of its own (the type `ω`), so it may
behave in another way each time.  The list has the calls in the order in which
the function makes them; calls that a `longjmp` skips are not in it.

The harness leaves a trace: the cases that it takes, the functions that it
enters, the calls that they make and the messages that it emits.
-/

namespace PolyOnTest.Harness

open CodeLib CodeLib.CMemory

/-! ## State -/

/-- What a match function reads: the registry, `g_filter_group` and
`g_filter_case`. -/
structure Env where
  reg : Registry
  filterGroup : Option CStr
  filterCase : Option CStr
  deriving DecidableEq

/-- The globals of `polytest_core.c`.  The pointer `g_param` is the address of a row. -/
structure Globals where
  env : Env
  currentFailed : Bool
  currentSkipped : Bool
  passed : UInt32
  failed : UInt32
  skipped : UInt32
  cur : CaseId
  paramActive : Bool
  paramIndex : UInt64
  param : Option Nat
  protectActive : Bool
  deriving DecidableEq

/-- The globals when the process starts. -/
def Globals.init : Globals where
  env := ⟨⟨[], [], []⟩, none, none⟩
  currentFailed := false
  currentSkipped := false
  passed := 0
  failed := 0
  skipped := 0
  cur := ⟨none, none, none⟩
  paramActive := false
  paramIndex := 0
  param := none
  protectActive := false

/-- A call that test code makes. -/
inductive Call
  | failAt (file : Option CStr) (line : Int32) (message : Option CStr)
  | ignore (message : Option CStr)
  | protect
  | abort
  | setParam (index : UInt64) (param : Option Nat)
  | clearParam
  | register (t : Option Case)
  | registerSuite (s : Option Suite)
  | registerGroup (g : Option Group)
  deriving DecidableEq

/-- The kinds of functions that a run enters. -/
inductive Hook
  | suiteSetup
  | suiteTeardown
  | groupSetup
  | groupTeardown
  | body
  deriving DecidableEq, Repr

/-- One entry of the trace. -/
inductive Step
  | take (t : Case)
  | enter (hook : Hook) (f : FnId)
  | call (c : Call)
  | msg (m : Msg)
  deriving DecidableEq

/-- A test binary: what its functions do, and the cases of its `.pot_info`
section (none without a section registry). -/
structure Program (ω : Type) where
  code : FnId → ω → List Call × ω
  potInfo : List Case

/-- The harness, the state of the test code, and the trace. -/
structure Sys (ω : Type) where
  g : Globals
  world : ω
  trace : List Step

variable {ω : Type}

/-! ## Calls of test code -/

/-- `message_with_param` with the buffer of 192 bytes of `pot_fail_at`. -/
def messageWithParam (g : Globals) (message : Option CStr) : CStr :=
  let base := message.getD (CStr.lit "fail")
  if g.paramActive then
    (build 192 [.str (some base), litFrag " [param=", .u32 g.paramIndex.toUInt32,
      litFrag "]"]).cstr
  else base

/-- What a call does to the globals.  A `pot_abort` under `pot_protect` jumps
back into the latter, which clears the mark. -/
def Call.effect (g : Globals) : Call → Globals
  | .failAt .. => { g with currentFailed := true }
  | .ignore _ => { g with currentSkipped := true }
  | .protect => { g with protectActive := true }
  | .abort => { g with currentFailed := true, protectActive := false }
  | .setParam index param =>
      { g with paramIndex := index, param := param, paramActive := true }
  | .clearParam => { g with paramIndex := 0, param := none, paramActive := false }
  | .register t => { g with env := { g.env with reg := g.env.reg.register t } }
  | .registerSuite s =>
      { g with env := { g.env with reg := g.env.reg.registerSuite s } }
  | .registerGroup u =>
      { g with env := { g.env with reg := g.env.reg.registerGroup u } }

/-- The messages of a call. -/
def Call.msgs (g : Globals) : Call → List Msg
  | .failAt file line message =>
      [.assertFail g.cur file line (messageWithParam g message)]
  | .ignore (some message) =>
      if message.bytes ≠ [] then [.ignored g.cur message] else []
  | _ => []

namespace Sys

/-- Emits a message. -/
def say (s : Sys ω) (m : Msg) : Sys ω := { s with trace := s.trace ++ [.msg m] }

/-- One call of test code. -/
def call (s : Sys ω) (c : Call) : Sys ω where
  g := c.effect s.g
  world := s.world
  trace := s.trace ++ .call c :: (c.msgs s.g).map .msg

/-- Enters a function of the test binary, unless the pointer is NULL. -/
def enter (p : Program ω) (hook : Hook) (f : Option FnId) (s : Sys ω) : Sys ω :=
  match f with
  | none => s
  | some f =>
      (p.code f s.world).1.foldl call
        { s with
          world := (p.code f s.world).2
          trace := s.trace ++ [.enter hook f] }

/-- The assignments in front of a case. -/
def begin (s : Sys ω) (t : Case) : Sys ω where
  g := { s.g with cur := t.id, currentFailed := false, currentSkipped := false }
  world := s.world
  trace := s.trace ++ [.take t]

/-- The status that the flags stand for.  A skip wins over a failure. -/
def status (s : Sys ω) : TestStatus :=
  if s.g.currentSkipped then .skipped
  else if s.g.currentFailed then .failed
  else .passed

/-- The run counters after a case. -/
def count (s : Sys ω) : TestStatus → Sys ω
  | .passed => { s with g := { s.g with passed := s.g.passed + 1 } }
  | .failed => { s with g := { s.g with failed := s.g.failed + 1 } }
  | .skipped => { s with g := { s.g with skipped := s.g.skipped + 1 } }

end Sys

/-! ## `run_filtered` -/

/-- The locals `open_suite`, `suite_passed`, `suite_failed`, `suite_skipped`. -/
structure Open where
  suite : Option CStr
  passed : UInt32
  failed : UInt32
  skipped : UInt32
  deriving DecidableEq

/-- The suite counters after a case. -/
def Open.count (o : Open) : TestStatus → Open
  | .passed => { o with passed := o.passed + 1 }
  | .failed => { o with failed := o.failed + 1 }
  | .skipped => { o with skipped := o.skipped + 1 }

/-- `close_suite`. -/
def closeSuite (p : Program ω) (o : Open) (s : Sys ω) : Sys ω :=
  match o.suite with
  | none => s
  | some _ =>
      let s := s.enter p .suiteTeardown
        ((findSuite s.g.env.reg o.suite).bind Suite.teardown)
      s.say (.suiteEnd o.suite o.passed o.failed o.skipped)

/-- `open_suite_emit`. -/
def openSuiteEmit (p : Program ω) (name : Option CStr) (s : Sys ω) : Sys ω :=
  let s := s.enter p .suiteSetup ((findSuite s.g.env.reg name).bind Suite.setup)
  s.say (.suiteStart name)

/-- The block of `run_filtered` that runs a case between its group fixtures. -/
def runBody (p : Program ω) (t : Case) (s : Sys ω) : Sys ω :=
  let g := findGroup s.g.env.reg t.suite t.group
  let s := s.enter p .groupSetup (g.bind Group.setup)
  let s := s.enter p .body t.fn
  s.enter p .groupTeardown (g.bind Group.teardown)

/-- The part of the loop body that closes and opens suites. -/
def switchSuite (p : Program ω) (t : Case) (x : Sys ω × Open) : Sys ω × Open :=
  if strCmp x.2.suite t.suite ≠ .eq then
    (openSuiteEmit p t.suite (closeSuite p x.2 x.1), ⟨t.suite, 0, 0, 0⟩)
  else x

/-- The part of the loop body that runs a case. -/
def runCase (p : Program ω) (t : Case) (x : Sys ω × Open) : Sys ω × Open :=
  let s := runBody p t ((x.1.begin t).say (.caseStart t.id))
  ((s.count s.status).say (.caseEnd t.id s.status), x.2.count s.status)

/-- The loop body. -/
def loopBody (p : Program ω) (sel : Env → Case → Bool) (x : Sys ω × Open)
    (t : Case) : Sys ω × Open :=
  if sel x.1.g.env t then runCase p t (switchSuite p t x) else x

/-- `pot_collect_section_cases`. -/
def collectSectionCases (p : Program ω) (reg : Registry) : Registry :=
  p.potInfo.foldl (fun reg t => reg.register (some t)) reg

/-- Section cases bring no fixtures. -/
theorem collect_keeps (p : Program ω) (reg : Registry) :
    (collectSectionCases p reg).suites = reg.suites ∧
      (collectSectionCases p reg).groups = reg.groups := by
  unfold collectSectionCases
  induction p.potInfo generalizing reg with
  | nil => exact ⟨rfl, rfl⟩
  | cons t ts ih =>
      obtain ⟨hsuites, hgroups⟩ := register_other reg (some t)
      rw [List.foldl_cons, (ih _).1, (ih _).2]
      exact ⟨hsuites, hgroups⟩

theorem collect_suites (p : Program ω) (reg : Registry) :
    (collectSectionCases p reg).suites = reg.suites := (collect_keeps p reg).1

theorem collect_groups (p : Program ω) (reg : Registry) :
    (collectSectionCases p reg).groups = reg.groups := (collect_keeps p reg).2

/-- The state in front of the loop: section cases collected, list sorted,
counters cleared. -/
def prepare (p : Program ω) (s : Sys ω) : Sys ω :=
  let reg := collectSectionCases p s.g.env.reg
  { s with
    g :=
      { s.g with
        env := { s.g.env with reg := { reg with tests := sortCases reg.tests } }
        passed := 0
        failed := 0
        skipped := 0 } }

/-- `run_filtered`: the state behind it and the value that it returns. -/
def runFiltered (p : Program ω) (sel : Env → Case → Bool) (s : Sys ω) :
    Sys ω × Nat :=
  let s := (prepare p s).say .banner
  let x := s.g.env.reg.tests.foldl (loopBody p sel) (s, ⟨none, 0, 0, 0⟩)
  let s := closeSuite p x.2 x.1
  (s.say (.done s.g.passed s.g.failed s.g.skipped), if s.g.failed ≠ 0 then 1 else 0)

/-! ## Entry points -/

/-- `match_all`. -/
def matchAll (_ : Env) (_ : Case) : Bool := true

/-- `match_suite`. -/
def matchSuite (suite : CStr) (_ : Env) (t : Case) : Bool :=
  strCmp t.suite (some suite) = .eq

/-- `match_group`. -/
def matchGroup (suite : CStr) (env : Env) (t : Case) : Bool :=
  env.filterGroup.isSome && strCmp t.suite (some suite) = .eq &&
    strCmp t.group env.filterGroup = .eq

/-- `match_case`. -/
def matchCase (suite : CStr) (env : Env) (t : Case) : Bool :=
  env.filterGroup.isSome && env.filterCase.isSome &&
    strCmp t.suite (some suite) = .eq && strCmp t.group env.filterGroup = .eq &&
    strCmp t.name env.filterCase = .eq

/-- `match_tag`. -/
def matchTag (tag : CStr) (env : Env) (t : Case) : Bool :=
  caseMatchesTag env.reg t (some tag)

/-- The test `s && s[0]`. -/
def nonEmpty (s : Option CStr) : Option CStr :=
  s.filter fun s => s.bytes ≠ []

/-- `pot_run_all`. -/
def potRunAll (p : Program ω) (s : Sys ω) : Sys ω × Nat := runFiltered p matchAll s

/-- `pot_run_tag`. -/
def potRunTag (p : Program ω) (tag : Option CStr) (s : Sys ω) : Sys ω × Nat :=
  match tag with
  | none => potRunAll p s
  | some tag => runFiltered p (matchTag tag) s

/-- `pot_run_suite`. -/
def potRunSuite (p : Program ω) (suite : Option CStr) (s : Sys ω) : Sys ω × Nat :=
  match nonEmpty suite with
  | none => potRunAll p s
  | some suite => runFiltered p (matchSuite suite) s

/-- The assignments of `g_filter_group` and `g_filter_case`. -/
def Sys.setFilter (s : Sys ω) (group name : Option CStr) : Sys ω :=
  { s with
    g := { s.g with env := { s.g.env with filterGroup := group, filterCase := name } } }

/-- `pot_run_group`. -/
def potRunGroup (p : Program ω) (suite group : Option CStr) (s : Sys ω) :
    Sys ω × Nat :=
  match nonEmpty suite, nonEmpty group with
  | some suite, some group =>
      runFiltered p (matchGroup suite)
        (s.setFilter (some group) s.g.env.filterCase)
  | _, _ => potRunAll p s

/-- `pot_run_case`. -/
def potRunCase (p : Program ω) (suite group name : Option CStr) (s : Sys ω) :
    Sys ω × Nat :=
  match nonEmpty suite, nonEmpty group, nonEmpty name with
  | some suite, some group, some name =>
      runFiltered p (matchCase suite) (s.setFilter (some group) (some name))
  | _, _, _ => potRunAll p s

/-- The public functions that start a run, with their arguments. -/
inductive Entry
  | all
  | tag (tag : Option CStr)
  | suite (suite : Option CStr)
  | group (suite group : Option CStr)
  | case (suite group name : Option CStr)
  deriving DecidableEq

def Entry.run (p : Program ω) : Entry → Sys ω → Sys ω × Nat
  | .all => potRunAll p
  | .tag t => potRunTag p t
  | .suite u => potRunSuite p u
  | .group u g => potRunGroup p u g
  | .case u g n => potRunCase p u g n

/-! ## `pot_run_from_env` -/

/-- The environment variables that `pot_run_from_env` reads. -/
structure Vars where
  discover : Option CStr
  tag : Option CStr
  suite : Option CStr
  group : Option CStr
  case : Option CStr
  deriving DecidableEq

/-- The test of `POT_TAG` in the discovery loop. -/
def passesTag (reg : Registry) (v : Vars) (t : Case) : Bool :=
  match nonEmpty v.tag with
  | some tag => caseMatchesTag reg t (some tag)
  | none => true

/-- The test of `POT_SUITE` in the discovery loop. -/
def passesSuite (v : Vars) (t : Case) : Bool :=
  match nonEmpty v.suite with
  | some suite => strCmp t.suite (some suite) = .eq
  | none => true

/-- The test of `POT_GROUP` in the discovery loop. -/
def passesGroup (v : Vars) (t : Case) : Bool :=
  match nonEmpty v.group with
  | some group => strCmp t.group (some group) = .eq
  | none => true

/-- The three tests of the discovery loop. -/
def discoverSelects (reg : Registry) (v : Vars) (t : Case) : Bool :=
  passesTag reg v t && passesSuite v t && passesGroup v t

/-- The line of the discovery loop for a case. -/
def discoverLine (t : Case) : CStr :=
  (build 256 [litFrag "list-case:", nameFrag t.suite, litFrag ".", nameFrag t.group,
    litFrag ".", nameFrag t.name]).cstr

/-- The cases that the discovery loop lists.  The sorted list stays local: only
the section cases are added to the registry. -/
def discovered (p : Program ω) (v : Vars) (s : Sys ω) : List Case :=
  let reg := collectSectionCases p s.g.env.reg
  (sortCases reg.tests).filter (discoverSelects reg v)

/-- What `pot_run_from_env` does: it writes a list and exits with status 0, or
it runs. -/
inductive FromEnv (ω : Type)
  | listed (writes : List (List UInt8))
  | ran (result : Sys ω × Nat)

/-- The cascade behind the discovery path. -/
def cascade (p : Program ω) (v : Vars) (s : Sys ω) : Sys ω × Nat :=
  if (nonEmpty v.suite).isSome ∧ (nonEmpty v.group).isSome ∧
      (nonEmpty v.case).isSome then
    potRunCase p v.suite v.group v.case s
  else if (nonEmpty v.tag).isSome then potRunTag p v.tag s
  else if (nonEmpty v.suite).isSome ∧ (nonEmpty v.group).isSome then
    potRunGroup p v.suite v.group s
  else if (nonEmpty v.suite).isSome then potRunSuite p v.suite s
  else potRunAll p s

/-- `pot_run_from_env`. -/
def potRunFromEnv (p : Program ω) (v : Vars) (s : Sys ω) : FromEnv ω :=
  if v.discover.isSome then
    .listed ((discovered p v s).flatMap fun t => emitLine (discoverLine t))
  else .ran (cascade p v s)

/-! ## What a trace shows -/

/-- The bytes that the messages of a trace write in a mode. -/
def output (mode : Mode) (trace : List Step) : List UInt8 :=
  trace.flatMap fun
    | .msg m => (emit mode m).flatten
    | _ => []

/-- The cases that a run executed. -/
def executed (trace : List Step) : List Case :=
  trace.filterMap fun
    | .take t => some t
    | _ => none

/-- The messages of a trace. -/
def messages (trace : List Step) : List Msg :=
  trace.filterMap fun
    | .msg m => some m
    | _ => none

/-- The calls in a trace. -/
def calls (trace : List Step) : List Call :=
  trace.filterMap fun
    | .call c => some c
    | _ => none

end PolyOnTest.Harness
