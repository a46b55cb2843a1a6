import PolyOnTest.CodeLib.Trace
import PolyOnTest.Harness.Links

/-!
# The lock hooks

`Runner` says which messages a run sends.  This module is the same code with
the calls of the lock hooks and of the writer, and with the control flow that
`Runner` leaves out: `pot_abort` may leave a function, a fixture or a whole run by a
`longjmp`, and test code may call the harness in any way, also for another run.

`pt_lock` and `pt_unlock` are called in four places: in `emit_raw`, and around
the flags in `pot_fail_at`, `pot_ignore` and `pot_abort`.

What a function of the test binary does is a `Script`, which may depend on the state
of the test code.  A run enters functions and a script may start a run, so `exec` has
fuel, one unit for each function that is entered from another one.  A run that is out
of fuel is left at once, so its trace is the first part of the whole one.
-/

namespace PolyOnTest.Harness

open CodeLib CodeLib.CMemory CodeLib.Trace

/-- What the hooks, the writer and the test binary see. -/
inductive HookStep
  | lock
  | unlock
  | write (data : List UInt8)
  | enter (hook : Hook) (f : FnId)
  | longjmp
  deriving DecidableEq

/-- The ways in which code is left before its end. -/
inductive Left
  | longjmp
  | exit
  | fuel
  deriving DecidableEq

/-- `POT_EMIT_TEXT` and `POT_CFG_HAS_PROTECT`, and whether `g_lock` and `g_unlock`
are set. -/
structure Setup where
  mode : Mode
  protect : Bool
  lock : Bool
  unlock : Bool
  deriving DecidableEq

/-- What a function of the test binary does.  `pot_protect` returns 1, and after
a `longjmp` it returns 0: what the function does in each case, up to its end.  What
follows a run depends on the value that the run returns. -/
inductive Script
  | done
  | call (c : Call) (next : Script)
  | protect (one zero : Script)
  | run (e : Entry) (next : Nat → Script)
  | runFromEnv (v : Vars) (next : Nat → Script)

/-- A list of calls, such as `Assertion.calls`, and what follows. -/
def Script.calls (cs : List Call) (next : Script) : Script := cs.foldr .call next

/-- A test binary: what its functions do, and its section cases. -/
structure TestBinary (ω : Type) where
  code : FnId → ω → Script × ω
  potInfo : List Case

/-- The part of the binary that `prepare` and `discovered` read. -/
def TestBinary.sections {ω : Type} (b : TestBinary ω) : Program ω where
  code _ w := ([], w)
  potInfo := b.potInfo

/-- A test binary whose functions make calls and nothing else. -/
def Program.binary {ω : Type} (p : Program ω) : TestBinary ω where
  code f w := (.calls (p.code f w).1 .done, (p.code f w).2)
  potInfo := p.potInfo

/-- Code of the harness with its trace of hooks. -/
abbrev Hooked (ω α : Type) : Type := Traced HookStep (Sys ω) Left α

namespace Hooks

variable {ω : Type} (k : Setup)

/-! ## Locks and output -/

/-- `pt_lock` -/
def ptLock : Hooked ω Unit := if k.lock then log .lock else pure ()

/-- `pt_unlock` -/
def ptUnlock : Hooked ω Unit := if k.unlock then log .unlock else pure ()

/-- `emit_raw` -/
def emitRaw (data : List UInt8) : Hooked ω Unit := do
  ptLock k
  log (.write data)
  ptUnlock k

/-- `emit_line` or `emit_msg` for a message. -/
def say (m : Msg) : Hooked ω Unit := do
  change fun s => s.say m
  (emit k.mode m).forM (emitRaw k)

/-! ## Calls of test code -/

/-- `pot_fail_at` -/
def potFailAt (file : Option CStr) (line : Int32) (message : Option CStr) : Hooked ω Unit := do
  let s ← read
  ptLock k
  change fun s => { s with g := { s.g with currentFailed := true } }
  ptUnlock k
  say k (.assertFail s.g.cur file line (messageWithParam s.g message))

/-- `pot_ignore` -/
def potIgnore (message : Option CStr) : Hooked ω Unit := do
  ptLock k
  change fun s => { s with g := { s.g with currentSkipped := true } }
  ptUnlock k
  let s ← read
  match message with
  | some text => if text.bytes ≠ [] then say k (.ignored s.g.cur text) else pure ()
  | none => pure ()

/-- `pot_abort` -/
def potAbort : Hooked ω Unit := do
  ptLock k
  change fun s => { s with g := { s.g with currentFailed := true } }
  ptUnlock k
  let s ← read
  if k.protect ∧ s.g.protectActive then do
    log .longjmp
    leave .longjmp
  else pure ()

/-- `pot_protect`, with what follows for both of its values.  A jump returns into the
innermost function that called it and has not ended; where there is none, C leaves open
what follows, and here everything is left. -/
def potProtect (one zero : Hooked ω Unit) : Hooked ω Unit :=
  if k.protect then do
    change fun s => { s with g := { s.g with protectActive := true } }
    catching one fun
      | .longjmp => do
          change fun s => { s with g := { s.g with protectActive := false } }
          zero
      | x => leave x
  else one

/-- A public function that starts no run, and what follows. -/
def call (c : Call) (next : Hooked ω Unit) : Hooked ω Unit := do
  change fun s => { s with trace := s.trace ++ [.call c] }
  match c with
  | .failAt file line message => do
      potFailAt k file line message
      next
  | .ignore message => do
      potIgnore k message
      next
  | .abort => do
      potAbort k
      next
  | .protect => potProtect k next next
  | c => do
      change fun s => { s with g := c.effect s.g }
      next

/-! ## `run_filtered` -/

variable (b : TestBinary ω) (go : Script → Hooked ω Unit)

/-- Enters a function of the test binary, unless the pointer is NULL. -/
def enter (hook : Hook) (f : Option FnId) : Hooked ω Unit :=
  match f with
  | none => pure ()
  | some f => do
      log (.enter hook f)
      let s ← read
      change fun s =>
        { s with world := (b.code f s.world).2, trace := s.trace ++ [.enter hook f] }
      go (b.code f s.world).1

/-- `close_suite` -/
def closeSuite (o : Open) : Hooked ω Unit :=
  match o.suite with
  | none => pure ()
  | some _ => do
      let s ← read
      enter b go .suiteTeardown ((findSuite s.g.env.reg o.suite).bind Suite.teardown)
      say k (.suiteEnd o.suite o.passed o.failed o.skipped)

/-- `open_suite_emit` -/
def openSuiteEmit (name : Option CStr) : Hooked ω Unit := do
  let s ← read
  enter b go .suiteSetup ((findSuite s.g.env.reg name).bind Suite.setup)
  say k (.suiteStart name)

/-- The block of `run_filtered` that runs a case between its group fixtures. -/
def runBody (t : Case) : Hooked ω Unit := do
  let s ← read
  let g := findGroup s.g.env.reg t.suite t.group
  enter b go .groupSetup (g.bind Group.setup)
  enter b go .body t.fn
  enter b go .groupTeardown (g.bind Group.teardown)

/-- The part of the loop body that closes and opens suites. -/
def switchSuite (t : Case) (o : Open) : Hooked ω Open :=
  if strCmp o.suite t.suite ≠ .eq then do
    closeSuite k b go o
    openSuiteEmit k b go t.suite
    pure ⟨t.suite, 0, 0, 0⟩
  else pure o

/-- The part of the loop body that runs a case. -/
def runCase (t : Case) (o : Open) : Hooked ω Open := do
  change fun s => s.begin t
  say k (.caseStart t.id)
  runBody b go t
  let s ← read
  change fun s => s.count s.status
  say k (.caseEnd t.id s.status)
  pure (o.count s.status)

/-- The loop body. -/
def loopBody (sel : Env → Case → Bool) (o : Open) (t : Case) : Hooked ω Open := do
  let s ← read
  if sel s.g.env t then do
    let o ← switchSuite k b go t o
    runCase k b go t o
  else pure o

/-- `run_filtered` -/
def runFiltered (sel : Env → Case → Bool) : Hooked ω Nat := do
  change fun s => prepare b.sections s
  say k .banner
  let s ← read
  let o ← s.g.env.reg.tests.foldlM (loopBody k b go sel) ⟨none, 0, 0, 0⟩
  closeSuite k b go o
  let s ← read
  say k (.done s.g.passed s.g.failed s.g.skipped)
  pure (if s.g.failed ≠ 0 then 1 else 0)

/-! ## The public functions that start a run -/

/-- `pot_run_all`, `pot_run_tag`, `pot_run_suite`, `pot_run_group` and
`pot_run_case` -/
def run (e : Entry) : Hooked ω Nat := do
  change fun s => e.filters s
  runFiltered k b go e.matcher.sel

/-- The entry point that the cascade of `pot_run_from_env` takes. -/
def cascadeEntry (v : Vars) : Entry :=
  if (nonEmpty v.suite).isSome ∧ (nonEmpty v.group).isSome ∧ (nonEmpty v.case).isSome then
    .case v.suite v.group v.case
  else if (nonEmpty v.tag).isSome then .tag v.tag
  else if (nonEmpty v.suite).isSome ∧ (nonEmpty v.group).isSome then .group v.suite v.group
  else if (nonEmpty v.suite).isSome then .suite v.suite
  else .all

/-- `pot_run_from_env` -/
def runFromEnv (v : Vars) : Hooked ω Nat :=
  if v.discover.isSome then do
    let s ← read
    ((discovered b.sections v s).flatMap fun t => emitLine (discoverLine t)).forM (emitRaw k)
    leave .exit
  else run k b go (cascadeEntry v)

/-! ## Test code -/

/-- What a function of the test binary does, where `go` is what the functions do
that it enters by a run. -/
def interp : Script → Hooked ω Unit
  | .done => pure ()
  | .call c next => call k c (interp next)
  | .protect one zero => potProtect k (interp one) (interp zero)
  | .run e next => do
      let returned ← run k b go e
      interp (next returned)
  | .runFromEnv v next => do
      let returned ← runFromEnv k b go v
      interp (next returned)

/-- The same with fuel. -/
def exec : Nat → Script → Hooked ω Unit
  | 0, _ => leave .fuel
  | n + 1, script => interp k b (exec n) script

/-- The calls of the hooks and of the writer, the functions that are entered and the
`longjmp`s, in their order. -/
def hookTrace (n : Nat) (main : Script) (s : Sys ω) : List HookStep := (exec k b n main s).2.2

end Hooks

end PolyOnTest.Harness
