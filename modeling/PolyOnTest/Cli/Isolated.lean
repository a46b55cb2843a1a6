import PolyOnTest.Cli.Stream
import PolyOnTest.CodeLib.Text

/-!
# Isolated runs

`run_isolated`: the test binary lists its cases, and then each case runs in a
process of its own.  A thread reads the output of the process and sends the
events to the main loop, which forwards them to the reporters and counts.  When
the process has ended, the main loop settles what it has not seen.

The environment is a `Machine`: what the build command, the listing process and
the process of each case do.  The time limit appears as the number of events
that the main loop takes before it expires.
-/

namespace PolyOnTest.Cli

open CodeLib PolyOnTest.Builtins

/-! ## Discovery -/

/-- `TestCase`. -/
structure TestCase where
  suite : Str
  group : Str
  name : Str
  deriving DecidableEq, Repr

/-- The name of a case in the events. -/
def TestCase.leaf (c : TestCase) : Str := c.group ++ '.' :: c.name

/-- The body of the loop of `parse_discovery_output`. -/
def parseDiscoveryLine (line : Str) : Except String (List TestCase) :=
  match Text.stripPrefix "list-case:".toList line with
  | none => .ok []
  | some rest =>
      match Text.splitn '.' 3 (Text.trim rest) with
      | [suite, group, name] => .ok [⟨suite, group, name⟩]
      | _ => .error ("invalid list-case format: " ++ String.ofList line)

/-- The loop of `parse_discovery_output`. -/
def parseDiscoveryLines : List Str → Except String (List TestCase)
  | [] => .ok []
  | line :: lines => do
      let found ← parseDiscoveryLine line
      let more ← parseDiscoveryLines lines
      .ok (found ++ more)

/-- `parse_discovery_output`. -/
def parseDiscoveryOutput (stdout : Str) : Except String (List TestCase) :=
  parseDiscoveryLines (Text.lines stdout)

/-- What the process of a case does: the answers of the reads of its output, the
number of events after which the time limit expires (if it does), and the
answer of `wait`. -/
structure Child where
  reads : List (Read String)
  deadline : Option Nat
  wait : Except String ExitStatus

/-- What a process that lists cases leaves. -/
structure Output where
  stdout : List UInt8
  status : ExitStatus

/-- The environment of an isolated run. -/
structure Machine where
  build : Except String Unit
  discover : HostFilter → Except String Output
  spawn : Nat → TestCase → Except String Child

/-- The text of the error of `String::from_utf8`. -/
def utf8ErrorText : Nat × Option Nat → String
  | (index, some n) =>
      "invalid utf-8 sequence of " ++ toString n ++ " bytes from index " ++ toString index
  | (index, none) => "incomplete utf-8 byte sequence from index " ++ toString index

/-- `discover_cases`. -/
def discoverCases (m : Machine) (filter : HostFilter) : Except String (List TestCase) := do
  m.build
  let output ← m.discover filter
  if ¬ output.status.success then
    .error ("binary execution failed during discovery: " ++ output.status.debug)
  else
    match Utf8.fromUtf8 output.stdout with
    | .error e => .error (utf8ErrorText e)
    | .ok stdout => parseDiscoveryOutput stdout

/-! ## One child -/

/-- The counters and flags of `run_isolated`, and its reporters. -/
structure Session where
  reporters : List Reporter
  seenSuites : List Str
  passed : UInt32
  failed : UInt32
  skipped : UInt32
  suiteFailed : Bool
  deriving DecidableEq

/-- The flags that `run_isolated` keeps for a child. -/
structure Progress where
  ranCase : Bool
  receivedCaseEnd : Bool
  parsedStatus : TestStatus
  deriving DecidableEq

/-- The flags in front of the first event. -/
def Progress.init : Progress := ⟨false, false, .passed⟩

/-- Sends an event to all reporters. -/
def Session.report (ev : Event) (s : Session) : Session :=
  { s with reporters := s.reporters.map (Reporter.onEvent ev) }

/-- The counters behind a `CaseEnd`. -/
def Session.count (s : Session) : TestStatus → Session
  | .passed => { s with passed := s.passed + 1 }
  | .failed => { s with failed := s.failed + 1, suiteFailed := true }
  | .skipped => { s with skipped := s.skipped + 1 }

/-- The branches of the main loop for an event. -/
def receive (x : Session × Progress) (ev : Event) : Session × Progress :=
  match ev with
  | .suiteStart name =>
      if name ∈ x.1.seenSuites then x
      else
        (Session.report ev { x.1 with seenSuites := name :: x.1.seenSuites }, x.2)
  | .caseStart .. => (x.1.report ev, { x.2 with ranCase := true })
  | .assertFail .. => (x.1.report ev, x.2)
  | .caseEnd _ _ status =>
      ((x.1.count status).report ev,
        { x.2 with receivedCaseEnd := true, parsedStatus := status })
  | _ => x

/-- The thread that reads the output of a child. -/
def readerThread (codec : String) (reads : List (Read String)) :
    List Event × Except String Unit :=
  match HostCodec.ofName codec with
  | .error e => ([], .error e)
  | .ok codec => readAll id codec reads

/-- The events that the main loop takes from a child, and `child_res`. -/
def Child.heard (codec : String) (child : Child) : List Event × Except String Unit :=
  let sent := readerThread codec child.reads
  match child.deadline with
  | none => sent
  | some n =>
      if n ≤ sent.1.length then
        (sent.1.take n, .error "timeout waiting for child process events")
      else sent

/-- The message for a child that did not end as it should. -/
def errMsg (childRes : Except String Unit) (status : ExitStatus) : Str :=
  match childRes with
  | .error e => ("Error reading child stream: " ++ e).toList
  | .ok () =>
      if ¬ status.isOk then ("Process exited with status " ++ status.debug).toList
      else "Process exited without running test case".toList

/-- The test in front of the corrections. -/
def crashed (p : Progress) (childRes : Except String Unit) (status : ExitStatus) : Bool :=
  !childRes.isOk || !status.isOk || !p.ranCase

/-- `u32::saturating_sub(1)`. -/
def saturatingPred (n : UInt32) : UInt32 := if n = 0 then 0 else n - 1

/-- A child that has sent a `CaseEnd` before it crashed counts as failed. -/
def Session.correct (s : Session) : TestStatus → Session
  | .passed =>
      { s with
        passed := saturatingPred s.passed
        failed := s.failed + 1
        suiteFailed := true }
  | .skipped =>
      { s with
        skipped := saturatingPred s.skipped
        failed := s.failed + 1
        suiteFailed := true }
  | .failed => s

/-- The block behind `wait` for a child that crashed. -/
def settleCrash (c : TestCase) (message : Str) (x : Session × Progress) : Session :=
  let s := x.1
  let s := if x.2.ranCase then s else s.report (.caseStart c.suite c.leaf)
  let s := s.report (.assertFail c.suite c.leaf [] 0 message)
  if ¬ x.2.receivedCaseEnd then
    (s.report (.caseEnd c.suite c.leaf .failed)).count .failed
  else s.correct x.2.parsedStatus

/-- The loop body of `run_isolated` behind the start of the process.  The flag
tells whether the child crashed. -/
def runChild (codec : String) (c : TestCase) (child : Child) (s : Session) :
    Except (Session × String) (Session × Bool) :=
  let (events, childRes) := child.heard codec
  let x := events.foldl receive (s, .init)
  match child.wait with
  | .error e => .error (x.1, e)
  | .ok status =>
      if crashed x.2 childRes status then
        .ok (settleCrash c (errMsg childRes status) x, true)
      else .ok (x.1, false)

/-! ## The run -/

/-- The loop of `run_isolated`, from the case with the number `k` on. -/
def runCases (m : Machine) (codec onCrash : String) :
    Nat → List TestCase → Session → Except (Session × String) Session
  | _, [], s => .ok s
  | k, c :: cs, s =>
      match m.spawn k c with
      | .error _ => .error (s, "failed to spawn case " ++ String.ofList c.name)
      | .ok child =>
          match runChild codec c child s with
          | .error stopped => .error stopped
          | .ok (s, crashed) =>
              if crashed ∧ onCrash = "abort" then .ok s
              else runCases m codec onCrash (k + 1) cs s

/-- The last loop of `run_isolated`. -/
def reportDone (disk : Disk) (ev : Event) :
    List Reporter → List Reporter × Except String Unit
  | [] => ([], .ok ())
  | r :: rs =>
      match (r.onEvent ev).finish disk with
      | (r, .error e) => (r :: rs, .error e)
      | (r, .ok ()) =>
          let (rs, result) := reportDone disk ev rs
          (r :: rs, result)

/-- The state in front of the first case. -/
def Session.start (rs : List Reporter) : Session := ⟨rs, [], 0, 0, 0, false⟩

/-- The statements behind the loop of `run_isolated`. -/
def finishRun (disk : Disk) (s : Session) : List Reporter × Exit :=
  match reportDone disk (.done s.passed s.failed s.skipped) s.reporters with
  | (rs, .error e) => (rs, .error e)
  | (rs, .ok ()) => (rs, if s.suiteFailed then .exited 1 else .returned)

/-- `run_isolated`. -/
def runIsolated (disk : Disk) (m : Machine) (t : TargetConfig) (filter : HostFilter)
    (onCrash : String) : List Reporter × Exit :=
  match discoverCases m filter with
  | .error e => ([], .error e)
  | .ok [] => ([], .error "no test cases discovered for isolated run")
  | .ok cases =>
      match makeReporters t with
      | .error e => ([], .error e)
      | .ok rs =>
          match runCases m t.codec onCrash 0 cases (.start rs) with
          | .error (s, e) => (s.reporters, .error e)
          | .ok s => finishRun disk s

/-- A run whose loop comes to its end goes on to the `Done` event. -/
theorem runIsolated_eq {disk : Disk} {m : Machine} {t : TargetConfig}
    {filter : HostFilter} {onCrash : String} {cases : List TestCase}
    {rs : List Reporter} {s : Session} (hcases : discoverCases m filter = .ok cases)
    (hne : cases ≠ []) (hrs : makeReporters t = .ok rs)
    (hrun : runCases m t.codec onCrash 0 cases (.start rs) = .ok s) :
    runIsolated disk m t filter onCrash = finishRun disk s := by
  unfold runIsolated
  rw [hcases]
  cases cases with
  | nil => exact absurd rfl hne
  | cons c cs =>
    dsimp only
    rw [hrs]
    dsimp only
    rw [hrun]

end PolyOnTest.Cli
