import PolyOnTest.Cli.Isolated

/-!
# The run command

`run_target`: the checks on a target, and the choice between a stream run on one
of the boards and an isolated run.
-/

namespace PolyOnTest.Cli

open PolyOnTest.Builtins

/-- What a board does in a stream run: the build, the start of the process with
the answers of the reads of its output, which rounds of `drain_stream` start
behind the time limit, and the answer of `wait`. -/
structure Board where
  prepare : Except String Unit
  spawnTransport : HostFilter → Except String (List (Read PluginError))
  late : Nat → Bool
  wait : Except String ExitStatus

/-- A command that stops with an error before there are reporters. -/
def stop (message : String) : List Reporter × Exit := ([], .error message)

/-- The branch of `run_target` for the board `host` without isolation.  The exit
status of the process is not looked at. -/
def runHost (disk : Disk) (b : Board) (t : TargetConfig) (filter : HostFilter) :
    List Reporter × Exit :=
  match b.prepare with
  | .error e => stop e
  | .ok () =>
      match b.spawnTransport filter with
      | .error e => stop e
      | .ok reads =>
          match drainStreamBy disk t b.late reads with
          | (rs, .returned) =>
              match b.wait with
              | .error e => (rs, .error e)
              | .ok _ => (rs, .returned)
          | stopped => stopped

/-- The branch of `run_target` for the board `qemu_m33`, behind the check of the
filter.  The answer of `wait` is dropped. -/
def runQemu (disk : Disk) (b : Board) (t : TargetConfig) (filter : HostFilter) :
    List Reporter × Exit :=
  match b.prepare with
  | .error e => stop e
  | .ok () =>
      match b.spawnTransport filter with
      | .error e => stop e
      | .ok reads => drainStreamBy disk t b.late reads

/-- `run_target`, behind the reading of the configuration. -/
def runTarget (disk : Disk) (m : Machine) (b : Board) (t : TargetConfig)
    (tag suite group : Option Str) (cliIsolate : Bool) (cliOnCrash : Option String) :
    List Reporter × Exit :=
  if t.mode ≠ "stream" then
    stop ("mode '" ++ t.mode ++
      "' not supported in v0.1 (only stream). Command mode arrives in v2.")
  else if t.transport ≠ "stdio" ∧ t.board = "host" then
    stop "board.host currently wires child stdio (set transport = \"stdio\")"
  else if t.transport ≠ "uart" ∧ t.board = "qemu_m33" then
    stop "board.qemu_m33 expects transport = \"uart\""
  else
    let filter := mergeFilter t tag suite group
    if present filter.group ∧ ¬ present filter.suite then
      stop "--group / toml group requires --suite / toml suite"
    else if t.board = "host" then
      let onCrash := cliOnCrash.getD t.onCrash
      if onCrash ≠ "continue" ∧ onCrash ≠ "abort" then
        stop ("invalid on-crash policy '" ++ onCrash ++
          "': must be 'continue' or 'abort'")
      else if cliIsolate || t.isolate then runIsolated disk m t filter onCrash
      else runHost disk b t filter
    else if t.board = "qemu_m33" then
      if filterActive filter then
        stop ("tag/suite/group filters are host-only (freestanding QEMU has no " ++
          "getenv). Filter in the DUT main, or run on board.host.")
      else runQemu disk b t filter
    else stop ("unknown board plugin '" ++ t.board ++ "'")

/-- A run on the host whose process starts and can be waited for ends as
`drain_stream` does, whatever the exit status of the process is. -/
theorem runHost_eq {b : Board} {filter : HostFilter} {reads : List (Read PluginError)}
    {status : ExitStatus} (hprepare : b.prepare = .ok ())
    (hspawn : b.spawnTransport filter = .ok reads) (hwait : b.wait = .ok status)
    (disk : Disk) (t : TargetConfig) :
    runHost disk b t filter = drainStreamBy disk t b.late reads := by
  rw [runHost, hprepare, hspawn]
  dsimp only
  rcases drainStreamBy disk t b.late reads with ⟨rs, _ | code | e⟩
  · rw [hwait]
  · rfl
  · rfl

theorem runQemu_eq {b : Board} {filter : HostFilter} {reads : List (Read PluginError)}
    (hprepare : b.prepare = .ok ()) (hspawn : b.spawnTransport filter = .ok reads)
    (disk : Disk) (t : TargetConfig) :
    runQemu disk b t filter = drainStreamBy disk t b.late reads := by
  rw [runQemu, hprepare, hspawn]

/-- A command that starts a stream run on the host. -/
structure StreamRun (t : TargetConfig) (tag suite group : Option Str)
    (cliIsolate : Bool) (cliOnCrash : Option String) : Prop where
  mode : t.mode = "stream"
  transport : t.transport = "stdio"
  board : t.board = "host"
  filter : present (mergeFilter t tag suite group).group →
    present (mergeFilter t tag suite group).suite
  isolate : (cliIsolate || t.isolate) = false
  onCrash : cliOnCrash.getD t.onCrash = "continue" ∨ cliOnCrash.getD t.onCrash = "abort"

/-- Such a command gets through the checks. -/
theorem runTarget_host {t : TargetConfig} {tag suite group : Option Str}
    {cliIsolate : Bool} {cliOnCrash : Option String}
    (h : StreamRun t tag suite group cliIsolate cliOnCrash) (disk : Disk) (m : Machine)
    (b : Board) :
    runTarget disk m b t tag suite group cliIsolate cliOnCrash =
      runHost disk b t (mergeFilter t tag suite group) := by
  have hboard : t.board ≠ "qemu_m33" := by
    rw [h.board]
    decide
  have hcrash : ¬ (cliOnCrash.getD t.onCrash ≠ "continue" ∧
      cliOnCrash.getD t.onCrash ≠ "abort") := by
    rintro ⟨hcontinue, habort⟩
    exact h.onCrash.elim hcontinue habort
  have hgroup : ¬ (present (mergeFilter t tag suite group).group ∧
      ¬ present (mergeFilter t tag suite group).suite) := by
    rintro ⟨hg, hs⟩
    exact hs (h.filter hg)
  unfold runTarget
  dsimp only
  rw [if_neg (not_not.mpr h.mode), if_neg fun hx => hx.1 h.transport,
    if_neg fun hx => hboard hx.2, if_neg hgroup, if_pos h.board, if_neg hcrash,
    h.isolate, if_neg (by simp)]

/-- A command that starts a run on the board `qemu_m33`. -/
structure QemuRun (t : TargetConfig) (tag suite group : Option Str) : Prop where
  mode : t.mode = "stream"
  transport : t.transport = "uart"
  board : t.board = "qemu_m33"
  filter : filterActive (mergeFilter t tag suite group) = false

/-- Such a command gets through the checks. -/
theorem runTarget_qemu {t : TargetConfig} {tag suite group : Option Str}
    (h : QemuRun t tag suite group) (disk : Disk) (m : Machine) (b : Board)
    (cliIsolate : Bool) (cliOnCrash : Option String) :
    runTarget disk m b t tag suite group cliIsolate cliOnCrash =
      runQemu disk b t (mergeFilter t tag suite group) := by
  have hhost : t.board ≠ "host" := by
    rw [h.board]
    decide
  have hnone : ¬ (present (mergeFilter t tag suite group).group ∧
      ¬ present (mergeFilter t tag suite group).suite) := by
    rintro ⟨hgroup, -⟩
    have hfilter := h.filter
    unfold filterActive at hfilter
    simp [hgroup] at hfilter
  unfold runTarget
  dsimp only
  rw [if_neg (not_not.mpr h.mode), if_neg fun hx => hhost hx.2,
    if_neg fun hx => hx.1 h.transport, if_neg hnone, if_neg hhost, if_pos h.board, h.filter,
    if_neg (by simp)]

/-- A command that starts a run without `--isolate`. -/
inductive PlainRun (t : TargetConfig) (tag suite group : Option Str) (cliIsolate : Bool)
    (cliOnCrash : Option String) : Prop
  | host (h : StreamRun t tag suite group cliIsolate cliOnCrash)
  | qemu (h : QemuRun t tag suite group)

end PolyOnTest.Cli
