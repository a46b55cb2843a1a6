import PolyOnTest.Cli.EndToEnd
import PolyOnTest.Run.Watch

/-!
# Runs on a board

A run without `--isolate`, on either board: the board starts the test binary, and the CLI
drains the stream.

`board_exit` is the result.  If the codec hears the messages, the CLI exits with what the
harness returned, for every test program and every entry point.
-/

namespace PolyOnTest.Cli

open CodeLib PolyOnTest.Builtins PolyOnTest.Harness PolyOnTest.Run PolyOnTest.Wire

variable {ω : Type}

/-! ## What the host is told of a run -/

/-- Only the last message tells a terminal event. -/
theorem told_terminal {tell : Msg → Option Event} (htell : Telling tell) {m : Msg}
    (hm : ¬ Final m) {ev : Event} (h : tell m = some ev) : ev.isTerminal = false := by
  cases m with
  | banner =>
    rw [htell.note .banner rfl] at h
    cases h
  | ignored id message =>
    rw [htell.note (.ignored id message) rfl] at h
    cases h
  | suiteStart name =>
    rw [htell.suiteStart] at h
    exact Option.some.inj h ▸ rfl
  | caseStart id =>
    rw [htell.caseStart] at h
    exact Option.some.inj h ▸ rfl
  | assertFail id file line message =>
    obtain ⟨path, number, heq⟩ := htell.assertFail id file line message
    rw [heq] at h
    exact Option.some.inj h ▸ rfl
  | caseEnd id status =>
    rw [htell.caseEnd] at h
    exact Option.some.inj h ▸ rfl
  | suiteEnd name passed failed skipped =>
    rw [htell.suiteEnd] at h
    exact Option.some.inj h ▸ rfl
  | done passed failed skipped => exact absurd trivial hm

variable {tell : Msg → Option Event} {codec : HostCodec} {mode : Mode} {s : Sys ω}
  {r : Sys ω × Nat} {new : List Step}

/-- The events of a run end with its counters, and the answer goes with these. -/
theorem told_keeps (htell : Telling tell) (h : KeepsProtocol s r)
    (htrace : r.1.trace = s.trace ++ new) :
    ∃ pre passed failed skipped, told tell new = pre ++ [.done passed failed skipped] ∧
      (∀ ev ∈ pre, ev.isTerminal = false) ∧ r.2 = if failed ≠ 0 then 1 else 0 := by
  obtain ⟨new', pre, w, htrace', -, hmessages, hpre, hreturn⟩ := h
  have hsame : new' = new := List.append_cancel_left (htrace'.symm.trans htrace)
  subst hsame
  refine ⟨pre.filterMap tell, w.passed, w.failed, w.skipped, ?_, ?_, hreturn⟩
  · unfold told
    rw [hmessages, List.filterMap_append,
      List.filterMap_cons_some (htell.done w.passed w.failed w.skipped)]
    rfl
  · intro ev hev
    obtain ⟨m, hm, htells⟩ := List.mem_filterMap.mp hev
    exact told_terminal htell (hpre m hm) htells

/-- Draining the stream of a run that the codec hears: the reporters take all events, and the
exit is the answer of the run. -/
theorem drain_keeps (htell : Telling tell) (h : KeepsProtocol s r)
    (htrace : r.1.trace = s.trace ++ new) {t : TargetConfig}
    (hcodec : HostCodec.ofName t.codec = .ok codec) (hhears : Lossless codec tell mode new)
    {disk : Disk} (hdisk : Writes disk) {rs : List Reporter} (hrs : makeReporters t = .ok rs)
    {reads : List (Read PluginError)} (hreads : Delivers mode new reads) :
    (drainStream disk t reads).1.map Reporter.received = (rs.map fun _ => told tell new) ∧
      (drainStream disk t reads).2.code = r.2 := by
  obtain ⟨pre, passed, failed, skipped, htold, hpre, hreturn⟩ := told_keeps htell h htrace
  have hread := hhears PluginError PluginError.text reads hreads
  rw [htold] at hread ⊢
  refine ⟨stream_received disk hcodec hrs hpre hread, ?_⟩
  rw [stream_exit hdisk hcodec hrs hpre hread, hreturn]
  simp only [UInt32.pos_iff_ne_zero]
  split_ifs <;> rfl

/-! ## The boards -/

/-- A board that builds and starts the test binary, whose output is `reads`.  They are
read within the time limit. -/
structure Attached (b : Board) (filter : HostFilter) (reads : List (Read PluginError)) :
    Prop where
  prepare : b.prepare = .ok ()
  spawn : b.spawnTransport filter = .ok reads
  wait : ∃ status, b.wait = .ok status
  inTime : ∀ k ≤ reads.length, b.late k = false

theorem Attached.drain {b : Board} {filter : HostFilter} {reads : List (Read PluginError)}
    (h : Attached b filter reads) (disk : Disk) (t : TargetConfig) :
    drainStreamBy disk t b.late reads = drainStream disk t reads := by
  rw [drainStreamBy_eq, cutAt_inTime fun k hk => ?_]
  rw [Nat.zero_add]
  exact h.inTime k hk

theorem runHost_attached {b : Board} {filter : HostFilter} {reads : List (Read PluginError)}
    (h : Attached b filter reads) (disk : Disk) (t : TargetConfig) :
    runHost disk b t filter = drainStream disk t reads := by
  obtain ⟨status, hwait⟩ := h.wait
  rw [runHost_eq h.prepare h.spawn hwait, h.drain]

theorem runQemu_attached {b : Board} {filter : HostFilter} {reads : List (Read PluginError)}
    (h : Attached b filter reads) (disk : Disk) (t : TargetConfig) :
    runQemu disk b t filter = drainStream disk t reads := by
  rw [runQemu_eq h.prepare h.spawn, h.drain]

/-- A run without isolation is the loop of `drain_stream`. -/
theorem runTarget_attached {t : TargetConfig} {b : Board} {tag suite group : Option Str}
    {reads : List (Read PluginError)} (hb : Attached b (mergeFilter t tag suite group) reads)
    {cliIsolate : Bool} {cliOnCrash : Option String}
    (hcommand : PlainRun t tag suite group cliIsolate cliOnCrash) (disk : Disk) (m : Machine) :
    runTarget disk m b t tag suite group cliIsolate cliOnCrash = drainStream disk t reads := by
  cases hcommand with
  | host h => rw [runTarget_host h disk m b, runHost_attached hb]
  | qemu h => rw [runTarget_qemu h disk m b, runQemu_attached hb]

/-- On either board, for every test program and every entry point: if the codec hears the
messages, the time limit does not pass and the reports can be written, each reporter takes
all events, and the CLI exits with what the harness returned. -/
theorem board_exit (p : Program ω) (e : Entry) (s : Sys ω) (htell : Telling tell)
    (htrace : (e.run p s).1.trace = s.trace ++ new) {t : TargetConfig}
    (hcodec : HostCodec.ofName t.codec = .ok codec) (hhears : Lossless codec tell mode new)
    {disk : Disk} (hdisk : Writes disk) {rs : List Reporter} (hrs : makeReporters t = .ok rs)
    {reads : List (Read PluginError)} (hreads : Delivers mode new reads) {b : Board}
    {tag suite group : Option Str} (hb : Attached b (mergeFilter t tag suite group) reads)
    {cliIsolate : Bool} {cliOnCrash : Option String}
    (hcommand : PlainRun t tag suite group cliIsolate cliOnCrash) (m : Machine) :
    let out := runTarget disk m b t tag suite group cliIsolate cliOnCrash
    out.1.map Reporter.received = (rs.map fun _ => told tell new) ∧
      out.2.code = (e.run p s).2 := by
  rw [runTarget_attached hb hcommand]
  exact drain_keeps htell (run_protocol p e s) htrace hcodec hhears hdisk hrs hreads

/-- A target on QEMU. -/
def qemuTarget : TargetConfig := { junitTarget with board := "qemu_m33", transport := "uart" }

/-- QEMU with the binary of two cases, the first of which fails. -/
def qemuBoard : Board where
  prepare := .ok ()
  spawnTransport _ := .ok (wholeReads wrongSum pairSys)
  late _ := false
  wait := .ok (.exited 1)

/-- The first of its cases fails, and so does the CLI. -/
theorem board_exit_wrongSum :
    let m : Machine := ⟨.ok (), fun _ => .error "", fun _ _ => .error ""⟩
    let new := (potRunAll wrongSum pairSys).1.trace.drop pairSys.trace.length
    let out := runTarget freeDisk m qemuBoard qemuTarget none none none false none
    out.1.map Reporter.received =
        ([Reporter.new .junit, Reporter.new .console].map fun _ => told msgEvent new) ∧
      out.2.code = (potRunAll wrongSum pairSys).2 := by
  have hlossless : Lossless (.cobs .new) msgEvent .binary
      ((potRunAll wrongSum pairSys).1.trace.drop pairSys.trace.length) :=
    lossless_cobs (by decide +kernel)
  have hattached : Attached qemuBoard (mergeFilter qemuTarget none none none)
      (wholeReads wrongSum pairSys) := ⟨rfl, rfl, ⟨_, rfl⟩, fun _ _ => rfl⟩
  have hdisk : Writes freeDisk := fun _ _ => rfl
  have hcommand : PlainRun qemuTarget none none none false none :=
    .qemu ⟨rfl, rfl, rfl, by decide⟩
  intro m new out
  exact board_exit wrongSum .all pairSys msgEvent_telling (by decide +kernel) rfl hlossless hdisk
    (show makeReporters qemuTarget = .ok [.new .junit, .new .console] from rfl)
    (delivers_bytes .binary _) hattached hcommand m

end PolyOnTest.Cli
