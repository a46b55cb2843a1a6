import PolyOnTest.Cli.Main

/-!
# The verdict of a stream run

When a stream run ends with exit code 0.  The variable `failed` starts with 0 and
only a `Done` event changes it, so a stream that ends without one leaves the
loop with the same answer as a stream with a good one.

`stream_verdict` says that this is the only way to a wrong verdict: a run that
ends with exit code 0 has decoded a `Done` event without failures, unless the
stream ends silently.  `stream_verdict_crash` is a silent end.
-/

namespace PolyOnTest.Cli

open CodeLib PolyOnTest.Builtins

/-- What the codec of a target makes of a stream. -/
def heardStream (t : TargetConfig) (reads : List (Read PluginError)) :
    List Event × Except String Unit :=
  match HostCodec.ofName t.codec with
  | .error e => ([], .error e)
  | .ok codec => readAll PluginError.text codec reads

/-- The first terminal event of a stream reports no failure. -/
def GoodDone (t : TargetConfig) (reads : List (Read PluginError)) : Prop :=
  ∃ passed skipped, (heardStream t reads).1.find? Event.isTerminal =
    some (.done passed 0 skipped)

/-- The stream ends without a `Done` event, and nothing else goes wrong: the codec
takes every byte, reading stops at the end of the stream or with a system
error, and the plugins exist and can write their reports. -/
def SilentEnd (disk : Disk) (t : TargetConfig) (reads : List (Read PluginError)) : Prop :=
  (heardStream t reads).2 = .ok () ∧
    (∀ ev ∈ (heardStream t reads).1, ev.isTerminal = false) ∧
    ∃ rs, makeReporters t = .ok rs ∧
      Writable disk (rs.map (Reporter.receive (heardStream t reads).1))

/-- The statements behind the loop give exit code 0 only by a normal return. -/
theorem conclude_code_iff (disk : Disk) (rs : List Reporter) (failed : UInt32) :
    (conclude disk rs failed).2.code = 0 ↔ failed = 0 ∧ Writable disk rs := by
  rw [← conclude_returned_iff, conclude]
  rcases finishAll disk rs with ⟨rs', e | u⟩
  · simp [Exit.code]
  · dsimp only
    split_ifs <;> simp [Exit.code]

theorem find_terminal {pre : List Event} (h : ∀ ev ∈ pre, ev.isTerminal = false)
    (passed failed skipped : UInt32) (post : List Event) :
    (pre ++ .done passed failed skipped :: post).find? Event.isTerminal =
      some (.done passed failed skipped) := by
  have hpre : pre.find? Event.isTerminal = none :=
    List.find?_eq_none.mpr fun ev hev => by rw [h ev hev]; simp
  rw [List.find?_append, hpre]
  rfl

/-- `drain_stream` gives exit code 0 without a good `Done` event exactly at a
silent end. -/
theorem drainStream_sound_iff (disk : Disk) (t : TargetConfig)
    (reads : List (Read PluginError)) :
    ((drainStream disk t reads).2.code = 0 → GoodDone t reads) ↔
      ¬ SilentEnd disk t reads := by
  unfold drainStream GoodDone SilentEnd heardStream
  cases HostCodec.ofName t.codec with
  | error e => simp [Exit.code]
  | ok codec =>
    cases makeReporters t with
    | error e => simp [Exit.code]
    | ok rs =>
      dsimp only
      rw [drainLoop_eq]
      rcases readAll PluginError.text codec reads with ⟨evs, ending⟩
      rcases terminal_cases evs with hplain | ⟨pre, passed, failed, skipped, post, rfl, hpre⟩
      · have hnone : evs.find? Event.isTerminal = none :=
          List.find?_eq_none.mpr fun ev hev => by rw [hplain ev hev]; simp
        rw [drainHeard, drainEvents_plain disk hplain, hnone]
        cases ending with
        | error e => simp [Exit.code]
        | ok u =>
          have hcode := conclude_code_iff disk (rs.map (Reporter.receive evs)) 0
          simp only [true_and] at hcode
          simpa [hcode] using Or.inl hplain
      · have hlast : ¬ ∀ ev ∈ pre ++ .done passed failed skipped :: post,
            ev.isTerminal = false := by
          intro h
          have hdone := h (.done passed failed skipped) (by simp)
          cases hdone
        rw [drainHeard, drainEvents_done disk hpre, find_terminal hpre]
        simp only [conclude_code_iff, hlast, false_and, and_false, not_false_eq_true,
          iff_true]
        rintro ⟨rfl, -⟩
        exact ⟨passed, skipped, rfl⟩

/-- A stream run that ends with exit code 0 has decoded a `Done` event without
failures, exactly when the stream does not end silently.  The same holds of the
`run` command on either board, for every exit status of the process; a time limit
that passes ends the stream with an error. -/
theorem stream_verdict (disk : Disk) (t : TargetConfig)
    (reads : List (Read PluginError)) :
    (((drainStream disk t reads).2.code = 0 → GoodDone t reads) ↔
        ¬ SilentEnd disk t reads) ∧
      ∀ m b tag suite group cliIsolate cliOnCrash,
        b.prepare = .ok () →
        b.spawnTransport (mergeFilter t tag suite group) = .ok reads →
        (StreamRun t tag suite group cliIsolate cliOnCrash ∧ (∃ status, b.wait = .ok status) ∨
          QemuRun t tag suite group) →
        (((runTarget disk m b t tag suite group cliIsolate cliOnCrash).2.code = 0 →
            GoodDone t (cutAt b.late 0 reads)) ↔
          ¬ SilentEnd disk t (cutAt b.late 0 reads)) := by
  refine ⟨drainStream_sound_iff disk t reads, ?_⟩
  intro m b tag suite group cliIsolate cliOnCrash hprepare hspawn hcommand
  have hrun : runTarget disk m b t tag suite group cliIsolate cliOnCrash =
      drainStreamBy disk t b.late reads := by
    rcases hcommand with ⟨hhost, status, hwait⟩ | hqemu
    · rw [runTarget_host hhost, runHost_eq hprepare hspawn hwait]
    · rw [runTarget_qemu hqemu, runQemu_eq hprepare hspawn]
  rw [hrun, drainStreamBy_eq]
  exact drainStream_sound_iff disk t (cutAt b.late 0 reads)

/-- A target with the text codec and the console reporter. -/
def textTarget : TargetConfig :=
  { TargetConfig.default with codec := "text", reporters := ["console"] }

/-- A system that takes every file. -/
def freeDisk : Disk := fun _ _ => .ok ()

/-- A machine without a test binary. -/
def idleMachine : Machine :=
  ⟨.ok (), fun _ => .error "no binary", fun _ _ => .error "no binary"⟩

/-- A board whose process writes a text in time and ends with a status. -/
def textBoard (text : String) (status : ExitStatus) : Board :=
  ⟨.ok (), fun _ => .ok [.data (Utf8.encode text.toList)], fun _ => false, .ok status⟩

theorem textTarget_runs : StreamRun textTarget none none none false none where
  mode := rfl
  transport := rfl
  board := rfl
  filter := by decide
  isolate := rfl
  onCrash := Or.inl rfl

/-- A process that sends its summary. -/
theorem stream_verdict_done :
    ((runTarget freeDisk idleMachine
          (textBoard "DONE passed=1 failed=0 skipped=0\n" (.exited 0)) textTarget none
          none none false none).2.code = 0 →
        GoodDone textTarget
          [.data (Utf8.encode "DONE passed=1 failed=0 skipped=0\n".toList)]) ↔
      ¬ SilentEnd freeDisk textTarget
        [.data (Utf8.encode "DONE passed=1 failed=0 skipped=0\n".toList)] :=
  (stream_verdict freeDisk textTarget _).2 idleMachine (textBoard _ (.exited 0)) none
    none none false none rfl rfl (Or.inl ⟨textTarget_runs, _, rfl⟩)

/-- A process that a signal ends in its first case.  The run has exit code 0,
and no `Done` event was decoded. -/
theorem stream_verdict_crash :
    (runTarget freeDisk idleMachine
        (textBoard "SUITE_START Math\nCASE_START Math.ops.add\n" ⟨11⟩) textTarget none
        none none false none).2.code = 0 ∧
      (drainStream freeDisk textTarget
        [.data (Utf8.encode "SUITE_START Math\nCASE_START Math.ops.add\n".toList)]).2.code =
          0 ∧
      ¬ GoodDone textTarget
        [.data (Utf8.encode "SUITE_START Math\nCASE_START Math.ops.add\n".toList)] := by
  have hnone : (heardStream textTarget
      [.data (Utf8.encode "SUITE_START Math\nCASE_START Math.ops.add\n".toList)]).1.find?
        Event.isTerminal = none := by decide +kernel
  refine ⟨by decide +kernel, by decide +kernel, ?_⟩
  rintro ⟨passed, skipped, hdone⟩
  rw [hnone] at hdone
  cases hdone

end PolyOnTest.Cli
