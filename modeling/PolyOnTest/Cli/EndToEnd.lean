import PolyOnTest.Cli.Isolation
import PolyOnTest.Cli.Rounds

/-!
# From the harness to the exit code

A run with `--isolate`, from the functions of the test binary to the exit code: the
processes run `pot_run_from_env` under any schedule of the threads and the pipes, and no
read fails and no time limit is over.

`round_child` is what one round makes of the session, and `rounds_children` what the loop
makes of it.  `scheduled_agrees` is the result: the reporters take what they take from the
run in one process, and both runs exit with what `pot_run_all` returns.
-/

namespace PolyOnTest.Cli

open CodeLib PolyOnTest.Builtins PolyOnTest.Harness PolyOnTest.Run PolyOnTest.Wire Reader

variable {ω : Type}

/-- A schedule of a process that writes the output of a trace and ends with a status. -/
structure Delivered (mode : Mode) (codec : HostCodec) (trace : List Step) (status : Nat)
    (as : List Reader.Action) : Prop where
  written : written as = output mode trace
  reaped : ∀ answer ∈ reaped as, answer = .ok (.exited (UInt8.ofNat status))
  noFail : ∀ text, .fail text ∉ as
  inTime : .expire ∉ as
  whole : WholeReads codec (answers as)

/-- A scenario whose test binary calls `pot_run_from_env` in the state `s`. -/
structure Serving (p : Program ω) (s : Sys ω) (mode : Mode) (codec : HostCodec)
    (sc : Scenario) : Prop where
  build : sc.build = .ok ()
  discover : ∀ filter writes, potRunFromEnv p (discoverVars filter) s = .listed writes →
    sc.discover filter = .ok ⟨writes.flatten, .exited 0⟩
  spawn : ∀ k c r new, potRunFromEnv p (childVars c) s = .ran r → r.1.trace = s.trace ++ new →
    ∃ as, sc.spawn k c = .ok as ∧ Delivered mode codec new r.2 as

variable {p : Program ω} {script : FnId → List Call} {s : Sys ω} {mode : Mode}
  {tell : Msg → Option Event} {codec : HostCodec} {name onCrash : String} {sc : Scenario}
  {session : Session}

/-! ## One round -/

/-- A lossless codec tells the whole output at once. -/
theorem lossless_feed (hname : HostCodec.ofName name = .ok codec) {trace : List Step}
    (h : Lossless codec tell mode trace) :
    ∃ codec', codec.decodeFeed (output mode trace) = (codec', .ok (told tell trace)) := by
  by_cases hempty : output mode trace = []
  · have hnone := h String id [] ⟨[], by simp, by rw [hempty]; rfl, rfl⟩
    have htold : told tell trace = [] := (congrArg Prod.fst hnone).symm
    rw [hempty, htold]
    rcases ofName_new hname with rfl | rfl
    · exact ⟨_, rfl⟩
    · exact ⟨_, rfl⟩
  · have hone := h String id [.data (output mode trace)]
      ⟨[output mode trace], by simpa using hempty, by simp, rfl⟩
    rw [readAll, if_neg hempty] at hone
    rcases hfeed : codec.decodeFeed (output mode trace) with ⟨codec', e | events⟩
    · rw [hfeed] at hone
      cases (congrArg Prod.snd hone : Except.error e.text = .ok ())
    · rw [hfeed] at hone
      have hevents : events ++ [] = told tell trace := congrArg Prod.fst hone
      rw [← hevents, List.append_nil]
      exact ⟨codec', rfl⟩

/-- A round over the process of a case, under any schedule. -/
theorem round_child (session : Session) (h : Isolable p script s) (htell : Telling tell)
    (hserve : Serving p s mode codec sc) (hname : HostCodec.ofName name = .ok codec)
    (hhears : Hears p s codec tell mode) {k : Nat} {t : Case} (ht : t ∈ registered p s) :
    ∃ as, sc.spawn k (testCase t) = .ok as ∧
      ∀ out, runRound name (testCase t) as session = some out →
        out = .ok (((session.see (nameText t.suite)).count (caseStatus script t)).forward
          (caseEvents tell script t), false) := by
  obtain ⟨r, new, passed, failed, skipped, hrun, htrace, -, hreported, hreturn⟩ := child_run h ht
  obtain ⟨as, hspawn, hdelivered⟩ := hserve.spawn k _ r new hrun htrace
  refine ⟨as, hspawn, ?_⟩
  intro out hout
  obtain ⟨codec', hfeed⟩ := lossless_feed hname (hhears.child t ht r new hrun htrace)
  rw [← hdelivered.written] at hfeed
  have hundisturbed : Undisturbed name as :=
    ⟨hdelivered.noFail, hdelivered.inTime, codec, codec', _, hname, hdelivered.whole, hfeed⟩
  obtain ⟨answer, hanswer, rfl⟩ := runRound_undisturbed hundisturbed hout
  have hexited : answer = .ok (.exited (UInt8.ofNat r.2)) :=
    hdelivered.reaped answer (by rw [hanswer]; exact List.mem_singleton.mpr rfl)
  have hevents : streamEvents name (written as) =
      childEvents tell script t passed failed skipped := by
    unfold streamEvents
    rw [hname]
    dsimp only
    rw [hfeed, ← told_child htell hreported]
    rfl
  rw [hevents, heardState, foldl_receive_child htell, hexited]
  rcases hreturn with hreturn | hreturn <;> rw [hreturn] <;> rfl

/-! ## The loop -/

/-- Some case of a list fails. -/
def anyFails (script : FnId → List Call) (ts : List Case) : Bool :=
  ts.any fun t => caseStatus script t = .failed

theorem count_suiteFailed (session : Session) (status : TestStatus) :
    (session.count status).suiteFailed = (session.suiteFailed || decide (status = .failed)) := by
  cases status <;> simp [Session.count]

theorem see_suiteFailed (session : Session) (suite : Str) :
    (session.see suite).suiteFailed = session.suiteFailed := by
  unfold Session.see
  split_ifs <;> rfl

/-- The loop over the processes of some cases, by induction on the cases. -/
theorem rounds_children (h : Isolable p script s) (htell : Telling tell)
    (hserve : Serving p s mode codec sc) (hname : HostCodec.ofName name = .ok codec)
    (hhears : Hears p s codec tell mode) {ts : List Case} (hts : ∀ t ∈ ts, t ∈ registered p s)
    {k : Nat} {out : Except (Session × String) Session}
    (hrun : runRounds sc name onCrash k (ts.map testCase) session = some out) :
    ∃ last, out = .ok last ∧
      last.reporters =
        session.reporters.map (Reporter.receive (forwarded tell script session.seenSuites ts)) ∧
      last.tally = (ts.map (caseStatus script)).foldl Tally.add session.tally ∧
      last.suiteFailed = (session.suiteFailed || anyFails script ts) := by
  induction ts generalizing k session with
  | nil =>
      cases hrun
      exact ⟨session, rfl, by simp [forwarded], rfl, (Bool.or_false _).symm⟩
  | cons t ts ih =>
      obtain ⟨as, hspawn, hround⟩ :=
        round_child session h htell hserve hname hhears (k := k) (hts t (by simp))
      rw [List.map_cons, runRounds, hspawn] at hrun
      dsimp only at hrun
      cases hout : runRound name (testCase t) as session with
      | none =>
        rw [hout] at hrun
        cases hrun
      | some result =>
        rw [hout, hround result hout] at hrun
        dsimp only at hrun
        rw [if_neg (by simp)] at hrun
        obtain ⟨last, rfl, hreporters, htally, hfailed⟩ :=
          ih (fun t ht => hts t (by simp [ht])) hrun
        refine ⟨last, rfl, ?_, ?_, ?_⟩
        · rw [hreporters, Session.forward_seen, Session.forward_reporters, Session.count_seen,
            Session.count_reporters, Reporter.map_receive_receive, forwarded, Session.see]
          split_ifs with hseen
          · rfl
          · rw [Session.forward_reporters, Reporter.map_receive_receive]
            rfl
        · rw [htally, Session.forward_tally, Session.count_tally, Session.see_tally]
          rfl
        · rw [hfailed]
          show ((Session.count _ _).suiteFailed || _) = _
          rw [count_suiteFailed, see_suiteFailed, Bool.or_assoc]
          rfl

/-! ## The three verdicts -/

theorem anyFails_iff (ts : List Case) :
    anyFails script ts = true ↔ 0 < scriptTotal script ts .failed := by
  unfold anyFails scriptTotal caseStatus
  rw [List.any_eq_true, List.countP_pos_iff]

/-- Below 2^32 the counter of the failures does not come back to zero. -/
theorem ofNat_scriptTotal {ts : List Case} (hroom : ts.length < 2 ^ 32) (status : TestStatus) :
    0 < UInt32.ofNat (scriptTotal script ts status) ↔ 0 < scriptTotal script ts status := by
  have hle : scriptTotal script ts status < 2 ^ 32 :=
    lt_of_le_of_lt List.countP_le_length hroom
  rw [UInt32.lt_iff_toNat_lt, UInt32.toNat_ofNat', Nat.mod_eq_of_lt hle]
  rfl

/-- What `pot_run_all` returns. -/
theorem potRunAll_answer (h : Isolable p script s) :
    (potRunAll p s).2 =
      if UInt32.ofNat (scriptTotal script (sortCases (registered p s)) .failed) ≠ 0 then 1
      else 0 := by
  have hgroups : SilentGroups p (prepare p s).g.env.reg := by
    intro u hu
    exact h.groups u (collect_groups p s.g.env.reg ▸ hu)
  have hperm := sortCases_perm (registered p s)
  obtain ⟨rs, hreport, -, hreturn, -⟩ := run_named
    (plain_invariant h.scripted.callsOnly (prepare p s).g.env) (fun _ hg => hg.1) matchAll
    ⟨rfl, h.param⟩ (sortCases_sorted (registered p s)) (silent_prepare h.suites)
    (fun t ht => h.named (hperm.mem_iff.mp ht))
  have hstatus : ∀ r ∈ rs, ∀ c ∈ r.cases, c.status = scriptStatus (caseScript script c.case) :=
    fun r hr c hc => (scripted_case h.scripted hgroups ((hreport.reports r hr).window c hc)).2
  have hall : reportedCases rs = sortCases (registered p s) := by
    rw [hreport.cases]
    exact List.filter_eq_self.mpr fun _ _ => rfl
  show (runFiltered p matchAll s).2 = _
  rw [hreturn, total_eq_scriptTotal hstatus, hall]

/-- The exit of a stream run that comes to its `Done` event. -/
theorem stream_exit {disk : Disk} (hdisk : Writes disk) {t : TargetConfig}
    (hcodec : HostCodec.ofName t.codec = .ok codec) {rs : List Reporter}
    (hrs : makeReporters t = .ok rs) {reads : List (Read PluginError)} {pre : List Event}
    {passed failed skipped : UInt32} (hpre : ∀ ev ∈ pre, ev.isTerminal = false)
    (hread : readAll PluginError.text codec reads =
      (pre ++ [.done passed failed skipped], .ok ())) :
    (drainStream disk t reads).2 = if failed > 0 then .exited 1 else .returned := by
  unfold drainStream
  rw [hcodec, hrs]
  dsimp only
  rw [drainLoop_eq, drainHeard, hread, drainEvents_done disk hpre]
  dsimp only
  unfold conclude
  generalize rs.map (Reporter.receive (pre ++ [.done passed failed skipped])) = told
  have hok : (finishAll disk told).2 = .ok () :=
    (finishAll_ok_iff disk told).mpr fun r _ => hdisk r.kind r.received
  generalize finishAll disk told = answer at hok ⊢
  obtain ⟨rs', result⟩ := answer
  cases hok
  rfl

/-- A run that finds its cases is its loop. -/
theorem runScheduled_eq {disk : Disk} {t : TargetConfig} {filter : HostFilter}
    {cases : List TestCase} {rs : List Reporter}
    (hcases : discoverCases ⟨sc.build, sc.discover, fun _ _ => .error ""⟩ filter = .ok cases)
    (hne : cases ≠ []) (hrs : makeReporters t = .ok rs) :
    runScheduled disk sc t filter onCrash =
      (runRounds sc t.codec onCrash 0 cases (.start rs)).map (afterLoop disk) := by
  unfold runScheduled
  rw [hcases]
  cases cases with
  | nil => exact absurd rfl hne
  | cons c cs =>
    dsimp only
    rw [hrs]

/-- From the test binary to the exit code, under any schedule of the threads and the pipes.
The reporters of a run with `--isolate` take what those of the run in one process take, but
for the ends of the suites and the log, and both runs exit with what `pot_run_all`
returns. -/
theorem scheduled_agrees (h : Isolable p script s) (hne : registered p s ≠ [])
    (hroom : (registered p s).length < 2 ^ 32) (htell : Telling tell)
    (hserve : Serving p s mode codec sc) {t : TargetConfig}
    (hcodec : HostCodec.ofName t.codec = .ok codec) (hhears : Cli.Hears p s codec tell mode)
    {disk : Disk} (hdisk : Writes disk) {rs : List Reporter} (hrs : makeReporters t = .ok rs)
    {out : List Reporter × Exit}
    (hrun : runScheduled disk sc t noFilter onCrash = some out) {new : List Step}
    (htrace : (potRunAll p s).1.trace = s.trace ++ new) {reads : List (Read PluginError)}
    (hreads : Delivers mode new reads) :
    out.1.map (fun r => story r.received) =
        (drainStream disk t reads).1.map (fun r => story r.received) ∧
      out.2 = (drainStream disk t reads).2 ∧ out.2.code = (potRunAll p s).2 := by
  have hperm := sortCases_perm (registered p s)
  have hsorted : sortCases (registered p s) ≠ [] := fun hnil =>
    hne (List.perm_nil.mp (hnil ▸ hperm.symm))
  have hlength : (sortCases (registered p s)).length < 2 ^ 32 := by
    rw [hperm.length_eq]
    exact hroom
  -- the stream of the run in one process
  obtain ⟨pre, new', hnew', htold, hpre, hstory⟩ := told_all h htell
  have hsame : new = new' := List.append_cancel_left (htrace.symm.trans hnew')
  have hread := hhears.whole new htrace PluginError PluginError.text reads hreads
  rw [hsame, htold] at hread
  have hstream := stream_received disk hcodec hrs hpre hread
  have hexit := stream_exit hdisk hcodec hrs hpre hread
  -- the rounds of the isolated run
  have hcases : discoverCases ⟨sc.build, sc.discover, fun _ _ => .error ""⟩ noFilter =
      .ok ((sortCases (registered p s)).map testCase) := by
    have hbinary : TestBinary p s mode
        { binaryMachine p s mode with build := sc.build, discover := sc.discover } :=
      ⟨hserve.build, hserve.discover, (binaryMachine_testBinary p s mode).spawn⟩
    have hfound := discover_all h hbinary
    unfold discoverCases at hfound ⊢
    exact hfound
  rw [runScheduled_eq hcases (by simpa using hsorted) hrs] at hrun
  obtain ⟨result, hloop, rfl⟩ := Option.map_eq_some_iff.mp hrun
  obtain ⟨last, rfl, hreporters, htally, hfailed⟩ :=
    rounds_children h htell hserve hcodec hhears (fun t ht => hperm.mem_iff.mp ht) hloop
  have hdone : Event.done last.passed last.failed last.skipped =
      doneEvent script (sortCases (registered p s)) := by
    have hcounts := htally.trans (tally_cases (sortCases (registered p s)))
    unfold Session.tally at hcounts
    injection hcounts with hpassed hfailed hskipped
    rw [hpassed, hfailed, hskipped]
    rfl
  obtain ⟨rs', hreport, hreceived⟩ := reportDone_received hdisk
    (doneEvent script (sortCases (registered p s))) last.reporters
  have hend : finishRun disk last =
      (rs', if last.suiteFailed then .exited 1 else .returned) := by
    unfold finishRun
    rw [hdone, hreport]
  have hverdict : last.suiteFailed = true ↔
      0 < UInt32.ofNat (scriptTotal script (sortCases (registered p s)) .failed) := by
    rw [hfailed, ofNat_scriptTotal hlength, ← anyFails_iff]
    simp [Session.start]
  show (finishRun disk last).1.map _ = _ ∧ (finishRun disk last).2 = _ ∧
    (finishRun disk last).2.code = _
  rw [hend, hexit, potRunAll_answer h]
  refine ⟨?_, ?_, ?_⟩
  · have hforwarded : story (forwarded tell script [] (sortCases (registered p s))) =
        story pre := by
      rw [← hstory, story_story]
    have hmap : ∀ xs : List Reporter,
        xs.map (fun r => story r.received) = (xs.map Reporter.received).map story :=
      fun xs => (List.map_map ..).symm
    show rs'.map _ = _
    rw [hmap, hmap, hreceived, hstream, hreporters, List.map_map, List.map_map, List.map_map]
    refine List.map_congr_left fun r hr => ?_
    show story (r.received ++ forwarded tell script [] _ ++ _) = story (pre ++ _)
    rw [makeReporters_fresh hrs r hr, List.nil_append, story_append, story_append, hforwarded]
    rfl
  · simp only [hverdict]
  · dsimp only
    simp only [hverdict, UInt32.pos_iff_ne_zero]
    split_ifs <;> rfl

/-! ## A binary that writes its whole output first -/

/-- The process comes to its end before the main loop takes the first event. -/
def wholeRun (name : String) (bytes : List UInt8) (status : ExitStatus) : List Reader.Action :=
  [.write bytes, .close, .exit status, .begin, .read bytes] ++
    ((streamEvents name bytes).map fun _ => .send) ++ [.read []] ++
    ((streamEvents name bytes).flatMap fun ev => [.check, .take (.ok ev)]) ++
    [.check, .hangUp, .kill, .wait (.ok status)]

/-- A scenario whose processes do so. -/
def binaryScenario (p : Program ω) (s : Sys ω) (mode : Mode) (name : String) : Scenario where
  build := .ok ()
  discover := (binaryMachine p s mode).discover
  spawn _ c :=
    match potRunFromEnv p (childVars c) s with
    | .listed _ => .error "no run"
    | .ran r =>
        .ok (wholeRun name (output mode (r.1.trace.drop s.trace.length))
          (.exited (UInt8.ofNat r.2)))

theorem delivered_wholeRun (name : String) (mode : Mode) (trace : List Step) (status : Nat) :
    Delivered mode (.cobs .new) trace status
      (wholeRun name (output mode trace) (.exited (UInt8.ofNat status))) where
  written := by
    simp [wholeRun, Reader.written, Reader.Action.written, List.flatMap_assoc]
  reaped := by
    simp [wholeRun, reaped, Action.reaped, List.flatMap_assoc]
  noFail := by
    simp [wholeRun]
  inTime := by
    simp [wholeRun]
  whole := fun _ _ => trivial

theorem binaryScenario_serving (p : Program ω) (s : Sys ω) (mode : Mode) (name : String) :
    Serving p s mode (.cobs .new) (binaryScenario p s mode name) where
  build := rfl
  discover := (binaryMachine_testBinary p s mode).discover
  spawn := by
    intro k c r new hrun htrace
    unfold binaryScenario
    dsimp only
    rw [hrun]
    refine ⟨_, rfl, ?_⟩
    rw [htrace, List.drop_left]
    exact delivered_wholeRun name mode new r.2

/-- Two cases of one suite, the first of which fails. -/
theorem scheduled_agrees_wrongSum :
    ∃ out,
      runScheduled freeDisk (binaryScenario wrongSum pairSys .binary junitTarget.codec) junitTarget
        noFilter "abort" = some out ∧
      out.1.map (fun r => story r.received) =
        (drainStream freeDisk junitTarget (wholeReads wrongSum pairSys)).1.map
          (fun r => story r.received) ∧
      out.2 = (drainStream freeDisk junitTarget (wholeReads wrongSum pairSys)).2 ∧
      out.2.code = (potRunAll wrongSum pairSys).2 := by
  obtain ⟨out, hout⟩ := Option.isSome_iff_exists.mp (show (runScheduled freeDisk
    (binaryScenario wrongSum pairSys .binary junitTarget.codec) junitTarget noFilter
      "abort").isSome by decide +kernel)
  have htrace : (potRunAll wrongSum pairSys).1.trace = pairSys.trace ++
      (potRunAll wrongSum pairSys).1.trace.drop pairSys.trace.length := by decide +kernel
  exact ⟨out, hout, scheduled_agrees isolable_wrongSum (by decide) (by decide) msgEvent_telling
    (binaryScenario_serving wrongSum pairSys .binary junitTarget.codec) rfl
    (hears_cobs (by decide +kernel) (by decide +kernel)) (fun _ _ => rfl)
    (show makeReporters junitTarget = .ok [.new .junit, .new .console] from rfl) hout htrace
    (delivers_bytes .binary _)⟩

end PolyOnTest.Cli
