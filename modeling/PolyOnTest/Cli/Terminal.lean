import PolyOnTest.Builtins.Console
import PolyOnTest.Cli.Boards

/-!
# What the terminal shows of a run

The console report of a run of the harness, from the messages to the characters.  The
stream of a run keeps to its protocol, so suites start at the front of a line and the
counters of `DONE` are the sums of the cases.  `console_shows` puts this together with the
reader of `Builtins.Console` and with `drain_stream`.
-/

namespace PolyOnTest.Cli

open CodeLib CodeLib.CMemory CodeLib.Trace PolyOnTest.Builtins PolyOnTest.Harness PolyOnTest.Run
  PolyOnTest.Wire

variable {ω : Type} {tell : Msg → Option Event} {w w' : Watch}

/-! ## The statuses of a run -/

/-- The statuses of the cases that end. -/
def statuses (ms : List Msg) : List TestStatus :=
  ms.filterMap fun
    | .caseEnd _ status => some status
    | _ => none

/-- The host is told the same statuses. -/
theorem verdicts_told (htell : Telling tell) (trace : List Step) :
    verdicts (told tell trace) = statuses (messages trace) := by
  unfold verdicts told statuses
  rw [List.filterMap_filterMap]
  refine List.filterMap_congr fun m _ => ?_
  cases m with
  | banner =>
    rw [htell.note .banner rfl]
    rfl
  | ignored id message =>
    rw [htell.note (.ignored id message) rfl]
    rfl
  | assertFail id file line message =>
    obtain ⟨path, number, heq⟩ := htell.assertFail id file line message
    rw [heq]
    rfl
  | suiteStart name => rw [htell.suiteStart]; rfl
  | caseStart id => rw [htell.caseStart]; rfl
  | caseEnd id status => rw [htell.caseEnd]; rfl
  | suiteEnd name passed failed skipped => rw [htell.suiteEnd]; rfl
  | done passed failed skipped => rw [htell.done]; rfl

/-! ## What the watch knows -/

/-- How often a status stands in a list, as the counters have it. -/
def tally (vs : List TestStatus) (status : TestStatus) : UInt32 := UInt32.ofNat (vs.count status)

theorem tally_cons (v : TestStatus) (vs : List TestStatus) (status : TestStatus) :
    tally (v :: vs) status = (if status = v then 1 else 0) + tally vs status := by
  unfold tally
  rw [List.count_cons, UInt32.ofNat_add, UInt32.add_comm]
  by_cases h : v = status
  · simp [h]
  · simp [h, Ne.symm h]

/-- A report changes no counter and opens or closes no case. -/
theorem report_keeps {id : CaseId} {f : OpenCase → OpenCase} (h : w.report id f = some w') :
    (w'.passed = w.passed ∧ w'.failed = w.failed ∧ w'.skipped = w.skipped) ∧
      (w.case ≠ none → w'.case ≠ none) := by
  unfold Watch.report at h
  cases hcase : w.case with
  | none =>
    rw [hcase] at h
    obtain rfl := Option.some.inj h
    exact ⟨⟨rfl, rfl, rfl⟩, fun hne => absurd rfl hne⟩
  | some c =>
    rw [hcase] at h
    dsimp only at h
    split_ifs at h
    obtain rfl := Option.some.inj h
    exact ⟨⟨rfl, rfl, rfl⟩, fun _ => Option.some_ne_none _⟩

/-- A message that is no `caseEnd` changes no counter and closes no case. -/
theorem step_quiet {m : Msg} (h : w.step m = some w') (hm : statuses [m] = []) :
    (w'.passed = w.passed ∧ w'.failed = w.failed ∧ w'.skipped = w.skipped) ∧
      (w.case ≠ none → w'.case ≠ none) := by
  cases m with
  | caseEnd id status => cases hm
  | assertFail id file line message =>
    rw [Watch.step] at h
    split_ifs at h
    exact report_keeps h
  | ignored id message =>
    rw [Watch.step] at h
    split_ifs at h
    exact report_keeps h
  | caseStart id =>
    rw [Watch.step] at h
    split_ifs at h
    obtain rfl := Option.some.inj h
    exact ⟨⟨rfl, rfl, rfl⟩, fun _ => Option.some_ne_none _⟩
  | _ =>
    rw [Watch.step] at h
    split_ifs at h
    obtain rfl := Option.some.inj h
    exact ⟨⟨rfl, rfl, rfl⟩, id⟩

theorem step_caseEnd {id : CaseId} {status : TestStatus}
    (h : w.step (.caseEnd id status) = some w') : w' = w.count status := by
  rw [Watch.step] at h
  cases hcase : w.case with
  | none =>
    rw [hcase] at h
    cases h
  | some c =>
    rw [hcase] at h
    dsimp only at h
    split_ifs at h
    exact (Option.some.inj h).symm

/-- The counters are the sums of the cases, by induction on the messages. -/
theorem accepted_counters {ms : List Msg} (h : ms.foldlM Watch.step w = some w') :
    w'.passed = w.passed + tally (statuses ms) .passed ∧
      w'.failed = w.failed + tally (statuses ms) .failed ∧
      w'.skipped = w.skipped + tally (statuses ms) .skipped := by
  induction ms generalizing w with
  | nil =>
      obtain rfl := Option.some.inj h
      exact ⟨(UInt32.add_zero _).symm, (UInt32.add_zero _).symm, (UInt32.add_zero _).symm⟩
  | cons m ms ih =>
      obtain ⟨w₁, hstep, hrest⟩ := accepted_cons.mp h
      obtain ⟨hpassed, hfailed, hskipped⟩ := ih hrest
      rw [hpassed, hfailed, hskipped]
      by_cases hm : statuses [m] = []
      · have hnone : statuses (m :: ms) = statuses ms := by
          show statuses ([m] ++ ms) = _
          unfold statuses at hm ⊢
          rw [List.filterMap_append, hm, List.nil_append]
        obtain ⟨⟨h₁, h₂, h₃⟩, -⟩ := step_quiet hstep hm
        rw [hnone, h₁, h₂, h₃]
        exact ⟨rfl, rfl, rfl⟩
      · cases m with
        | caseEnd id status =>
          have hcons : statuses (.caseEnd id status :: ms) = status :: statuses ms := rfl
          rw [hcons, step_caseEnd hstep]
          simp only [tally_cons, ← UInt32.add_assoc]
          cases status <;> simp [Watch.count]
        | _ => exact absurd rfl hm

/-- No suite starts in a case, so none starts in an open line. -/
theorem tidy_told (htell : Telling tell) {ms : List Msg} (h : ms.foldlM Watch.step w = some w')
    {opened : Bool} (hopened : opened = true → w.case ≠ none) :
    Tidy opened (ms.filterMap tell) := by
  induction ms generalizing w opened with
  | nil => exact trivial
  | cons m ms ih =>
      obtain ⟨w₁, hstep, hrest⟩ := accepted_cons.mp h
      have hclosed : Tidy false (ms.filterMap tell) := ih hrest fun hf => absurd hf Bool.false_ne_true
      have hkept : statuses [m] = [] → Tidy opened (ms.filterMap tell) := fun hm =>
        ih hrest fun ho => (step_quiet hstep hm).2 (hopened ho)
      cases m with
      | banner =>
        rw [List.filterMap_cons_none (htell.note .banner rfl)]
        exact hkept rfl
      | ignored id message =>
        rw [List.filterMap_cons_none (htell.note (.ignored id message) rfl)]
        exact hkept rfl
      | assertFail id file line message =>
        obtain ⟨path, number, heq⟩ := htell.assertFail id file line message
        rw [List.filterMap_cons_some heq]
        exact hclosed
      | suiteStart name =>
        rw [List.filterMap_cons_some (htell.suiteStart name)]
        rw [Watch.step] at hstep
        split_ifs at hstep with hall
        refine ⟨?_, hclosed⟩
        by_contra ho
        exact hopened (Bool.eq_true_of_not_eq_false ho) hall.2.1
      | caseStart id =>
        rw [List.filterMap_cons_some (htell.caseStart id)]
        rw [Watch.step] at hstep
        split_ifs at hstep
        obtain rfl := Option.some.inj hstep
        exact ih hrest fun _ => Option.some_ne_none _
      | caseEnd id status =>
        rw [List.filterMap_cons_some (htell.caseEnd id status)]
        exact hclosed
      | suiteEnd name passed failed skipped =>
        rw [List.filterMap_cons_some (htell.suiteEnd name passed failed skipped)]
        exact hkept rfl
      | done passed failed skipped =>
        rw [List.filterMap_cons_some (htell.done passed failed skipped)]
        exact hkept rfl

/-! ## The terminal -/

/-- What the console prints of the events `evs` shows the statuses `vs`: line by line, and
in the numbers of the last line. -/
structure Shows (evs : List Event) (vs : List TestStatus) : Prop where
  lines : readScreen (ConsoleReporter.transcript evs) = ([], .ok vs)
  summary : ConsoleReporter.finish ⟨tally vs .passed, tally vs .failed, tally vs .skipped⟩ <:+
    ConsoleReporter.transcript evs

variable {codec : HostCodec} {mode : Mode} {s : Sys ω} {r : Sys ω × Nat} {new : List Step}

/-- The events of a run, and its answer. -/
theorem told_shows (htell : Telling tell) (h : KeepsProtocol s r)
    (htrace : r.1.trace = s.trace ++ new) (hlines : OneLineEach (told tell new)) :
    Shows (told tell new) (statuses (messages new)) ∧
      r.2 = if tally (statuses (messages new)) .failed ≠ 0 then 1 else 0 := by
  obtain ⟨new', pre, w, htrace', haccepted, hmessages, -, hreturn⟩ := h
  have hsame : new' = new := List.append_cancel_left (htrace'.symm.trans htrace)
  subst hsame
  have htidy : Tidy false (told tell new') :=
    tidy_told htell haccepted fun hf => absurd hf Bool.false_ne_true
  have htold : told tell new' =
      pre.filterMap tell ++ [.done w.passed w.failed w.skipped] := by
    unfold told
    rw [hmessages, List.filterMap_append,
      List.filterMap_cons_some (htell.done w.passed w.failed w.skipped)]
    rfl
  obtain ⟨hpassed, hfailed, hskipped⟩ := accepted_counters haccepted
  have hstart : w.passed = tally (statuses (messages new')) .passed ∧
      w.failed = tally (statuses (messages new')) .failed ∧
      w.skipped = tally (statuses (messages new')) .skipped :=
    ⟨hpassed.trans (UInt32.zero_add _), hfailed.trans (UInt32.zero_add _),
      hskipped.trans (UInt32.zero_add _)⟩
  refine ⟨⟨?_, ?_⟩, ?_⟩
  · rw [readScreen_transcript hlines htidy, verdicts_told htell]
  · rw [htold, ConsoleReporter.transcript_done, hstart.1, hstart.2.1, hstart.2.2]
    exact List.suffix_append _ _
  · rw [hreturn, hstart.2.1]

/-- On either board, for every test program and every entry point: if the codec hears the
messages, no name has a line break, the time limit does not pass and the reports can be
written, a reader of the terminal gets the status of every case from its line, the last line
has the numbers of these statuses, and the CLI exits with 1 exactly when the number of
failures is not zero. -/
theorem console_shows (p : Program ω) (e : Entry) (s : Sys ω) (htell : Telling tell)
    (htrace : (e.run p s).1.trace = s.trace ++ new) (hlines : OneLineEach (told tell new))
    {t : TargetConfig} (hcodec : HostCodec.ofName t.codec = .ok codec)
    (hhears : Lossless codec tell mode new) {disk : Disk} (hdisk : Writes disk)
    {rs : List Reporter} (hrs : makeReporters t = .ok rs) {reads : List (Read PluginError)}
    (hreads : Delivers mode new reads) {b : Board} {tag suite group : Option Str}
    (hb : Attached b (mergeFilter t tag suite group) reads) {cliIsolate : Bool}
    {cliOnCrash : Option String} (hcommand : PlainRun t tag suite group cliIsolate cliOnCrash)
    (m : Machine) :
    let vs := statuses (messages new)
    let out := runTarget disk m b t tag suite group cliIsolate cliOnCrash
    (∀ r ∈ out.1, r.kind = .console → Shows r.received vs) ∧
      out.2.code = if tally vs .failed ≠ 0 then 1 else 0 := by
  have hprotocol := run_protocol p e s
  obtain ⟨hshows, hanswer⟩ := told_shows htell hprotocol htrace hlines
  obtain ⟨hreceived, hcode⟩ := drain_keeps htell hprotocol htrace hcodec hhears hdisk hrs hreads
  have hrun := runTarget_attached hb hcommand disk m
  intro vs out
  refine ⟨fun r hr _ => ?_, ?_⟩
  · have hmem : r.received ∈ rs.map fun _ => told tell new := by
      rw [← hreceived, ← hrun]
      exact List.mem_map_of_mem hr
    obtain ⟨-, -, heq⟩ := List.mem_map.mp hmem
    rw [← heq]
    exact hshows
  · show (runTarget disk m b t tag suite group cliIsolate cliOnCrash).2.code = _
    rw [hrun, hcode, hanswer]

/-- QEMU with the binary of two cases, the first of which fails. -/
theorem console_shows_wrongSum :
    let m : Machine := ⟨.ok (), fun _ => .error "", fun _ _ => .error ""⟩
    let out := runTarget freeDisk m qemuBoard qemuTarget none none none false none
    (∀ r ∈ out.1, r.kind = .console → Shows r.received [.failed, .passed]) ∧ out.2.code = 1 := by
  have hlossless : Lossless (.cobs .new) msgEvent .binary
      ((potRunAll wrongSum pairSys).1.trace.drop pairSys.trace.length) :=
    lossless_cobs (by decide +kernel)
  have hlines : OneLineEach (told msgEvent
      ((potRunAll wrongSum pairSys).1.trace.drop pairSys.trace.length)) := by
    unfold OneLineEach
    decide +kernel
  have hattached : Attached qemuBoard (mergeFilter qemuTarget none none none)
      (wholeReads wrongSum pairSys) := ⟨rfl, rfl, ⟨_, rfl⟩, fun _ _ => rfl⟩
  have hdisk : Writes freeDisk := fun _ _ => rfl
  have hcommand : PlainRun qemuTarget none none none false none :=
    .qemu ⟨rfl, rfl, rfl, by decide⟩
  have hstatuses : statuses (messages
      ((potRunAll wrongSum pairSys).1.trace.drop pairSys.trace.length)) = [.failed, .passed] := by
    decide +kernel
  intro m out
  have hshows := console_shows wrongSum .all pairSys msgEvent_telling (by decide +kernel) hlines
    rfl hlossless hdisk
    (show makeReporters qemuTarget = .ok [.new .junit, .new .console] from rfl)
    (delivers_bytes .binary _) hattached hcommand m
  rw [hstatuses] at hshows
  exact hshows

end PolyOnTest.Cli
