import PolyOnTest.Cli.Verdict

/-!
# Reports at the end of a stream

Whether the reporters of `drain_stream` are told to finish.  The loop ends in five
ways, and two of them skip the statements behind it: a codec error and a read error
that is no system error.  `drainStream_finishes_iff` says that these are the only
ways to lose a report.
-/

namespace PolyOnTest.Cli

open CodeLib PolyOnTest.Builtins

/-- The events up to the first terminal one, which is the last one that a reporter
gets. -/
def upToDone : List Event → List Event
  | [] => []
  | ev :: evs => if ev.isTerminal then [ev] else ev :: upToDone evs

/-- A reporter that has got some events and then one call of `finish`. -/
def finishedWith (evs : List Event) (r : Reporter) : Reporter :=
  { r with received := r.received ++ evs, finished := r.finished + 1 }

/-- The stream has a `Done` event, or it is read to the end of the file or to a
system error. -/
def StopsClean (t : TargetConfig) (reads : List (Read PluginError)) : Prop :=
  (∃ ev ∈ (heardStream t reads).1, ev.isTerminal = true) ∨ (heardStream t reads).2 = .ok ()

theorem upToDone_plain {evs : List Event} (h : ∀ ev ∈ evs, ev.isTerminal = false) :
    upToDone evs = evs := by
  induction evs with
  | nil => rfl
  | cons ev evs ih =>
      rw [upToDone, h ev (by simp), if_neg (by simp), ih fun x hx => h x (by simp [hx])]

theorem upToDone_done {pre : List Event} (h : ∀ ev ∈ pre, ev.isTerminal = false)
    (passed failed skipped : UInt32) (post : List Event) :
    upToDone (pre ++ .done passed failed skipped :: post) =
      pre ++ [.done passed failed skipped] := by
  induction pre with
  | nil => rfl
  | cons ev pre ih =>
      rw [List.cons_append, upToDone, h ev (by simp), if_neg (by simp),
        ih fun x hx => h x (by simp [hx]), List.cons_append]

/-- The system takes the report of some events from every reporter. -/
def TakesReport (disk : Disk) (evs : List Event) : Prop := ∀ kind, disk kind evs = .ok ()

/-- All reporters finish when their reports can be written. -/
theorem finishAll_writable {disk : Disk} {rs : List Reporter} (h : Writable disk rs) :
    finishAll disk rs = (rs.map (finishedWith []), .ok ()) := by
  induction rs with
  | nil => rfl
  | cons r rs ih =>
      rw [finishAll, Reporter.finish, h r (by simp)]
      dsimp only
      rw [ih fun x hx => h x (by simp [hx])]
      simp [finishedWith]

theorem conclude_takes {disk : Disk} {evs : List Event} (h : TakesReport disk evs)
    {rs : List Reporter} (hfresh : ∀ r ∈ rs, r.received = []) (failed : UInt32) :
    (conclude disk (rs.map (Reporter.receive evs)) failed).1 =
      rs.map (finishedWith evs) := by
  have hwritable : Writable disk (rs.map (Reporter.receive evs)) := by
    intro r hr
    obtain ⟨r', hr', rfl⟩ := List.mem_map.mp hr
    rw [Reporter.receive_received, hfresh r' hr']
    exact h r'.kind
  have hmap : (rs.map (Reporter.receive evs)).map (finishedWith []) =
      rs.map (finishedWith evs) := by
    rw [List.map_map]
    refine List.map_congr_left fun r _ => ?_
    simp [finishedWith, Reporter.receive]
  rw [conclude, finishAll_writable hwritable]
  exact hmap

/-- Events alone finish no reporter. -/
theorem map_receive_ne_finished {rs : List Reporter} (hne : rs ≠ [])
    (evs evs' : List Event) :
    rs.map (Reporter.receive evs) ≠ rs.map (finishedWith evs') := by
  intro h
  obtain ⟨r, rs', rfl⟩ := List.exists_cons_of_ne_nil hne
  have hfinished := congrArg Reporter.finished (List.cons.inj h).1
  simp [Reporter.receive, finishedWith] at hfinished

/-- The reporters of a stream get its events up to the first `Done` and one call of
`finish`, exactly when the stream has a `Done` or ends without an error of the codec
or of the transport (or when there is no reporter). -/
theorem drainStream_finishes_iff {t : TargetConfig} {codec : HostCodec}
    (hcodec : HostCodec.ofName t.codec = .ok codec) {rs : List Reporter}
    (hrs : makeReporters t = .ok rs) (reads : List (Read PluginError)) {disk : Disk}
    (hdisk : TakesReport disk (upToDone (heardStream t reads).1)) :
    (drainStream disk t reads).1 =
        rs.map (finishedWith (upToDone (heardStream t reads).1)) ↔
      rs = [] ∨ StopsClean t reads := by
  have hfresh := makeReporters_fresh hrs
  unfold drainStream StopsClean heardStream at *
  rw [hcodec] at hdisk
  rw [hcodec, hrs]
  dsimp only at hdisk
  dsimp only
  rw [drainLoop_eq]
  generalize readAll PluginError.text codec reads = heard at hdisk ⊢
  rcases heard with ⟨evs, ending⟩
  rcases terminal_cases evs with hplain | ⟨pre, passed, failed, skipped, post, rfl, hpre⟩
  · have hnone : ¬ ∃ ev ∈ evs, ev.isTerminal = true := by
      rintro ⟨ev, hev, hterminal⟩
      rw [hplain ev hev] at hterminal
      exact Bool.false_ne_true hterminal
    rw [upToDone_plain hplain] at hdisk
    rw [drainHeard, drainEvents_plain disk hplain, upToDone_plain hplain]
    cases ending with
    | ok u =>
      exact iff_of_true (conclude_takes hdisk hfresh 0) (Or.inr (Or.inr rfl))
    | error e =>
      dsimp only
      by_cases hempty : rs = []
      · subst hempty
        exact iff_of_true rfl (Or.inl rfl)
      · refine iff_of_false (map_receive_ne_finished hempty evs evs) ?_
        rintro (h | h | h)
        · exact hempty h
        · exact hnone h
        · cases h
  · have hdone : ∃ ev ∈ pre ++ .done passed failed skipped :: post, ev.isTerminal = true :=
      ⟨.done passed failed skipped, by simp, rfl⟩
    rw [upToDone_done hpre] at hdisk
    rw [drainHeard, drainEvents_done disk hpre, upToDone_done hpre]
    exact iff_of_true (conclude_takes hdisk hfresh failed) (Or.inr (Or.inl hdone))

/-- A target with the default codec and one reporter that writes a file. -/
def reportTarget : TargetConfig := { TargetConfig.default with reporters := ["junit"] }

/-- The events of a run with a case that passes and one that fails. -/
def runEvents : List Event :=
  [.suiteStart ['M'], .caseStart ['M'] ['a'], .caseEnd ['M'] ['a'] .passed,
    .caseStart ['M'] ['b'], .assertFail ['M'] ['b'] [] 7 ['x'],
    .caseEnd ['M'] ['b'] .failed, .suiteEnd ['M'] 1 1 0, .done 1 1 0]

/-- Its stream in two reads, with a cut inside of a frame, and what comes after it. -/
def runStream : List (Read PluginError) :=
  [.data ((runEvents.flatMap CobsCodec.encode).take 100),
    .data ((runEvents.flatMap CobsCodec.encode).drop 100), .failed (.io "closed")]

theorem drainStream_finishes_iff_run :
    (drainStream freeDisk reportTarget runStream).1 =
      [Reporter.new .junit].map
        (finishedWith (upToDone (heardStream reportTarget runStream).1)) :=
  (@drainStream_finishes_iff reportTarget (.cobs .new) rfl [.new .junit] rfl runStream
    freeDisk fun _ => rfl).mpr (Or.inr (Or.inl (by decide +kernel)))

/-- A case that failed, and then a frame that the codec rejects. -/
def brokenStream : List (Read PluginError) :=
  [.data (CobsCodec.encode (.caseEnd ['M'] ['a'] .failed)), .data [5, 0]]

/-- The failed case reaches the reporter, and no report is written. -/
theorem drainStream_broken :
    drainStream freeDisk reportTarget brokenStream =
      ([⟨.junit, [.caseEnd ['M'] ['a'] .failed], 0⟩], .error "codec error: overrun") := by
  decide +kernel

end PolyOnTest.Cli
