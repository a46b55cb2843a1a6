import Mathlib.Data.List.Nodup
import PolyOnTest.Cli.Children
import PolyOnTest.Cli.Verdict
import PolyOnTest.Run.Modes

/-!
# One process for each case

The isolated run refines the run in one process.  The test binary is a program
behind `pot_run_from_env`: the variables that the host sets make it list its
cases, or run one of them (`TestBinary`).

* `child_run`: the process of a case runs this case and no other.
* `discover_all`: the host finds the cases in the order of a run.
* `isolated_refines` is the result: the reporters of an isolated run take the
  events that they take from a stream run over all cases, but for the ends of the
  suites.
-/

namespace PolyOnTest.Cli

open CodeLib CodeLib.CMemory PolyOnTest.Builtins PolyOnTest.Harness PolyOnTest.Run
  PolyOnTest.Wire

variable {ω : Type}

/-! ## The test binary -/

/-- The variables that `discover_cases` sets. -/
def discoverVars (filter : HostFilter) : Vars where
  discover := some (CStr.lit "1")
  tag := filter.tag.map cStr
  suite := filter.suite.map cStr
  group := filter.group.map cStr
  case := none

/-- The variables that `run_isolated` sets for a case. -/
def childVars (c : TestCase) : Vars where
  discover := none
  tag := none
  suite := some (cStr c.suite)
  group := some (cStr c.group)
  case := some (cStr c.name)

/-- The reads of a stream that carries the output of a trace, cut anywhere. -/
def Delivers {ε : Type} (mode : Mode) (trace : List Step) (reads : List (Read ε)) : Prop :=
  ∃ chunks : List (List UInt8), (∀ chunk ∈ chunks, chunk ≠ []) ∧
    chunks.flatten = output mode trace ∧ reads = chunks.map .data

/-- A process that ends by itself behind a trace, in time. -/
structure Process (mode : Mode) (trace : List Step) (status : Nat) (child : Child) :
    Prop where
  reads : Delivers mode trace child.reads
  deadline : child.deadline = none
  wait : child.wait = .ok (.exited (UInt8.ofNat status))

/-- A machine whose test binary calls `pot_run_from_env` in the state `s`. -/
structure TestBinary (p : Program ω) (s : Sys ω) (mode : Mode) (m : Machine) : Prop where
  build : m.build = .ok ()
  discover : ∀ filter writes, potRunFromEnv p (discoverVars filter) s = .listed writes →
    m.discover filter = .ok ⟨writes.flatten, .exited 0⟩
  spawn : ∀ k c r new, potRunFromEnv p (childVars c) s = .ran r →
    r.1.trace = s.trace ++ new → ∃ child, m.spawn k c = .ok child ∧ Process mode new r.2 child

/-- The machine of a program, with reads of one byte. -/
def binaryMachine (p : Program ω) (s : Sys ω) (mode : Mode) : Machine where
  build := .ok ()
  discover filter :=
    match potRunFromEnv p (discoverVars filter) s with
    | .listed writes => .ok ⟨writes.flatten, .exited 0⟩
    | .ran _ => .error "no list"
  spawn _ c :=
    match potRunFromEnv p (childVars c) s with
    | .listed _ => .error "no run"
    | .ran r =>
        .ok ⟨(output mode (r.1.trace.drop s.trace.length)).map fun b => .data [b], none,
          .ok (.exited (UInt8.ofNat r.2))⟩

theorem delivers_bytes {ε : Type} (mode : Mode) (trace : List Step) :
    Delivers mode trace ((output mode trace).map fun b => (Read.data [b] : Read ε)) := by
  refine ⟨(output mode trace).map fun b => [b], ?_, ?_, ?_⟩
  · intro chunk hchunk
    obtain ⟨b, -, rfl⟩ := List.mem_map.mp hchunk
    exact List.cons_ne_nil b []
  · rw [← List.flatMap_def, List.flatMap_singleton']
  · rw [List.map_map]
    rfl

theorem binaryMachine_testBinary (p : Program ω) (s : Sys ω) (mode : Mode) :
    TestBinary p s mode (binaryMachine p s mode) where
  build := rfl
  discover := by
    intro filter writes hwrites
    unfold binaryMachine
    dsimp only
    rw [hwrites]
  spawn := by
    intro k c r new hrun htrace
    unfold binaryMachine
    dsimp only
    rw [hrun]
    refine ⟨_, rfl, ?_, rfl, rfl⟩
    dsimp only
    rw [htrace, List.drop_left]
    exact delivers_bytes mode new

/-! ## Codecs -/

/-- A codec tells the events of a trace, however its output is cut. -/
def Lossless (codec : HostCodec) (tell : Msg → Option Event) (mode : Mode)
    (trace : List Step) : Prop :=
  ∀ (ε : Type) (text : ε → String) reads, Delivers mode trace reads →
    readAll text codec reads = (told tell trace, .ok ())

/-- Reading nonempty chunks to the end is decoding them one by one. -/
theorem readAll_chunks {ε : Type} (text : ε → String) {codec last : CobsCodec}
    {chunks : List (List UInt8)} (hne : ∀ chunk ∈ chunks, chunk ≠ []) {out all : List Event}
    (h : decodeChunks CobsCodec.decodeFeed codec chunks out = (last, .ok all)) :
    ∃ events, all = out ++ events ∧
      readAll text (.cobs codec) (chunks.map .data) = (events, .ok ()) := by
  induction chunks generalizing codec out with
  | nil =>
      cases h
      exact ⟨[], by simp, rfl⟩
  | cons chunk chunks ih =>
      rw [decodeChunks] at h
      rw [List.map_cons, readAll, if_neg (hne chunk (by simp)), HostCodec.decodeFeed]
      rcases hfeed : codec.decodeFeed chunk with ⟨codec', e | found⟩
      · rw [hfeed] at h
        cases h
      · rw [hfeed] at h
        obtain ⟨events, rfl, hread⟩ := ih (fun c hc => hne c (by simp [hc])) h
        refine ⟨found ++ events, by simp, ?_⟩
        dsimp only
        rw [hread]

/-- The binary codec tells the events of every trace whose messages fit. -/
theorem lossless_cobs {trace : List Step} (h : ∀ m ∈ messages trace, Fits m) :
    Lossless (.cobs .new) msgEvent .binary trace := by
  rintro ε text reads ⟨chunks, hne, hflatten, rfl⟩
  obtain ⟨events, hall, hread⟩ := readAll_chunks text hne
    (decodeChunks_frames ((messages trace).filterMap msgSlots)
      (hflatten.trans (output_frames h)))
  rw [hread, told, ← msgSlots_events h, hall, List.nil_append]

/-! ## Selection -/

/-- A registry whose cases the host can name, and a program whose functions always
make the same calls. -/
structure Isolable (p : Program ω) (script : FnId → List Call) (s : Sys ω) : Prop where
  scripted : Scripted p script
  param : Unparameterised s.g
  suites : SilentSuites p s.g.env.reg
  groups : SilentGroups p s.g.env.reg
  ids : ((registered p s).map Case.id).Nodup
  words : ∀ t ∈ registered p s, WordId t.id ∧ FitsLine t

theorem WordName.nonEmpty {name : Option CStr} (h : WordName name) :
    ∃ a, name = some a ∧ some (cStr (nameText name)) = some a ∧
      Harness.nonEmpty (some a) = some a := by
  refine ⟨_, h.text, rfl, ?_⟩
  refine Option.filter_eq_some_iff.mpr ⟨rfl, decide_eq_true fun hnil => ?_⟩
  refine h.word.nonempty ?_
  unfold nameText
  rw [h.text]
  show Utf8.lossy (cStr (nameText name)).bytes = []
  rw [hnil]
  rfl

/-- The filter by a value that occurs once. -/
theorem filter_eq_singleton {α β : Type} [DecidableEq β] {f : α → β} {xs : List α}
    (h : (xs.map f).Nodup) {x : α} (hx : x ∈ xs) :
    xs.filter (fun y => f y = f x) = [x] := by
  induction xs with
  | nil => exact (List.not_mem_nil hx).elim
  | cons y ys ih =>
      obtain ⟨hy, hys⟩ := List.nodup_cons.mp h
      rcases List.mem_cons.mp hx with rfl | hx
      · rw [List.filter_cons_of_pos (by simp), List.filter_eq_nil_iff.mpr]
        intro z hz heq
        exact hy (List.mem_map.mpr ⟨z, hz, of_decide_eq_true heq⟩)
      · have hne : f y ≠ f x := fun heq => hy (heq ▸ List.mem_map_of_mem hx)
        rw [List.filter_cons_of_neg (by simpa using hne)]
        exact ih hys hx

/-- The variables of a case make the harness select it alone. -/
theorem child_selects {p : Program ω} {s : Sys ω}
    (hids : ((registered p s).map Case.id).Nodup) {t : Case} (ht : t ∈ registered p s)
    (hword : WordId t.id) :
    ∃ sel s', potRunFromEnv p (childVars (testCase t)) s = .ran (runFiltered p sel s') ∧
      s'.trace = s.trace ∧ s'.g.env.reg = s.g.env.reg ∧
      s'.g.paramActive = s.g.paramActive ∧
      (sortCases (registered p s')).filter (sel (prepare p s').g.env) = [t] := by
  obtain ⟨a, ha, hsuite, hna⟩ := hword.suite.nonEmpty
  obtain ⟨b, hb, hgroup, hnb⟩ := hword.group.nonEmpty
  obtain ⟨c, hc, hname, hnc⟩ := hword.name.nonEmpty
  refine ⟨matchCase a, s.setFilter (some b) (some c), ?_, rfl, rfl, rfl, ?_⟩
  · have hvars : childVars (testCase t) = ⟨none, none, some a, some b, some c⟩ := by
      rw [← hsuite, ← hgroup, ← hname]
      rfl
    rw [hvars]
    unfold potRunFromEnv cascade potRunCase
    simp [hna, hnb, hnc]
  · have hperm := sortCases_perm (registered p s)
    have hselect : ∀ x, matchCase a (prepare p (s.setFilter (some b) (some c))).g.env x =
        decide (x.id = t.id) := by
      intro x
      have hid : x.id = t.id ↔ x.suite = some a ∧ x.group = some b ∧ x.name = some c := by
        rw [← ha, ← hb, ← hc]
        exact CaseId.mk.injEq .. ▸ Iff.rfl
      refine Bool.eq_iff_iff.mpr ?_
      rw [decide_eq_true_iff, hid]
      show (true && true && decide (strCmp x.suite (some a) = .eq) &&
        decide (strCmp x.group (some b) = .eq) &&
          decide (strCmp x.name (some c) = .eq)) = true ↔ _
      simp [strCmp_eq_iff, and_assoc]
    have hreg : registered p (s.setFilter (some b) (some c)) = registered p s := rfl
    rw [hreg, List.filter_congr fun x _ => hselect x]
    exact filter_eq_singleton ((hperm.map Case.id).nodup_iff.mpr hids)
      (hperm.mem_iff.mpr ht)

/-! ## The process of a case -/

section Child

variable {p : Program ω} {script : FnId → List Call} {s : Sys ω}
  {tell : Msg → Option Event}

theorem Isolable.named (h : Isolable p script s) {t : Case} (ht : t ∈ registered p s) :
    t.suite ≠ none := by
  obtain ⟨a, ha, -⟩ := (h.words t ht).1.suite.nonEmpty
  have hsuite : t.suite = some a := ha
  rw [hsuite]
  exact Option.some_ne_none a

/-- The process of a case runs this case and no other, and its messages are those
of the case in brackets. -/
theorem child_run (h : Isolable p script s) {t : Case} (ht : t ∈ registered p s) :
    ∃ r new passed failed skipped,
      potRunFromEnv p (childVars (testCase t)) s = .ran r ∧ r.1.trace = s.trace ++ new ∧
      executed new = [t] ∧
      reported new = .suiteStart t.suite :: (caseMsgs script t ++
        [.suiteEnd t.suite passed failed skipped, doneMsg script [t]]) ∧
      (r.2 = 0 ∨ r.2 = 1) := by
  obtain ⟨sel, s', hrun, htrace, hreg, hparam, hone⟩ :=
    child_selects h.ids ht (h.words t ht).1
  obtain ⟨new, passed, failed, skipped, hnew, hexecuted, hreported, hreturn⟩ :=
    scripted_one h.scripted (hparam.trans h.param) (hreg ▸ h.suites)
      (hreg ▸ h.groups) (fun x hx => h.named (registered_congr p hreg ▸ hx)) hone
  exact ⟨runFiltered p sel s', new, passed, failed, skipped, hrun, by rw [hnew, htrace],
    hexecuted, hreported, hreturn⟩

/-- What a codec tells of the process of a case. -/
theorem told_child (htell : Telling tell) {new : List Step} {t : Case}
    {passed failed skipped : UInt32}
    (h : reported new = .suiteStart t.suite :: (caseMsgs script t ++
      [.suiteEnd t.suite passed failed skipped, doneMsg script [t]])) :
    told tell new = childEvents tell script t passed failed skipped := by
  rw [told_eq htell, h, List.filterMap_cons, htell.suiteStart, List.filterMap_append,
    List.filterMap_cons, htell.suiteEnd]
  rfl

/-- A codec tells the events of the run over all cases, and of the runs of the
cases one by one. -/
structure Hears (p : Program ω) (s : Sys ω) (codec : HostCodec)
    (tell : Msg → Option Event) (mode : Mode) : Prop where
  whole : ∀ new, (potRunAll p s).1.trace = s.trace ++ new → Lossless codec tell mode new
  child : ∀ t ∈ registered p s, ∀ r new,
    potRunFromEnv p (childVars (testCase t)) s = .ran r → r.1.trace = s.trace ++ new →
      Lossless codec tell mode new

variable {mode : Mode} {m : Machine} {name : String} {codec : HostCodec}

/-- The process that the machine starts for a case runs it to the end. -/
theorem child_runsCase (h : Isolable p script s) (htell : Telling tell)
    (hbinary : TestBinary p s mode m) (hcodec : HostCodec.ofName name = .ok codec)
    (hhears : Hears p s codec tell mode) (k : Nat) {t : Case} (ht : t ∈ registered p s) :
    ∃ child, m.spawn k (testCase t) = .ok child ∧ RunsCase tell script name t child := by
  obtain ⟨r, new, passed, failed, skipped, hrun, htrace, -, hreported, hreturn⟩ :=
    child_run h ht
  obtain ⟨child, hspawn, hprocess⟩ := hbinary.spawn k _ r new hrun htrace
  have hread := hhears.child t ht r new hrun htrace String id child.reads hprocess.reads
  refine ⟨child, hspawn, passed, failed, skipped, _, ?_, hprocess.wait, ?_⟩
  · unfold Child.heard readerThread
    rw [hprocess.deadline, hcodec]
    dsimp only
    rw [hread, told_child htell hreported]
  · rcases hreturn with hreturn | hreturn <;> rw [hreturn] <;> decide

end Child

/-! ## The list of the cases -/

/-- No filter. -/
def noFilter : HostFilter := ⟨none, none, none⟩

/-- The host finds the cases in the order of a run. -/
theorem discover_all {p : Program ω} {script : FnId → List Call} {s : Sys ω}
    {mode : Mode} {m : Machine} (h : Isolable p script s)
    (hbinary : TestBinary p s mode m) :
    discoverCases m noFilter = .ok ((sortCases (registered p s)).map testCase) := by
  have hall : discovered p (discoverVars noFilter) s = sortCases (registered p s) :=
    List.filter_eq_self.mpr fun _ _ => rfl
  have hlist := hbinary.discover noFilter _ rfl
  rw [hall] at hlist
  exact discoverCases_listing hbinary.build hlist fun t ht =>
    h.words t ((sortCases_perm (registered p s)).mem_iff.mp ht)

/-! ## The two runs -/

/-- The events that both runs forward. -/
def inStory : Event → Bool
  | .suiteEnd .. => false
  | .log .. => false
  | _ => true

/-- A list of events without the ends of suites and the log. -/
def story (evs : List Event) : List Event := evs.filter inStory

theorem story_append (a b : List Event) : story (a ++ b) = story a ++ story b :=
  List.filter_append ..

@[simp] theorem story_story (evs : List Event) : story (story evs) = story evs := by
  simp [story]

section Runs

variable {script : FnId → List Call} {tell : Msg → Option Event}

/-- The last event of a run over some cases. -/
def doneEvent (script : FnId → List Call) (ts : List Case) : Event :=
  .done (UInt32.ofNat (scriptTotal script ts .passed))
    (UInt32.ofNat (scriptTotal script ts .failed))
    (UInt32.ofNat (scriptTotal script ts .skipped))

theorem mem_caseEvents (htell : Telling tell) {t : Case} {ev : Event}
    (hev : ev ∈ caseEvents tell script t) : inStory ev = true ∧ ev.isTerminal = false := by
  obtain ⟨failures, hfailures, hevents⟩ := caseEvents_eq htell script t
  rw [hevents, List.mem_cons, List.mem_append, List.mem_singleton] at hev
  rcases hev with rfl | hev | rfl
  · exact ⟨rfl, rfl⟩
  · have hfail := hfailures ev hev
    cases ev <;> first | exact ⟨rfl, rfl⟩ | cases hfail
  · exact ⟨rfl, rfl⟩

theorem mem_suiteStory (htell : Telling tell) {r : SuiteReport} {ev : Event}
    (hev : ev ∈ suiteStory tell script r) : inStory ev = true ∧ ev.isTerminal = false := by
  rcases List.mem_cons.mp hev with rfl | hev
  · exact ⟨rfl, rfl⟩
  · obtain ⟨c, -, hev⟩ := List.mem_flatMap.mp hev
    exact mem_caseEvents htell hev

/-- What a codec tells of a suite. -/
theorem told_suite (htell : Telling tell) (r : SuiteReport) :
    (suiteMsgs script r).filterMap tell = suiteStory tell script r ++
      [.suiteEnd (nameText r.name) (UInt32.ofNat (r.count .passed))
        (UInt32.ofNat (r.count .failed)) (UInt32.ofNat (r.count .skipped))] := by
  unfold suiteMsgs suiteStory
  rw [List.filterMap_cons, htell.suiteStart, List.filterMap_append, List.filterMap_flatMap,
    List.filterMap_cons, htell.suiteEnd]
  rfl

/-- The counters behind the loop are those of the run over all cases. -/
theorem tally_cases (ts : List Case) :
    (ts.map (caseStatus script)).foldl Tally.add ⟨0, 0, 0⟩ =
      ⟨UInt32.ofNat (scriptTotal script ts .passed),
        UInt32.ofNat (scriptTotal script ts .failed),
        UInt32.ofNat (scriptTotal script ts .skipped)⟩ := by
  have hcount : ∀ status,
      (ts.map (caseStatus script)).count status = scriptTotal script ts status := by
    intro status
    rw [List.count_eq_countP, List.countP_map]
    rfl
  rw [foldl_add, hcount, hcount, hcount]
  simp

/-- A system that takes every report. -/
def Writes (disk : Disk) : Prop := ∀ kind evs, disk kind evs = .ok ()

theorem reportDone_received {disk : Disk} (hdisk : Writes disk) (ev : Event)
    (rs : List Reporter) :
    ∃ rs', reportDone disk ev rs = (rs', .ok ()) ∧
      rs'.map Reporter.received = rs.map fun r => r.received ++ [ev] := by
  induction rs with
  | nil => exact ⟨[], rfl, rfl⟩
  | cons r rs ih =>
      obtain ⟨rs', hdone, hreceived⟩ := ih
      refine ⟨{ r.onEvent ev with finished := r.finished + 1 } :: rs', ?_, ?_⟩
      · rw [reportDone, Reporter.finish, hdisk]
        dsimp only
        rw [hdone]
        rfl
      · rw [List.map_cons, List.map_cons, hreceived]
        rfl

/-- What the reporters of an isolated run take. -/
theorem isolated_received (htell : Telling tell) {disk : Disk} (hdisk : Writes disk)
    {m : Machine} {t : TargetConfig} {filter : HostFilter} (onCrash : String)
    {ts : List Case} {rs : List Reporter}
    (hcases : discoverCases m filter = .ok (ts.map testCase)) (hne : ts ≠ [])
    (hrs : makeReporters t = .ok rs)
    (hspawn : ∀ k, ∀ x ∈ ts, ∃ child,
      m.spawn k (testCase x) = .ok child ∧ RunsCase tell script t.codec x child) :
    (runIsolated disk m t filter onCrash).1.map Reporter.received =
      rs.map fun _ => forwarded tell script [] ts ++ [doneEvent script ts] := by
  obtain ⟨s, hrun, hreporters, htally⟩ := runCases_children htell onCrash 0 hspawn (.start rs)
  have hcounts : s.tally = ⟨UInt32.ofNat (scriptTotal script ts .passed),
      UInt32.ofNat (scriptTotal script ts .failed),
      UInt32.ofNat (scriptTotal script ts .skipped)⟩ := by
    rw [htally]
    exact tally_cases ts
  have hdone : Event.done s.passed s.failed s.skipped = doneEvent script ts := by
    unfold Session.tally at hcounts
    injection hcounts with hpassed hfailed hskipped
    rw [hpassed, hfailed, hskipped]
    rfl
  obtain ⟨rs', hreport, hreceived⟩ :=
    reportDone_received hdisk (doneEvent script ts) s.reporters
  rw [runIsolated_eq hcases (by simpa using hne) hrs hrun, finishRun, hdone, hreport]
  dsimp only
  rw [hreceived, hreporters, List.map_map]
  refine List.map_congr_left fun r hr => ?_
  show r.received ++ _ ++ _ = _
  rw [makeReporters_fresh hrs r hr, List.nil_append]
  rfl

/-- What the reporters of a stream run take, up to the first `Done` event. -/
theorem stream_received (disk : Disk) {t : TargetConfig} {codec : HostCodec}
    (hcodec : HostCodec.ofName t.codec = .ok codec) {rs : List Reporter}
    (hrs : makeReporters t = .ok rs) {reads : List (Read PluginError)} {pre : List Event}
    {passed failed skipped : UInt32} (hpre : ∀ ev ∈ pre, ev.isTerminal = false)
    (hread : readAll PluginError.text codec reads =
      (pre ++ [.done passed failed skipped], .ok ())) :
    (drainStream disk t reads).1.map Reporter.received =
      rs.map fun _ => pre ++ [.done passed failed skipped] := by
  have hconclude : ∀ rs' failed', (conclude disk rs' failed').1 = (finishAll disk rs').1 := by
    intro rs' failed'
    unfold conclude
    rcases finishAll disk rs' with ⟨rs'', e | u⟩ <;> rfl
  unfold drainStream
  rw [hcodec, hrs]
  dsimp only
  rw [drainLoop_eq, drainHeard, hread, drainEvents_done disk hpre]
  dsimp only
  rw [hconclude, finishAll_received, List.map_map]
  refine List.map_congr_left fun r hr => ?_
  show r.received ++ _ = _
  rw [makeReporters_fresh hrs r hr, List.nil_append]

/-- A codec tells of the run over all cases the suites one by one, and the end. -/
theorem told_all {p : Program ω} {s : Sys ω} (h : Isolable p script s)
    (htell : Telling tell) :
    ∃ pre new, (potRunAll p s).1.trace = s.trace ++ new ∧
      told tell new = pre ++ [doneEvent script (sortCases (registered p s))] ∧
      (∀ ev ∈ pre, ev.isTerminal = false) ∧
      story pre = forwarded tell script [] (sortCases (registered p s)) := by
  obtain ⟨rs, new, hrs, hcases, htrace, -, hreported, -⟩ :=
    scripted_run h.scripted matchAll h.param h.suites h.groups fun t ht => h.named ht
  have hall : (sortCases (registered p s)).filter (matchAll (prepare p s).g.env) =
      sortCases (registered p s) := List.filter_eq_self.mpr fun _ _ => rfl
  rw [hall] at hcases
  have hword : ∀ r ∈ rs, WordName r.name := by
    intro r hr
    obtain ⟨c, hc⟩ := List.exists_mem_of_ne_nil _ (hrs.nonempty r hr)
    have hmem := mem_reportedCases hr hc
    rw [hcases] at hmem
    rw [← hrs.suite r hr c hc]
    exact (h.words _ ((sortCases_perm (registered p s)).mem_iff.mp hmem)).1.suite
  refine ⟨rs.flatMap fun r => (suiteMsgs script r).filterMap tell, new, htrace, ?_, ?_, ?_⟩
  · rw [told_eq htell, hreported, List.filterMap_append, List.filterMap_flatMap, hcases,
      List.filterMap_cons, List.filterMap_nil, doneMsg, htell.done]
    rfl
  · intro ev hev
    obtain ⟨r, -, hev⟩ := List.mem_flatMap.mp hev
    rw [told_suite htell, List.mem_append, List.mem_singleton] at hev
    rcases hev with hev | rfl
    · exact (mem_suiteStory htell hev).2
    · rfl
  · rw [← hcases, forwarded_suites hrs hword fun _ _ => List.not_mem_nil, story,
      List.filter_flatMap]
    refine List.flatMap_congr fun r _ => ?_
    rw [told_suite htell]
    show story (_ ++ _) = _
    have hsuite : story (suiteStory tell script r) = suiteStory tell script r :=
      List.filter_eq_self.mpr fun ev hev => (mem_suiteStory htell hev).1
    rw [story_append, hsuite]
    exact List.append_nil _

end Runs

/-- An isolated run of a test binary with at least one case refines its run in one
process.  The host finds the cases in the order of a run, the process of the `k`-th
case runs this case and no other, and every reporter takes the events that it
takes from the stream of the run over all cases, but for the ends of the suites
and the log. -/
theorem isolated_refines {p : Program ω} {script : FnId → List Call} {s : Sys ω}
    (h : Isolable p script s) (hne : registered p s ≠ []) {tell : Msg → Option Event}
    (htell : Telling tell) {mode : Mode} {m : Machine} (hbinary : TestBinary p s mode m)
    {t : TargetConfig} {codec : HostCodec} (hcodec : HostCodec.ofName t.codec = .ok codec)
    (hhears : Hears p s codec tell mode) {disk : Disk} (hdisk : Writes disk)
    {rs : List Reporter} (hrs : makeReporters t = .ok rs) (onCrash : String) :
    discoverCases m noFilter = .ok ((sortCases (registered p s)).map testCase) ∧
      (∀ k x, (sortCases (registered p s))[k]? = some x → ∃ r new child,
        potRunFromEnv p (childVars (testCase x)) s = .ran r ∧
          r.1.trace = s.trace ++ new ∧ executed new = [x] ∧
          m.spawn k (testCase x) = .ok child ∧ Process mode new r.2 child) ∧
      ∀ new (reads : List (Read PluginError)),
        (potRunAll p s).1.trace = s.trace ++ new → Delivers mode new reads →
          (runIsolated disk m t noFilter onCrash).1.map (fun r => story r.received) =
              (drainStream disk t reads).1.map (fun r => story r.received) ∧
            (runIsolated disk m t noFilter onCrash).1.length = rs.length := by
  have hperm := sortCases_perm (registered p s)
  have hcases := discover_all h hbinary
  refine ⟨hcases, ?_, ?_⟩
  · intro k x hx
    have hmem := hperm.mem_iff.mp (List.mem_of_getElem? hx)
    obtain ⟨r, new, -, -, -, hrun, htrace, hexecuted, -, -⟩ := child_run h hmem
    obtain ⟨child, hspawn, hprocess⟩ := hbinary.spawn k _ r new hrun htrace
    exact ⟨r, new, child, hrun, htrace, hexecuted, hspawn, hprocess⟩
  · intro new reads htrace hreads
    obtain ⟨pre, new', hnew', htold, hpre, hstory⟩ := told_all h htell
    have hsame : new = new' := List.append_cancel_left (htrace.symm.trans hnew')
    have hread := hhears.whole new htrace PluginError PluginError.text reads hreads
    rw [hsame, htold] at hread
    have hstream := stream_received disk hcodec hrs hpre hread
    have hsorted : sortCases (registered p s) ≠ [] := fun hnil =>
      hne (List.perm_nil.mp (hnil ▸ hperm.symm))
    have hisolated := isolated_received htell hdisk onCrash hcases hsorted hrs
      fun k x hx => child_runsCase h htell hbinary hcodec hhears k (hperm.mem_iff.mp hx)
    refine ⟨?_, by simpa using congrArg List.length hisolated⟩
    have hforwarded : story (forwarded tell script [] (sortCases (registered p s))) =
        story pre := by
      rw [← hstory, story_story]
    have hmap : ∀ xs : List Reporter,
        xs.map (fun r => story r.received) = (xs.map Reporter.received).map story :=
      fun xs => (List.map_map ..).symm
    rw [hmap, hmap, hisolated, hstream, List.map_map, List.map_map]
    refine List.map_congr_left fun r _ => ?_
    show story (_ ++ _) = story (_ ++ _)
    rw [story_append, story_append, hforwarded]
    rfl

/-! ## A small registry -/

/-- The binary codec hears a program whose messages fit. -/
theorem hears_cobs {p : Program ω} {s : Sys ω}
    (hwhole : ∀ m ∈ messages (potRunAll p s).1.trace, Fits m)
    (hchild : ∀ t ∈ registered p s,
      ∀ m ∈ messages (cascade p (childVars (testCase t)) s).1.trace, Fits m) :
    Hears p s (.cobs .new) msgEvent .binary := by
  have hsuffix : ∀ {new : List Step} {m : Msg}, m ∈ messages new →
      m ∈ messages (s.trace ++ new) := by
    intro new m hm
    rw [messages_append]
    exact List.mem_append_right _ hm
  refine ⟨fun new htrace => lossless_cobs fun m hm => hwhole m ?_,
    fun t ht r new hrun htrace => lossless_cobs fun m hm => hchild t ht m ?_⟩
  · rw [htrace]
    exact hsuffix hm
  · cases hrun
    rw [htrace]
    exact hsuffix hm

/-- The case `Math.ops.sub`, without a body. -/
def subCase : Case :=
  ⟨2, some (CStr.lit "Math"), some (CStr.lit "ops"), some (CStr.lit "sub"), none, none⟩

/-- A fresh process that has registered it and `Math.ops.add`. -/
def pairSys : Sys Unit := mathSys.call (.register (some subCase))

/-- A program whose addition fails. -/
abbrev wrongSum : Program Unit := bodyCalls [.failAt none 7 none]

/-- A target with the reporters `junit` and `console`. -/
def junitTarget : TargetConfig :=
  { TargetConfig.default with reporters := ["junit", "console"] }

/-- A literal without a NUL is its text. -/
theorem wordName_lit {text : String} (hnul : '\x00' ∉ text.toList)
    (hword : IsName text.toList) : WordName (some (CStr.lit text)) := by
  have htext : nameText (some (CStr.lit text)) = text.toList := by
    have hbytes := bytesOf_cStr hnul
    unfold nameText
    exact (congrArg Utf8.lossy hbytes).trans (Utf8.lossy_encode _)
  refine ⟨?_, by rw [htext]; exact hword⟩
  rw [htext]
  rfl

theorem isolable_wrongSum :
    Isolable wrongSum (fun f => if f = 1 then [.failAt none 7 none] else []) pairSys := by
  have hword : ∀ text ∈ ["Math", "ops", "add", "sub"], WordName (some (CStr.lit text)) := by
    intro text htext
    have hnul : ∀ x ∈ ["Math", "ops", "add", "sub"], '\x00' ∉ x.toList := by decide +kernel
    have hname : ∀ x ∈ ["Math", "ops", "add", "sub"], IsName x.toList := by decide +kernel
    exact wordName_lit (hnul text htext) (hname text htext)
  refine ⟨⟨fun _ _ => rfl, ?_⟩, rfl, fun _ hu => (List.not_mem_nil hu).elim,
    fun _ hu => (List.not_mem_nil hu).elim, by decide +kernel, ?_⟩
  · intro f c hc
    split_ifs at hc
    · rw [List.mem_singleton.mp hc]
      rfl
    · exact (List.not_mem_nil hc).elim
  · intro t ht
    have hcases : t = subCase ∨ t = mathCase := by
      simpa using (show t ∈ [subCase, mathCase] from ht)
    rcases hcases with rfl | rfl
    · exact ⟨⟨hword "Math" (by simp), hword "ops" (by simp), hword "sub" (by simp)⟩,
        by decide +kernel⟩
    · exact ⟨⟨hword "Math" (by simp), hword "ops" (by simp), hword "add" (by simp)⟩,
        by decide +kernel⟩

/-- The reads of the run of a program over all cases, one byte each. -/
def wholeReads (p : Program Unit) (s : Sys Unit) : List (Read PluginError) :=
  (output .binary ((potRunAll p s).1.trace.drop s.trace.length)).map fun b => .data [b]

/-- Two cases of one suite, the first of which fails. -/
theorem isolated_refines_wrongSum :
    (runIsolated freeDisk (binaryMachine wrongSum pairSys .binary) junitTarget noFilter
        "abort").1.map (fun r => story r.received) =
      (drainStream freeDisk junitTarget (wholeReads wrongSum pairSys)).1.map
        fun r => story r.received := by
  have htrace : (potRunAll wrongSum pairSys).1.trace = pairSys.trace ++
      (potRunAll wrongSum pairSys).1.trace.drop pairSys.trace.length := by decide +kernel
  exact ((isolated_refines isolable_wrongSum (by decide) msgEvent_telling
    (binaryMachine_testBinary wrongSum pairSys .binary) rfl
    (hears_cobs (by decide +kernel) (by decide +kernel)) (fun _ _ => rfl)
    (show makeReporters junitTarget = .ok [.new .junit, .new .console] from rfl)
    "abort").2.2 _ _ htrace
      (delivers_bytes .binary _)).1

/-- A fresh process without a case. -/
def emptySys : Sys Unit := ⟨.init, (), []⟩

/-- A fresh process with a case whose suite has a name that is no UTF-8 text. -/
def byteSys : Sys Unit :=
  emptySys.call (.register (some ⟨1, some (CStr.ofBytes [0xFF]), some (CStr.lit "ops"),
    some (CStr.lit "add"), none, none⟩))

/-- Without a case the isolated run stops with an error, where the run in one
process has its `Done` event.  A name that is no UTF-8 text stops the discovery.
When a report cannot be written, the reporters behind it miss the `Done` event of
the isolated run only. -/
theorem isolated_differs :
    (Isolable (bodyCalls []) (fun _ => []) emptySys ∧
      (runIsolated freeDisk (binaryMachine (bodyCalls []) emptySys .binary) junitTarget
          noFilter "continue").1.map (fun r => story r.received) = [] ∧
      (drainStream freeDisk junitTarget (wholeReads (bodyCalls []) emptySys)).1.map
          (fun r => story r.received) = [[.done 0 0 0], [.done 0 0 0]]) ∧
    discoverCases (binaryMachine (bodyCalls []) byteSys .binary) noFilter =
      .error "invalid utf-8 sequence of 1 bytes from index 10" ∧
    (runIsolated fullDisk (binaryMachine wrongSum pairSys .binary) junitTarget noFilter
        "continue").1.map (fun r => story r.received) ≠
      (drainStream fullDisk junitTarget (wholeReads wrongSum pairSys)).1.map
        fun r => story r.received := by
  have hempty : Isolable (bodyCalls []) (fun _ => []) emptySys :=
    { scripted := ⟨fun f _ => by unfold bodyCalls; dsimp only; split_ifs <;> rfl,
        fun _ _ hc => (List.not_mem_nil hc).elim⟩
      param := rfl
      suites := fun _ hu => (List.not_mem_nil hu).elim
      groups := fun _ hu => (List.not_mem_nil hu).elim
      ids := List.nodup_nil
      words := fun _ ht => (List.not_mem_nil ht).elim }
  exact ⟨⟨hempty, by decide +kernel, by decide +kernel⟩, by decide +kernel,
    by decide +kernel⟩

end PolyOnTest.Cli
