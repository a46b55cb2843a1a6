import PolyOnTest.CodeLib.Trace
import PolyOnTest.Run.HookedRuns

/-!
# The protocol of the stream

A watch follows the messages of a run and knows nothing else: which suite and which case is
open, what was reported of the case, and the counters.  It allows a message where the
protocol has it.  Cases are inside of suites, a report in a case is about that case, the
status of a case goes with what was reported, and the totals are the sums of the cases.

`runFiltered_watched` is the result: the watch allows every message of every run.  The
test code may do what it likes, in the fixtures too: it may register more descriptors, fail
between the cases, or abort.
-/

namespace PolyOnTest.Run

open CodeLib.CMemory CodeLib.Trace PolyOnTest.Harness

variable {ω : Type}

/-! ## The watch -/

/-- Where a stream is. -/
inductive Phase
  | start
  | running
  | done
  deriving DecidableEq

/-- An open case, and what was reported of it. -/
structure OpenCase where
  id : CaseId
  failed : Bool
  ignored : Bool
  deriving DecidableEq

/-- What a stream has said so far. -/
structure Watch where
  phase : Phase
  suite : Open
  case : Option OpenCase
  passed : UInt32
  failed : UInt32
  skipped : UInt32
  deriving DecidableEq

namespace Watch

/-- No suite is open. -/
def noSuite : Open := ⟨none, 0, 0, 0⟩

/-- In front of the stream. -/
def start : Watch := ⟨.start, noSuite, none, 0, 0, 0⟩

/-- A report about a case.  Between two cases it is one of a fixture. -/
def report (w : Watch) (id : CaseId) (f : OpenCase → OpenCase) : Option Watch :=
  match w.case with
  | none => some w
  | some c => if c.id = id then some { w with case := some (f c) } else none

/-- The counters behind a case. -/
def count (w : Watch) (status : TestStatus) : Watch :=
  { w with
    suite := w.suite.count status
    case := none
    passed := if status = .passed then w.passed + 1 else w.passed
    failed := if status = .failed then w.failed + 1 else w.failed
    skipped := if status = .skipped then w.skipped + 1 else w.skipped }

/-- The status that goes with the reports of a case.  A skip wins over a failure. -/
def OpenCase.Allows (c : OpenCase) (status : TestStatus) : Prop :=
  (c.ignored = true → status = .skipped) ∧ (c.failed = true → status ≠ .passed)

instance (c : OpenCase) (status : TestStatus) : Decidable (OpenCase.Allows c status) :=
  inferInstanceAs (Decidable (_ ∧ _))

/-- The watch behind a message, if the message is allowed. -/
def step (w : Watch) : Msg → Option Watch
  | .banner => if w.phase = .start then some { w with phase := .running } else none
  | .suiteStart name =>
      if w.phase = .running ∧ w.case = none ∧ w.suite.suite = none then
        some { w with suite := ⟨name, 0, 0, 0⟩ }
      else none
  | .caseStart id =>
      if w.phase = .running ∧ w.case = none ∧ id.suite = w.suite.suite then
        some { w with case := some ⟨id, false, false⟩ }
      else none
  | .assertFail id _ _ _ =>
      if w.phase = .running then w.report id fun c => { c with failed := true } else none
  | .ignored id _ =>
      if w.phase = .running then w.report id fun c => { c with ignored := true } else none
  | .caseEnd id status =>
      match w.case with
      | none => none
      | some c =>
          if w.phase = .running ∧ c.id = id ∧ OpenCase.Allows c status then
            some (w.count status)
          else none
  | .suiteEnd name passed failed skipped =>
      if w.phase = .running ∧ w.case = none ∧ name ≠ none ∧
          w.suite = ⟨name, passed, failed, skipped⟩ then
        some { w with suite := noSuite }
      else none
  | .done passed failed skipped =>
      if w.phase = .running ∧ w.case = none ∧ w.suite.suite = none ∧
          (w.passed, w.failed, w.skipped) = (passed, failed, skipped) then
        some { w with phase := .done }
      else none

end Watch

/-! ## Stretches of a run -/

/-- From `s` to `s'` the trace grew by messages that lead the watch from `w` to `w'`. -/
def Watched (w w' : Watch) (s s' : Sys ω) : Prop :=
  ∃ new, s'.trace = s.trace ++ new ∧ (messages new).foldlM Watch.step w = some w'

/-- The watch between two cases. -/
def between (s : Sys ω) (o : Open) : Watch :=
  ⟨.running, o, none, s.g.passed, s.g.failed, s.g.skipped⟩

variable {w w' w'' : Watch} {s s' s'' : Sys ω} {p : Program ω}

theorem Watched.refl (w : Watch) (s : Sys ω) : Watched w w s s :=
  ⟨[], (List.append_nil _).symm, rfl⟩

theorem Watched.trans (h : Watched w w' s s') (h' : Watched w' w'' s' s'') :
    Watched w w'' s s'' := by
  obtain ⟨new, htrace, haccepted⟩ := h
  obtain ⟨new', htrace', haccepted'⟩ := h'
  refine ⟨new ++ new', by rw [htrace', htrace, List.append_assoc], ?_⟩
  rw [messages_append]
  exact accepted_append.mpr ⟨w', haccepted, haccepted'⟩

theorem Watched.say {m : Msg} (h : w.step m = some w') : Watched w w' s (s.say m) :=
  ⟨[.msg m], rfl, accepted_cons.mpr ⟨w', h, rfl⟩⟩

/-! ## Test code -/

/-- What was reported of the open case shows in the flags. -/
def Flagged (w : Watch) (s : Sys ω) : Prop :=
  ∀ c, w.case = some c → c.id = s.g.cur ∧ (c.failed = true → s.g.currentFailed = true) ∧
    (c.ignored = true → s.g.currentSkipped = true)

/-- From `s` to `s'` there was test code: the watch only took reports. -/
structure Tested (w w' : Watch) (s s' : Sys ω) : Prop where
  watched : Watched w w' s s'
  running : w'.phase = .running
  rest : w' = { w with case := w'.case }
  case : w'.case.map OpenCase.id = w.case.map OpenCase.id
  reported : Flagged w' s'
  cur : s'.g.cur = s.g.cur
  passed : s'.g.passed = s.g.passed
  failed : s'.g.failed = s.g.failed
  skipped : s'.g.skipped = s.g.skipped

theorem Tested.refl (hrunning : w.phase = .running) (h : Flagged w s) : Tested w w s s :=
  ⟨Watched.refl w s, hrunning, rfl, rfl, h, rfl, rfl, rfl, rfl⟩

theorem Tested.trans (h : Tested w w' s s') (h' : Tested w' w'' s' s'') :
    Tested w w'' s s'' where
  watched := h.watched.trans h'.watched
  running := h'.running
  rest := by rw [h'.rest, h.rest]
  case := h'.case.trans h.case
  reported := h'.reported
  cur := h'.cur.trans h.cur
  passed := h'.passed.trans h.passed
  failed := h'.failed.trans h.failed
  skipped := h'.skipped.trans h.skipped

/-- A report of the current case is allowed. -/
theorem report_current (h : Flagged w s) (f : OpenCase → OpenCase) :
    w.report s.g.cur f = some { w with case := w.case.map f } := by
  unfold Watch.report
  cases hcase : w.case with
  | none =>
    show some w = some { w with case := none }
    rw [← hcase]
  | some c =>
    dsimp only
    rw [if_pos (h c hcase).1]
    rfl

/-- The flags behind a call cover what they covered in front of it. -/
theorem Flagged.call (h : Flagged w s) (x : Call) : Flagged w (s.call x) := by
  intro c hc
  obtain ⟨hid, hfailed, hignored⟩ := h c hc
  refine ⟨hid.trans (effect_cur s.g x).symm, fun hf => ?_, fun hi => ?_⟩
  · show (x.effect s.g).currentFailed = true
    rw [effect_currentFailed, hfailed hf, Bool.true_or]
  · show (x.effect s.g).currentSkipped = true
    rw [effect_currentSkipped, hignored hi, Bool.true_or]

theorem call_tested (hrunning : w.phase = .running) (h : Flagged w s) (x : Call) :
    ∃ w', Tested w w' s (s.call x) := by
  have hsilent : x.msgs s.g = [] → ∃ w', Tested w w' s (s.call x) := by
    intro hmsgs
    refine ⟨w, ⟨[.call x], ?_, rfl⟩, hrunning, rfl, rfl, h.call x, effect_cur s.g x,
      effect_passed s.g x, effect_failed s.g x, effect_skipped s.g x⟩
    show s.trace ++ .call x :: (x.msgs s.g).map .msg = _
    rw [hmsgs]
    rfl
  have hspeaks : ∀ m f, x.msgs s.g = [m] → w.step m = w.report s.g.cur f →
      (∀ c, (f c).id = c.id) →
      (∀ c, w.case = some c → (f c).failed = true → (s.call x).g.currentFailed = true) →
      (∀ c, w.case = some c → (f c).ignored = true → (s.call x).g.currentSkipped = true) →
      ∃ w', Tested w w' s (s.call x) := by
    intro m f hmsgs hstep hid hfailed hignored
    rw [report_current h f] at hstep
    refine ⟨{ w with case := w.case.map f }, ⟨[.call x, .msg m], ?_, ?_⟩, hrunning, rfl, ?_, ?_,
      effect_cur s.g x, effect_passed s.g x, effect_failed s.g x, effect_skipped s.g x⟩
    · show s.trace ++ .call x :: (x.msgs s.g).map .msg = _
      rw [hmsgs]
      rfl
    · exact accepted_cons.mpr ⟨_, hstep, rfl⟩
    · show (w.case.map f).map OpenCase.id = _
      rw [Option.map_map]
      exact Option.map_congr fun c _ => hid c
    · intro c' hc'
      obtain ⟨c, hc, rfl⟩ := Option.map_eq_some_iff.mp hc'
      have hcur := (h.call x c hc).1
      exact ⟨(hid c).trans hcur, hfailed c hc, hignored c hc⟩
  cases x with
  | failAt file line message =>
    apply hspeaks (.assertFail s.g.cur file line (messageWithParam s.g message))
      (fun c => { c with failed := true }) rfl (if_pos hrunning) fun _ => rfl
    · exact fun _ _ _ => rfl
    · exact fun c hc hi => (h.call _ c hc).2.2 hi
  | ignore message =>
    cases message with
    | none => exact hsilent rfl
    | some message =>
      by_cases hempty : message.bytes ≠ []
      · apply hspeaks (.ignored s.g.cur message) (fun c => { c with ignored := true })
          (if_pos hempty) (if_pos hrunning) fun _ => rfl
        · exact fun c hc hf => (h.call _ c hc).2.1 hf
        · exact fun _ _ _ => rfl
      · exact hsilent (if_neg hempty)
  | _ => exact hsilent rfl

/-- A function of the test binary, by induction on its calls. -/
theorem foldl_call_tested (xs : List Call) (hrunning : w.phase = .running) (h : Flagged w s) :
    ∃ w', Tested w w' s (xs.foldl Sys.call s) := by
  induction xs generalizing w s with
  | nil => exact ⟨w, Tested.refl hrunning h⟩
  | cons x xs ih =>
      obtain ⟨w', hcall⟩ := call_tested hrunning h x
      obtain ⟨w'', hrest⟩ := ih hcall.running hcall.reported
      exact ⟨w'', hcall.trans hrest⟩

theorem enter_tested (p : Program ω) (hook : Hook) (f : Option FnId)
    (hrunning : w.phase = .running) (h : Flagged w s) :
    ∃ w', Tested w w' s (s.enter p hook f) := by
  cases f with
  | none => exact ⟨w, Tested.refl hrunning h⟩
  | some f =>
    have hbegin : Tested w w s
        ⟨s.g, (p.code f s.world).2, s.trace ++ [.enter hook f]⟩ :=
      ⟨⟨[.enter hook f], rfl, rfl⟩, hrunning, rfl, rfl, h, rfl, rfl, rfl, rfl⟩
    obtain ⟨w', hcalls⟩ := foldl_call_tested (p.code f s.world).1 hrunning hbegin.reported
    exact ⟨w', hbegin.trans hcalls⟩

/-! ## The runner -/

/-- Between two cases test code leaves the watch alone. -/
theorem Tested.closed (h : Tested w w' s s') (hcase : w.case = none) : w' = w := by
  have hnone : w'.case = none := by
    have hmap := h.case
    rw [hcase] at hmap
    exact Option.map_eq_none_iff.mp hmap
  rw [h.rest, hnone, ← hcase]

/-- A suite fixture. -/
theorem enter_between (p : Program ω) (hook : Hook) (f : Option FnId) (s : Sys ω) (o : Open) :
    Watched (between s o) (between (s.enter p hook f) o) s (s.enter p hook f) := by
  obtain ⟨w', htested⟩ := enter_tested (w := between s o) p hook f rfl
    fun c (hc : none = some c) => absurd hc (Option.some_ne_none c).symm
  have hsame : between (s.enter p hook f) o = between s o := by
    unfold between
    rw [htested.passed, htested.failed, htested.skipped]
  have hw := htested.closed rfl
  rw [hsame, ← hw]
  exact hw ▸ htested.watched

/-- `close_suite` -/
theorem closeSuite_watched (p : Program ω) (o : Open) (s : Sys ω) :
    ∃ o', Watched (between s o) (between (closeSuite p o s) o') s (closeSuite p o s) ∧
      o'.suite = none := by
  cases hsuite : o.suite with
  | none =>
    have hnone : closeSuite p o s = s := by
      unfold closeSuite
      rw [hsuite]
    rw [hnone]
    exact ⟨o, Watched.refl _ s, hsuite⟩
  | some name =>
    have hclose : closeSuite p o s = (s.enter p .suiteTeardown
        ((findSuite s.g.env.reg o.suite).bind Suite.teardown)).say
          (.suiteEnd o.suite o.passed o.failed o.skipped) := by
      unfold closeSuite
      rw [hsuite]
    rw [hclose]
    refine ⟨Watch.noSuite, (enter_between p _ _ s o).trans (Watched.say ?_), rfl⟩
    have hname : o.suite ≠ none := by
      rw [hsuite]
      exact Option.some_ne_none name
    exact if_pos ⟨rfl, rfl, hname, rfl⟩

/-- `open_suite_emit` -/
theorem openSuiteEmit_watched (p : Program ω) (name : Option CStr) (s : Sys ω) {o : Open}
    (ho : o.suite = none) :
    Watched (between s o) (between (openSuiteEmit p name s) ⟨name, 0, 0, 0⟩) s
      (openSuiteEmit p name s) :=
  (enter_between p _ _ s o).trans (Watched.say (if_pos ⟨rfl, rfl, ho⟩))

theorem switchSuite_watched (p : Program ω) (t : Case) (x : Sys ω × Open) :
    Watched (between x.1 x.2) (between (switchSuite p t x).1 (switchSuite p t x).2) x.1
        (switchSuite p t x).1 ∧
      (switchSuite p t x).2.suite = t.suite := by
  unfold switchSuite
  split_ifs with h
  · obtain ⟨o, hclose, ho⟩ := closeSuite_watched p x.2 x.1
    exact ⟨hclose.trans (openSuiteEmit_watched p t.suite _ ho), rfl⟩
  · exact ⟨Watched.refl _ x.1, strCmp_eq_iff.mp (not_not.mp h)⟩

/-- The status of a case goes with its reports. -/
theorem status_allows {c : OpenCase} (h : Flagged w s) (hc : w.case = some c) :
    Watch.OpenCase.Allows c s.status := by
  obtain ⟨-, hfailed, hignored⟩ := h c hc
  unfold Sys.status
  constructor
  · intro hi
    rw [if_pos (hignored hi)]
  · intro hf
    split_ifs with hskip hfail
    · decide
    · decide
    · exact absurd (hfailed hf) hfail

theorem runBody_tested (p : Program ω) (t : Case) (hrunning : w.phase = .running)
    (h : Flagged w s) : ∃ w', Tested w w' s (runBody p t s) := by
  obtain ⟨w₁, hsetup⟩ := enter_tested p .groupSetup
    ((findGroup s.g.env.reg t.suite t.group).bind Group.setup) hrunning h
  obtain ⟨w₂, hbody⟩ := enter_tested p .body t.fn hsetup.running hsetup.reported
  obtain ⟨w₃, hteardown⟩ := enter_tested p .groupTeardown
    ((findGroup s.g.env.reg t.suite t.group).bind Group.teardown) hbody.running hbody.reported
  exact ⟨w₃, (hsetup.trans hbody).trans hteardown⟩

/-- The watch counts a case as the runner does. -/
theorem between_count (s : Sys ω) (o : Open) (status : TestStatus) (case : Option OpenCase) :
    Watch.count { between s o with case := case } status =
      between (s.count status) (o.count status) := by
  cases status <;> rfl

theorem runCase_watched (p : Program ω) (t : Case) (x : Sys ω × Open)
    (ht : t.suite = x.2.suite) :
    Watched (between x.1 x.2) (between (runCase p t x).1 (runCase p t x).2) x.1
      (runCase p t x).1 := by
  have hbegin : Watched (between x.1 x.2) (between x.1 x.2) x.1 (x.1.begin t) :=
    ⟨[.take t], rfl, rfl⟩
  have hstart : (between x.1 x.2).step (.caseStart t.id) =
      some { between x.1 x.2 with case := some ⟨t.id, false, false⟩ } := if_pos ⟨rfl, rfl, ht⟩
  have hshows : Flagged { between x.1 x.2 with case := some ⟨t.id, false, false⟩ }
      ((x.1.begin t).say (.caseStart t.id)) := by
    intro c hc
    obtain rfl := Option.some.inj hc
    exact ⟨rfl, nofun, nofun⟩
  obtain ⟨w, hbody⟩ := runBody_tested p t rfl hshows
  have hfront := (hbegin.trans (Watched.say hstart)).trans hbody.watched
  -- the end of the case
  have hopen : ∃ c, w.case = some c ∧ c.id = t.id := by
    obtain ⟨c, hc, hid⟩ := Option.map_eq_some_iff.mp hbody.case
    exact ⟨c, hc, hid⟩
  obtain ⟨c, hc, hid⟩ := hopen
  generalize hs : runBody p t ((x.1.begin t).say (.caseStart t.id)) = s at hbody hfront
  have hcount : Watched w (w.count s.status) s (s.count s.status |>.say
      (.caseEnd t.id s.status)) := by
    have hallowed : w.step (.caseEnd t.id s.status) = some (w.count s.status) := by
      rw [Watch.step, hc]
      exact if_pos ⟨hbody.running, hid, status_allows hbody.reported hc⟩
    exact ⟨[.msg (.caseEnd t.id s.status)], by rw [Sys.say, count_trace],
      accepted_cons.mpr ⟨_, hallowed, rfl⟩⟩
  have hlast : w.count s.status = between (s.count s.status) (x.2.count s.status) := by
    have hw : w = { between s x.2 with case := w.case } := by
      rw [hbody.rest]
      unfold between
      rw [hbody.passed, hbody.failed, hbody.skipped]
      rfl
    rw [hw]
    exact between_count s x.2 s.status w.case
  have hcase : runCase p t x =
      ((s.count s.status).say (.caseEnd t.id s.status), x.2.count s.status) := by
    unfold runCase
    rw [hs]
  rw [hcase]
  exact hfront.trans (hlast ▸ hcount)

/-- One round of the loop. -/
theorem loopBody_watched (p : Program ω) (sel : Env → Case → Bool) (x : Sys ω × Open)
    (t : Case) :
    Watched (between x.1 x.2) (between (loopBody p sel x t).1 (loopBody p sel x t).2) x.1
      (loopBody p sel x t).1 := by
  unfold loopBody
  split_ifs
  · obtain ⟨hswitch, hsuite⟩ := switchSuite_watched p t x
    exact hswitch.trans (runCase_watched p t _ hsuite.symm)
  · exact Watched.refl _ x.1

/-- The loop, by induction on the cases. -/
theorem foldl_loopBody_watched (p : Program ω) (sel : Env → Case → Bool) (ts : List Case)
    (x : Sys ω × Open) :
    Watched (between x.1 x.2)
      (between (ts.foldl (loopBody p sel) x).1 (ts.foldl (loopBody p sel) x).2) x.1
      (ts.foldl (loopBody p sel) x).1 := by
  induction ts generalizing x with
  | nil => exact Watched.refl _ x.1
  | cons t ts ih => exact (loopBody_watched p sel x t).trans (ih (loopBody p sel x t))

/-- The watch allows every message of every run, up to the last one, and the answer of the
run is what the watch counted. -/
theorem runFiltered_watched (p : Program ω) (sel : Env → Case → Bool) (s : Sys ω) :
    ∃ w, Watched .start w s (runFiltered p sel s).1 ∧ w.phase = .done ∧
      (runFiltered p sel s).2 = if w.failed ≠ 0 then 1 else 0 := by
  have hbanner : Watched .start (between ((prepare p s).say .banner) ⟨none, 0, 0, 0⟩) s
      ((prepare p s).say .banner) :=
    ⟨[.msg .banner], rfl, rfl⟩
  have hloop := foldl_loopBody_watched p sel ((prepare p s).say .banner).g.env.reg.tests
    ((prepare p s).say .banner, ⟨none, 0, 0, 0⟩)
  generalize hx : ((prepare p s).say .banner).g.env.reg.tests.foldl (loopBody p sel)
    ((prepare p s).say .banner, ⟨none, 0, 0, 0⟩) = x at hloop
  obtain ⟨o, hclose, ho⟩ := closeSuite_watched p x.2 x.1
  have hdone : (between (closeSuite p x.2 x.1) o).step
      (.done (closeSuite p x.2 x.1).g.passed (closeSuite p x.2 x.1).g.failed
        (closeSuite p x.2 x.1).g.skipped) =
      some { between (closeSuite p x.2 x.1) o with phase := .done } :=
    if_pos ⟨rfl, rfl, ho, rfl⟩
  have hrun : runFiltered p sel s =
      ((closeSuite p x.2 x.1).say (.done (closeSuite p x.2 x.1).g.passed
        (closeSuite p x.2 x.1).g.failed (closeSuite p x.2 x.1).g.skipped),
        if (closeSuite p x.2 x.1).g.failed ≠ 0 then 1 else 0) := by
    rw [← hx]
    rfl
  rw [hrun]
  exact ⟨_, ((hbanner.trans hloop).trans hclose).trans (Watched.say hdone), rfl, rfl⟩

/-! ## The last message -/

/-- The message that ends a stream. -/
def Final : Msg → Prop
  | .done .. => True
  | _ => False

/-- Only the last message leads to the end, with the counters of the watch. -/
theorem step_phase {m : Msg} (h : w.step m = some w') (hw : w.phase ≠ .done) :
    (w'.phase = .done ∧ m = .done w'.passed w'.failed w'.skipped) ∨
      (w'.phase ≠ .done ∧ ¬ Final m) := by
  have hreport : ∀ id f, (if w.phase = .running then w.report id f else none) = some w' →
      w'.phase ≠ .done := by
    intro id f heq
    split_ifs at heq
    unfold Watch.report at heq
    cases hcase : w.case with
    | none =>
      rw [hcase] at heq
      exact Option.some.inj heq ▸ hw
    | some c =>
      rw [hcase] at heq
      dsimp only at heq
      split_ifs at heq
      obtain rfl := Option.some.inj heq
      exact hw
  cases m with
  | banner =>
    rw [Watch.step] at h
    split_ifs at h
    obtain rfl := Option.some.inj h
    exact .inr ⟨by simp, not_false⟩
  | assertFail id file line message => exact .inr ⟨hreport _ _ h, not_false⟩
  | ignored id message => exact .inr ⟨hreport _ _ h, not_false⟩
  | caseEnd id status =>
    rw [Watch.step] at h
    cases hcase : w.case with
    | none =>
      rw [hcase] at h
      cases h
    | some c =>
      rw [hcase] at h
      dsimp only at h
      split_ifs at h
      obtain rfl := Option.some.inj h
      exact .inr ⟨hw, not_false⟩
  | done passed failed skipped =>
    rw [Watch.step] at h
    split_ifs at h with hall
    obtain rfl := Option.some.inj h
    obtain ⟨-, -, -, hcounts⟩ := hall
    simp only [Prod.mk.injEq] at hcounts
    obtain ⟨rfl, rfl, rfl⟩ := hcounts
    exact .inl ⟨rfl, rfl⟩
  | suiteStart name =>
    rw [Watch.step] at h
    split_ifs at h
    obtain rfl := Option.some.inj h
    exact .inr ⟨hw, not_false⟩
  | caseStart id' =>
    rw [Watch.step] at h
    split_ifs at h
    obtain rfl := Option.some.inj h
    exact .inr ⟨hw, not_false⟩
  | suiteEnd name passed failed skipped =>
    rw [Watch.step] at h
    split_ifs at h
    obtain rfl := Option.some.inj h
    exact .inr ⟨hw, not_false⟩

/-- Behind the end no message is allowed. -/
theorem step_done (m : Msg) (hw : w.phase = .done) : w.step m = none := by
  cases m <;> simp only [Watch.step, hw, reduceCtorEq, false_and, if_false]
  split <;> rfl

/-- A stream that comes to its end has one last message, by induction on the messages. -/
theorem accepted_done {ms : List Msg} (h : ms.foldlM Watch.step w = some w')
    (hw : w.phase ≠ .done) (hdone : w'.phase = .done) :
    ∃ pre, ms = pre ++ [.done w'.passed w'.failed w'.skipped] ∧ ∀ m ∈ pre, ¬ Final m := by
  induction ms generalizing w with
  | nil =>
      obtain rfl := Option.some.inj h
      exact absurd hdone hw
  | cons m ms ih =>
      obtain ⟨w₁, hstep, hrest⟩ := accepted_cons.mp h
      rcases step_phase hstep hw with ⟨hend, hm⟩ | ⟨hgoing, hm⟩
      · cases ms with
        | nil =>
          obtain rfl := Option.some.inj hrest
          exact ⟨[], by rw [hm]; rfl, fun _ hm => absurd hm List.not_mem_nil⟩
        | cons m' ms =>
          obtain ⟨w₂, hstep', -⟩ := accepted_cons.mp hrest
          rw [step_done m' hend] at hstep'
          cases hstep'
      · obtain ⟨pre, rfl, hpre⟩ := ih hrest hgoing
        exact ⟨m :: pre, rfl, List.forall_mem_cons.mpr ⟨hm, hpre⟩⟩

/-- What the messages of a run from the state `s` keep to, and its answer. -/
def KeepsProtocol (s : Sys ω) (r : Sys ω × Nat) : Prop :=
  ∃ new pre w, r.1.trace = s.trace ++ new ∧ (messages new).foldlM Watch.step .start = some w ∧
    messages new = pre ++ [.done w.passed w.failed w.skipped] ∧ (∀ m ∈ pre, ¬ Final m) ∧
    r.2 = if w.failed ≠ 0 then 1 else 0

theorem run_protocol (p : Program ω) (e : Entry) (s : Sys ω) : KeepsProtocol s (e.run p s) := by
  obtain ⟨sel, s', hrun, htrace, -⟩ := Entry.run_eq p e s
  obtain ⟨w, ⟨new, hnew, haccepted⟩, hdone, hreturn⟩ := runFiltered_watched p sel s'
  obtain ⟨pre, hpre, hfinal⟩ := accepted_done haccepted (by decide) hdone
  rw [hrun]
  exact ⟨new, pre, w, by rw [hnew, htrace], haccepted, hpre, hfinal, hreturn⟩

/-- Whatever the test code does, each run that any of the entry points starts keeps to the
protocol, writes one `DONE` and that last, and returns whether its count of failures is not
zero. -/
theorem stream_protocol (p : Program ω) (s : Sys ω) :
    (∀ e : Entry, KeepsProtocol s (e.run p s)) ∧
      ∀ v r, potRunFromEnv p v s = .ran r → KeepsProtocol s r := by
  refine ⟨fun e => run_protocol p e s, fun v r hr => ?_⟩
  unfold potRunFromEnv at hr
  split_ifs at hr
  injection hr with hr
  rw [← hr, cascade_eq]
  exact run_protocol p _ s

end PolyOnTest.Run
