import PolyOnTest.Cli.Accounting
import PolyOnTest.Cli.Discovery
import PolyOnTest.Run.Scripts

/-!
# The events of well-behaved children

What the host hears from a harness process through a codec that loses nothing,
and what `run_isolated` makes of it when each process runs one case to its end.

The codec is a parameter, `Telling`: it gives the event of each message and may
choose the place of a failing assertion.  `runCases_children` is the result: the
reporters get the suite starts that are new and the events of the cases, and
the counters those of the cases.
-/

namespace PolyOnTest.Cli

open CodeLib CodeLib.CMemory PolyOnTest.Builtins PolyOnTest.Harness PolyOnTest.Run
  PolyOnTest.Wire

/-! ## Codecs that lose nothing -/

/-- A codec that gives every message as its event. -/
structure Telling (tell : Msg → Option Event) : Prop where
  note : ∀ m, m.isNote = true → tell m = none
  suiteStart : ∀ name, tell (.suiteStart name) = some (.suiteStart (nameText name))
  caseStart : ∀ id,
    tell (.caseStart id) = some (.caseStart (nameText id.suite) (leafText id))
  assertFail : ∀ id file line message, ∃ path number,
    tell (.assertFail id file line message) =
      some (.assertFail (nameText id.suite) (leafText id) path number
        (Utf8.lossy message.bytes))
  caseEnd : ∀ id status,
    tell (.caseEnd id status) = some (.caseEnd (nameText id.suite) (leafText id) status)
  suiteEnd : ∀ name passed failed skipped,
    tell (.suiteEnd name passed failed skipped) =
      some (.suiteEnd (nameText name) passed failed skipped)
  done : ∀ passed failed skipped,
    tell (.done passed failed skipped) = some (.done passed failed skipped)

/-- The binary codec is one. -/
theorem msgEvent_telling : Telling msgEvent where
  note := by
    intro m hm
    cases m <;> first | rfl | cases hm
  suiteStart _ := rfl
  caseStart _ := rfl
  assertFail _ _ line _ := ⟨[], line.toUInt32, rfl⟩
  caseEnd _ _ := rfl
  suiteEnd _ _ _ _ := rfl
  done _ _ _ := rfl

/-- The events of the messages of a trace. -/
def told (tell : Msg → Option Event) (trace : List Step) : List Event :=
  (messages trace).filterMap tell

section Tell

variable {tell : Msg → Option Event} {script : FnId → List Call}

theorem told_eq (h : Telling tell) (trace : List Step) :
    told tell trace = (reported trace).filterMap tell := by
  unfold told reported
  induction messages trace with
  | nil => rfl
  | cons m ms ih =>
      rw [List.filterMap_cons, List.filter_cons]
      cases hnote : m.isNote with
      | true =>
        rw [h.note m hnote, if_neg (by simp)]
        exact ih
      | false =>
        rw [if_pos (by simp), List.filterMap_cons, ih]

/-! ## One case -/

/-- The events of a case. -/
def caseEvents (tell : Msg → Option Event) (script : FnId → List Call) (t : Case) :
    List Event := (caseMsgs script t).filterMap tell

/-- The status of a case. -/
def caseStatus (script : FnId → List Call) (t : Case) : TestStatus :=
  scriptStatus (caseScript script t)

theorem scriptFailures_assert {id : CaseId} {cs : List Call} {m : Msg}
    (h : m ∈ scriptFailures id cs) : ∃ file line message, m = .assertFail id file line message := by
  obtain ⟨hmem, hnote⟩ := List.mem_filter.mp h
  obtain ⟨c, -, hm⟩ := List.mem_flatMap.mp hmem
  have hfrom := fromCase_msgs hm
  cases m with
  | assertFail id' file line message =>
    rw [show id' = id from hfrom]
    exact ⟨file, line, message, rfl⟩
  | ignored id' message => simp [Msg.isNote] at hnote
  | _ => exact hfrom.elim

/-- A case is told as its start, its failures and its end. -/
theorem caseEvents_eq (h : Telling tell) (script : FnId → List Call) (t : Case) :
    ∃ failures, (∀ ev ∈ failures, isAssertFail ev = true) ∧
      caseEvents tell script t =
        .caseStart (nameText t.suite) (leafText t.id) ::
          (failures ++ [.caseEnd (nameText t.suite) (leafText t.id) (caseStatus script t)]) := by
  refine ⟨(scriptFailures t.id (caseScript script t)).filterMap tell, ?_, ?_⟩
  · intro ev hev
    obtain ⟨m, hm, htell⟩ := List.mem_filterMap.mp hev
    obtain ⟨file, line, message, rfl⟩ := scriptFailures_assert hm
    obtain ⟨path, number, hassert⟩ := h.assertFail t.id file line message
    rw [hassert] at htell
    cases htell
    rfl
  · unfold caseEvents caseMsgs
    rw [List.filterMap_cons, h.caseStart, List.filterMap_append]
    simp only [List.filterMap_cons, List.filterMap_nil, h.caseEnd]
    rfl

/-- The events of the process of a case. -/
def childEvents (tell : Msg → Option Event) (script : FnId → List Call) (t : Case)
    (passed failed skipped : UInt32) : List Event :=
  .suiteStart (nameText t.suite) :: (caseEvents tell script t ++
    ((.suiteEnd (nameText t.suite) passed failed skipped) ::
      (doneMsg script [t] :: ([] : List Msg)).filterMap tell))

/-! ## The main loop -/

/-- A session whose reporters have taken some more events. -/
def Session.forward (evs : List Event) (s : Session) : Session :=
  { s with reporters := s.reporters.map (Reporter.receive evs) }

@[simp] theorem Session.forward_seen (evs : List Event) (s : Session) :
    (s.forward evs).seenSuites = s.seenSuites := rfl

@[simp] theorem Session.forward_reporters (evs : List Event) (s : Session) :
    (s.forward evs).reporters = s.reporters.map (Reporter.receive evs) := rfl

@[simp] theorem Session.forward_tally (evs : List Event) (s : Session) :
    (s.forward evs).tally = s.tally := rfl

theorem Session.forward_forward (a b : List Event) (s : Session) :
    (s.forward a).forward b = s.forward (a ++ b) := by
  unfold forward
  rw [Reporter.map_receive_receive]

theorem Session.report_eq (ev : Event) (s : Session) : s.report ev = s.forward [ev] := rfl

theorem Session.count_forward (evs : List Event) (s : Session) (status : TestStatus) :
    (s.forward evs).count status = (s.count status).forward evs := by
  cases status <;> rfl

@[simp] theorem Session.count_seen (s : Session) (status : TestStatus) :
    (s.count status).seenSuites = s.seenSuites := by
  cases status <;> rfl

@[simp] theorem Session.count_reporters (s : Session) (status : TestStatus) :
    (s.count status).reporters = s.reporters := by
  cases status <;> rfl

/-- A suite that a session has seen. -/
def Session.see (name : Str) (s : Session) : Session :=
  if s.seenSuites.contains name then s
  else Session.forward [.suiteStart name] { s with seenSuites := name :: s.seenSuites }

theorem receive_suiteStart (name : Str) (x : Session × Progress) :
    receive x (.suiteStart name) = (x.1.see name, x.2) := by
  unfold receive Session.see
  dsimp only
  simp only [List.contains_iff_mem]
  split_ifs <;> rfl

@[simp] theorem Session.see_tally (name : Str) (s : Session) :
    (s.see name).tally = s.tally := by
  unfold see
  split_ifs <;> rfl

theorem foldl_receive_failures {failures : List Event}
    (h : ∀ ev ∈ failures, isAssertFail ev = true) (x : Session × Progress) :
    failures.foldl receive x = (x.1.forward failures, x.2) := by
  induction failures generalizing x with
  | nil => simp [Session.forward]
  | cons ev evs ih =>
      have hev := h ev (by simp)
      have hstep : receive x ev = (x.1.forward [ev], x.2) := by
        cases ev <;> first | rfl | cases hev
      rw [List.foldl_cons, hstep, ih fun e he => h e (by simp [he]),
        Session.forward_forward]
      rfl

/-- The main loop over the events of a process that runs its case to the end. -/
theorem foldl_receive_child (h : Telling tell) (t : Case) (passed failed skipped : UInt32)
    (s : Session) :
    (childEvents tell script t passed failed skipped).foldl receive (s, .init) =
      (((s.see (nameText t.suite)).count (caseStatus script t)).forward
          (caseEvents tell script t),
        ⟨true, true, caseStatus script t⟩) := by
  obtain ⟨failures, hfailures, hevents⟩ := caseEvents_eq h script t
  have hcase : (caseEvents tell script t).foldl receive (s.see (nameText t.suite), .init) =
      (((s.see (nameText t.suite)).count (caseStatus script t)).forward
          (caseEvents tell script t),
        ⟨true, true, caseStatus script t⟩) := by
    have hstart : receive (s.see (nameText t.suite), .init)
        (.caseStart (nameText t.suite) (leafText t.id)) =
          ((s.see (nameText t.suite)).forward
              [.caseStart (nameText t.suite) (leafText t.id)], ⟨true, false, .passed⟩) := rfl
    rw [hevents, List.foldl_cons, hstart, List.foldl_append,
      foldl_receive_failures hfailures, List.foldl_cons, List.foldl_nil, receive,
      Session.report_eq, Session.count_forward, Session.count_forward,
      Session.forward_forward, Session.forward_forward]
    simp
  have hlast : ∀ x : Session × Progress,
      ([doneMsg script [t]].filterMap tell).foldl receive x = x := by
    intro x
    simp only [doneMsg, List.filterMap_cons, List.filterMap_nil, h.done]
    rfl
  rw [childEvents, List.foldl_cons, receive_suiteStart, List.foldl_append, hcase, List.foldl_cons,
    hlast]
  rfl

/-- The loop body for a process that runs its case to the end. -/
theorem runChild_ok (h : Telling tell) {codec : String} {t : Case} {child : Child}
    {passed failed skipped : UInt32} {status : ExitStatus}
    (hheard : child.heard codec = (childEvents tell script t passed failed skipped, .ok ()))
    (hwait : child.wait = .ok status) (hok : status.isOk = true) (c : TestCase)
    (s : Session) :
    runChild codec c child s =
      .ok (((s.see (nameText t.suite)).count (caseStatus script t)).forward
        (caseEvents tell script t), false) := by
  unfold runChild
  rw [hheard, hwait]
  dsimp only
  rw [foldl_receive_child h, crashed, hok]
  rfl

/-! ## All cases -/

/-- The events that the main loop forwards for some cases, behind the suites that
it has seen. -/
def forwarded (tell : Msg → Option Event) (script : FnId → List Call) :
    List Str → List Case → List Event
  | _, [] => []
  | seen, t :: ts =>
      if seen.contains (nameText t.suite) then
        caseEvents tell script t ++ forwarded tell script seen ts
      else .suiteStart (nameText t.suite) ::
        (caseEvents tell script t ++ forwarded tell script (nameText t.suite :: seen) ts)

/-- The process of a case runs it to the end, and the thread hears all of it. -/
def RunsCase (tell : Msg → Option Event) (script : FnId → List Call) (codec : String)
    (t : Case) (child : Child) : Prop :=
  ∃ passed failed skipped status,
    child.heard codec = (childEvents tell script t passed failed skipped, .ok ()) ∧
      child.wait = .ok status ∧ status.isOk = true

/-- The loop over processes that run their cases to the end, by induction on the
cases. -/
theorem runCases_children (h : Telling tell) {m : Machine} {codec : String}
    (onCrash : String) {ts : List Case} (k : Nat)
    (hspawn : ∀ k, ∀ t ∈ ts, ∃ child,
      m.spawn k (testCase t) = .ok child ∧ RunsCase tell script codec t child)
    (s : Session) :
    ∃ s', runCases m codec onCrash k (ts.map testCase) s = .ok s' ∧
      s'.reporters =
        s.reporters.map (Reporter.receive (forwarded tell script s.seenSuites ts)) ∧
      s'.tally = (ts.map (caseStatus script)).foldl Tally.add s.tally := by
  induction ts generalizing k s with
  | nil => exact ⟨s, rfl, by simp [forwarded], rfl⟩
  | cons t ts ih =>
      obtain ⟨child, hchild, passed, failed, skipped, status, hheard, hwait, hok⟩ :=
        hspawn k t (by simp)
      have hone := runChild_ok h hheard hwait hok (testCase t) s
      obtain ⟨s', hrun, hreporters, htally⟩ := ih (k + 1)
        (fun k t ht => hspawn k t (by simp [ht]))
        (((s.see (nameText t.suite)).count (caseStatus script t)).forward
          (caseEvents tell script t))
      refine ⟨s', ?_, ?_, ?_⟩
      · rw [List.map_cons, runCases, hchild]
        dsimp only
        rw [hone]
        dsimp only
        rw [if_neg (by simp), hrun]
      · rw [hreporters, Session.forward_seen, Session.forward_reporters,
          Session.count_seen, Session.count_reporters, Reporter.map_receive_receive,
          forwarded, Session.see]
        split_ifs with hseen
        · rfl
        · rw [Session.forward_reporters, Reporter.map_receive_receive]
          rfl
      · rw [htally, Session.forward_tally, Session.count_tally, Session.see_tally]
        rfl

/-- The counters behind some cases. -/
theorem foldl_add (statuses : List TestStatus) (n : Tally) :
    statuses.foldl Tally.add n =
      ⟨n.passed + UInt32.ofNat (statuses.count .passed),
        n.failed + UInt32.ofNat (statuses.count .failed),
        n.skipped + UInt32.ofNat (statuses.count .skipped)⟩ := by
  induction statuses generalizing n with
  | nil => simp
  | cons status statuses ih =>
      have hstep : ∀ (v : UInt32) (c : Nat),
          v + 1 + UInt32.ofNat c = v + UInt32.ofNat (c + 1) := by
        intro v c
        rw [UInt32.ofNat_add, UInt32.add_assoc, UInt32.add_comm 1]
        rfl
      rw [List.foldl_cons, ih]
      cases status <;> simp [Tally.add, hstep]

/-! ## Suites -/

/-- The cases of a suite that the main loop has seen are forwarded as they are. -/
theorem forwarded_seen {seen : List Str} {ts : List Case}
    (h : ∀ t ∈ ts, nameText t.suite ∈ seen) (us : List Case) :
    forwarded tell script seen (ts ++ us) =
      ts.flatMap (caseEvents tell script) ++ forwarded tell script seen us := by
  induction ts with
  | nil => rfl
  | cons t ts ih =>
      rw [List.cons_append, forwarded,
        if_pos (List.contains_iff_mem.mpr (h t (by simp))),
        ih fun x hx => h x (by simp [hx]), List.flatMap_cons, List.append_assoc]

/-- The events of a suite, without its end. -/
def suiteStory (tell : Msg → Option Event) (script : FnId → List Call)
    (r : SuiteReport) : List Event :=
  .suiteStart (nameText r.name) ::
    r.cases.flatMap fun c => caseEvents tell script c.case

theorem WordName.inj {a b : Option CStr} (ha : WordName a) (hb : WordName b)
    (h : nameText a = nameText b) : a = b := by
  rw [ha.text, hb.text, h]

/-- For cases in suite order the main loop forwards each suite once. -/
theorem forwarded_suites {rs : List SuiteReport} (h : Suites rs)
    (hword : ∀ r ∈ rs, WordName r.name) {seen : List Str}
    (hseen : ∀ r ∈ rs, nameText r.name ∉ seen) :
    forwarded tell script seen (reportedCases rs) =
      rs.flatMap (suiteStory tell script) := by
  induction rs generalizing seen with
  | nil => rfl
  | cons r rs ih =>
      have hrest : Suites rs :=
        { named := fun x hx => h.named x (by simp [hx])
          once := (List.nodup_cons.mp h.once).2
          nonempty := fun x hx => h.nonempty x (by simp [hx])
          suite := fun x hx => h.suite x (by simp [hx]) }
      have hnew : ∀ x ∈ rs, nameText x.name ∉ nameText r.name :: seen := by
        intro x hx hmem
        rcases List.mem_cons.mp hmem with heq | hmem
        · have hname := (hword x (by simp [hx])).inj (hword r (by simp)) heq
          exact (List.nodup_cons.mp h.once).1 (hname ▸ List.mem_map_of_mem hx)
        · exact hseen x (by simp [hx]) hmem
      have hsuite := h.suite r (by simp)
      have hnonempty := h.nonempty r (by simp)
      have hsplit : reportedCases (r :: rs) =
          r.cases.map CaseReport.case ++ reportedCases rs := rfl
      have hstory : suiteStory tell script r = .suiteStart (nameText r.name) ::
          (r.cases.map CaseReport.case).flatMap (caseEvents tell script) := by
        rw [List.flatMap_map]
        rfl
      rw [hsplit, List.flatMap_cons, hstory]
      cases hcases : r.cases with
      | nil => exact absurd hcases hnonempty
      | cons c cs =>
        rw [hcases] at hsuite
        have hc : nameText c.case.suite = nameText r.name := by rw [hsuite c (by simp)]
        rw [List.map_cons, List.cons_append, forwarded, hc,
          if_neg (List.contains_iff_mem.not.mpr (hseen r (by simp))), forwarded_seen,
          ih hrest (fun x hx => hword x (by simp [hx])) hnew]
        · simp
        · intro t ht
          obtain ⟨d, hd, rfl⟩ := List.mem_map.mp ht
          rw [hsuite d (by simp [hd])]
          simp

end Tell

end PolyOnTest.Cli
