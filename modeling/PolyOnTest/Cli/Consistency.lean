import PolyOnTest.Cli.Accounting

/-!
# What the totals of an isolated run say about its reports

The children may send any events.  Three views of a run are compared: the
counters of `run_isolated`, its flag `suite_failed`, and the events that its
reporters got.

* `receive_heard` and `receive_flagged` say how the views follow one event, and
  `settleCrash_heard` and `settleCrash_flagged` how they follow a correction.
* `Settled` is what a launch does to them (`runChild_settled`), and
  `runCases_settled` adds up the launches of a run.
* `isolated_consistent` is the result.
-/

namespace PolyOnTest.Cli

open CodeLib PolyOnTest.Builtins

/-! ## The views -/

/-- The flag is set exactly when the failed counter is not zero. -/
def Session.Flagged (s : Session) : Prop := s.suiteFailed = true ↔ 0 < s.failed.toNat

/-- Each reporter got `n` `CaseEnd` events. -/
def Heard (rs : List Reporter) (n : Nat) : Prop :=
  ∀ r ∈ rs, (caseEnds r.received).length = n

theorem Session.report_heard {s : Session} {n : Nat} (h : Heard s.reporters n) (ev : Event) :
    Heard (s.report ev).reporters (n + (caseEnds [ev]).length) := by
  intro r hr
  obtain ⟨r', hr', rfl⟩ := List.mem_map.mp hr
  rw [Reporter.onEvent, caseEnds_append, List.length_append, h r' hr']

theorem Session.count_heard {s : Session} {n : Nat} (h : Heard s.reporters n)
    (status : TestStatus) : Heard (s.count status).reporters n := by
  cases status <;> exact h

theorem Session.correct_heard {s : Session} {n : Nat} (h : Heard s.reporters n)
    (status : TestStatus) : Heard (s.correct status).reporters n := by
  cases status <;> exact h

theorem Session.count_flagged {s : Session} (h : s.Flagged)
    (hroom : s.tally.total + 1 < 2 ^ 32) (status : TestStatus) : (s.count status).Flagged := by
  cases status with
  | failed =>
    have hfailed := Tally.failed_add hroom
    rw [← Session.count_tally] at hfailed
    exact iff_of_true rfl (lt_of_lt_of_eq (Nat.succ_pos _) hfailed.symm)
  | passed => exact h
  | skipped => exact h

/-- A correction counts one failure more, or it changes nothing. -/
theorem Session.correct_flagged {s : Session} (h : s.Flagged)
    (hroom : s.tally.total + 1 < 2 ^ 32) (status : TestStatus) :
    (s.correct status).Flagged := by
  have hfailed : (s.failed + 1).toNat = s.failed.toNat + 1 := Tally.failed_add hroom
  cases status with
  | failed => exact h
  | passed => exact iff_of_true rfl (lt_of_lt_of_eq (Nat.succ_pos _) hfailed.symm)
  | skipped => exact iff_of_true rfl (lt_of_lt_of_eq (Nat.succ_pos _) hfailed.symm)

/-! ## The events of a child -/

theorem receive_heard {x : Session × Progress} {n : Nat} (h : Heard x.1.reporters n)
    (ev : Event) : Heard (receive x ev).1.reporters (n + (caseEnds [ev]).length) := by
  cases ev with
  | suiteStart name =>
    unfold receive
    dsimp only
    split_ifs
    · exact h
    · exact Session.report_heard (s := { x.1 with seenSuites := name :: x.1.seenSuites }) h _
  | caseEnd suite name status => exact Session.report_heard (Session.count_heard h status) _
  | caseStart suite name => exact Session.report_heard h _
  | assertFail suite name file line message => exact Session.report_heard h _
  | suiteEnd name passed failed skipped => exact h
  | log message => exact h
  | done passed failed skipped => exact h

theorem foldl_receive_heard (evs : List Event) {x : Session × Progress} {n : Nat}
    (h : Heard x.1.reporters n) :
    Heard (evs.foldl receive x).1.reporters (n + (caseEnds evs).length) := by
  induction evs generalizing x n with
  | nil => exact h
  | cons ev evs ih =>
      have hrest := ih (receive_heard h ev)
      rw [Nat.add_assoc, ← List.length_append, ← caseEnds_append] at hrest
      exact hrest

theorem receive_flagged {x : Session × Progress} (h : x.1.Flagged)
    (hroom : x.1.tally.total + 1 < 2 ^ 32) (ev : Event) : (receive x ev).1.Flagged := by
  cases ev with
  | suiteStart name =>
    unfold receive
    dsimp only
    split_ifs <;> exact h
  | caseEnd suite name status => exact Session.count_flagged h hroom status
  | _ => exact h

theorem caseEnds_length_le (evs : List Event) : (caseEnds evs).length ≤ evs.length :=
  List.length_filterMap_le _ _

/-- By induction from the last event: the counters in front of it are those of
the events before. -/
theorem foldl_receive_flagged {s : Session} (h : s.Flagged) {evs : List Event}
    (hroom : s.tally.total + evs.length < 2 ^ 32) :
    (evs.foldl receive (s, .init)).1.Flagged := by
  induction evs using List.reverseRecOn with
  | nil => exact h
  | append_singleton evs ev ih =>
      rw [List.length_append, List.length_singleton] at hroom
      rw [List.foldl_append, List.foldl_cons, List.foldl_nil]
      have hle := caseEnds_length_le evs
      refine receive_flagged (ih (by omega)) ?_ ev
      rw [(foldl_receive s evs).tally, Tally.total_foldl_add (by omega)]
      omega

/-! ## One launch -/

/-- The state behind the events of the child. -/
def Launch.noted (codec : String) (l : Launch) : Session × Progress :=
  (l.child.heard codec).1.foldl receive (l.before, .init)

/-- The child counts as crashed. -/
def Launch.crashed (codec : String) (l : Launch) : Bool :=
  Cli.crashed (l.noted codec).2 (l.child.heard codec).2 l.status

/-- The number of `CaseEnd` events that the reporters get: those of the child, and
the one that is made up when it crashed without. -/
def Launch.forwarded (codec : String) (l : Launch) : Nat :=
  (caseEnds (l.child.heard codec).1).length +
    if l.crashed codec ∧ caseEnds (l.child.heard codec).1 = [] then 1 else 0

/-- A correction subtracts from a counter that is zero. -/
def Launch.saturates (codec : String) (l : Launch) : Prop :=
  l.crashed codec = true ∧ (l.noted codec).2.receivedCaseEnd = true ∧
    ((l.noted codec).2.parsedStatus = .passed ∧ (l.noted codec).1.passed = 0 ∨
      (l.noted codec).2.parsedStatus = .skipped ∧ (l.noted codec).1.skipped = 0)

/-! ## The block for a crash -/

/-- The reporters get a `CaseEnd` exactly when the child has sent none. -/
theorem settleCrash_heard {x : Session × Progress} {n : Nat} (h : Heard x.1.reporters n)
    (c : TestCase) (message : Str) :
    Heard (settleCrash c message x).reporters
      (n + if x.2.receivedCaseEnd then 0 else 1) := by
  have hstart : Heard (if x.2.ranCase then x.1
      else x.1.report (.caseStart c.suite c.leaf)).reporters n := by
    split_ifs
    · exact h
    · exact Session.report_heard h _
  have hfail := Session.report_heard hstart (.assertFail c.suite c.leaf [] 0 message)
  unfold settleCrash
  dsimp only
  cases x.2.receivedCaseEnd with
  | false =>
    rw [if_pos (by simp)]
    exact Session.count_heard (Session.report_heard hfail _) .failed
  | true =>
    rw [if_neg (by simp)]
    exact Session.correct_heard hfail _

theorem settleCrash_flagged {x : Session × Progress} (h : x.1.Flagged)
    (hroom : x.1.tally.total + 1 < 2 ^ 32) (c : TestCase) (message : Str) :
    (settleCrash c message x).Flagged := by
  have hstart : ∀ ev, (if x.2.ranCase then x.1 else x.1.report ev).Flagged ∧
      (if x.2.ranCase then x.1 else x.1.report ev).tally.total + 1 < 2 ^ 32 := by
    intro ev
    split_ifs <;> exact ⟨h, hroom⟩
  obtain ⟨hflagged, hroom'⟩ := hstart (.caseStart c.suite c.leaf)
  unfold settleCrash
  dsimp only
  cases x.2.receivedCaseEnd with
  | false =>
    rw [if_pos (by simp)]
    refine Session.count_flagged ?_ ?_ .failed
    · exact hflagged
    · exact hroom'
  | true =>
    rw [if_neg (by simp)]
    refine Session.correct_flagged ?_ ?_ x.2.parsedStatus
    · exact hflagged
    · exact hroom'

/-! ## What a launch does -/

/-- What a launch does to the three views. -/
structure Settled (codec : String) (l : Launch) : Prop where
  total : l.after.tally.total = l.before.tally.total + l.forwarded codec
  heard : ∀ n, Heard l.before.reporters n → Heard l.after.reporters (n + l.forwarded codec)
  failed :
    l.before.failed.toNat + (if l.crashed codec then 1 else 0) ≤ l.after.failed.toNat
  flagged : l.before.Flagged → l.after.Flagged
  unsaturated : ¬ l.saturates codec

section Settled

variable {codec : String} {l : Launch}

theorem Launch.noted_noted (codec : String) (l : Launch) :
    Noted l.before (l.child.heard codec).1 (l.noted codec) :=
  foldl_receive l.before (l.child.heard codec).1

/-- A child that did not crash has sent all its `CaseEnd` events itself. -/
theorem settled_of_end (hcrash : l.crashed codec = false) (hafter : l.after = (l.noted codec).1)
    (hroom : l.before.tally.total + (l.child.heard codec).1.length < 2 ^ 32) :
    Settled codec l := by
  have hle := caseEnds_length_le (l.child.heard codec).1
  have hends : l.before.tally.total + (caseEnds (l.child.heard codec).1).length < 2 ^ 32 := by
    omega
  have hforwarded : l.forwarded codec = (caseEnds (l.child.heard codec).1).length := by
    rw [Launch.forwarded, hcrash, if_neg (by simp), Nat.add_zero]
  have htally := (l.noted_noted codec).tally
  refine ⟨?_, fun n hn => ?_, ?_, fun hflag => ?_, fun hsat => ?_⟩
  · rw [hafter, htally, Tally.total_foldl_add hends, hforwarded]
  · rw [hafter, hforwarded]
    exact foldl_receive_heard _ hn
  · have hfailed := Tally.failed_le_foldl_add hends
    rw [← htally, ← hafter] at hfailed
    rw [hcrash, if_neg Bool.false_ne_true]
    exact hfailed
  · rw [hafter]
    exact foldl_receive_flagged hflag hroom
  · exact Bool.false_ne_true (hcrash.symm.trans hsat.1)

theorem Launch.forwarded_of_crash (hcrash : l.crashed codec = true) :
    l.forwarded codec = (caseEnds (l.child.heard codec).1).length +
        (if (l.noted codec).2.receivedCaseEnd then 0 else 1) ∧
      (caseEnds (l.child.heard codec).1).dropLast.length + 1 = l.forwarded codec := by
  have hnoted := l.noted_noted codec
  rw [Launch.forwarded, hcrash, List.length_dropLast]
  cases hreceived : (l.noted codec).2.receivedCaseEnd with
  | false => simp [hnoted.receivedCaseEnd_eq_false.mp hreceived]
  | true =>
    have hne : caseEnds (l.child.heard codec).1 ≠ [] := fun hnil => by
      rw [hnoted.receivedCaseEnd_eq_false.mpr hnil] at hreceived
      cases hreceived
    have hpos := List.length_pos_of_ne_nil hne
    simp only [hne, and_false, if_false, if_true, Nat.add_zero, true_and]
    omega

/-- The counter that a correction subtracts from has counted the last `CaseEnd`. -/
theorem Launch.not_saturates
    (hroom : l.before.tally.total + (caseEnds (l.child.heard codec).1).length < 2 ^ 32) :
    ¬ l.saturates codec := by
  rintro ⟨-, hreceived, hzero⟩
  have hlast := (l.noted_noted codec).tally_last hreceived
  have hbefore := (l.noted_noted codec).total_dropLast hreceived hroom
  generalize (caseEnds (l.child.heard codec).1).dropLast.foldl Tally.add l.before.tally = n
    at hlast hbefore
  unfold Tally.total at hbefore
  rcases hzero with ⟨hstatus, hzero⟩ | ⟨hstatus, hzero⟩
  · rw [hstatus] at hlast
    have hpassed : (l.noted codec).1.passed = n.passed + 1 := congrArg Tally.passed hlast
    have hsucc := Tally.toNat_add_one (v := n.passed) (by omega)
    rw [← hpassed, hzero] at hsucc
    cases hsucc
  · rw [hstatus] at hlast
    have hskipped : (l.noted codec).1.skipped = n.skipped + 1 := congrArg Tally.skipped hlast
    have hsucc := Tally.toNat_add_one (v := n.skipped) (by omega)
    rw [← hskipped, hzero] at hsucc
    cases hsucc

/-- After a crash the last `CaseEnd` counts as a failure, or there was none and
one is made up. -/
theorem settled_of_crash {message : Str} (hcrash : l.crashed codec = true)
    (hafter : l.after = settleCrash l.case message (l.noted codec))
    (hroom : l.before.tally.total + (l.child.heard codec).1.length + 1 < 2 ^ 32) :
    Settled codec l := by
  have hle := caseEnds_length_le (l.child.heard codec).1
  have hnoted := l.noted_noted codec
  obtain ⟨hforwarded, hcount⟩ := Launch.forwarded_of_crash hcrash
  have htally := settleCrash_tally hnoted (by omega) l.case message
  rw [← hafter] at htally
  have hbefore : l.before.tally.total +
      (caseEnds (l.child.heard codec).1).dropLast.length < 2 ^ 32 := by
    rw [List.length_dropLast]
    omega
  have htotal := Tally.total_foldl_add hbefore
  have hone : ((caseEnds (l.child.heard codec).1).dropLast.foldl Tally.add
      l.before.tally).total + 1 < 2 ^ 32 := by
    rw [htotal, List.length_dropLast]
    omega
  refine ⟨?_, fun n hn => ?_, ?_, fun hflag => ?_, Launch.not_saturates (by omega)⟩
  · rw [htally, Tally.total_add hone, htotal]
    omega
  · rw [hafter, hforwarded, ← Nat.add_assoc]
    exact settleCrash_heard (foldl_receive_heard _ hn) l.case message
  · have hfailed := Tally.failed_add hone
    have hmono := Tally.failed_le_foldl_add hbefore
    rw [← htally] at hfailed
    rw [hcrash, if_pos rfl]
    exact le_of_le_of_eq (Nat.succ_le_succ hmono) hfailed.symm
  · rw [hafter]
    refine settleCrash_flagged (foldl_receive_flagged hflag (by omega)) ?_ l.case message
    have hall := @Tally.total_foldl_add l.before.tally (caseEnds (l.child.heard codec).1)
      (by omega)
    rw [← hnoted.tally] at hall
    exact lt_of_eq_of_lt (congrArg (· + 1) hall) (by omega)

/-- The spec of the loop body for a child that sends anything. -/
theorem runChild_settled {flag : Bool} (hwait : l.child.wait = .ok l.status)
    (hrun : runChild codec l.case l.child l.before = .ok (l.after, flag))
    (hroom : l.before.tally.total + (l.child.heard codec).1.length + 1 < 2 ^ 32) :
    Settled codec l := by
  unfold runChild at hrun
  rw [hwait] at hrun
  dsimp only at hrun
  change (if l.crashed codec = true then _ else _) = _ at hrun
  split_ifs at hrun with hcrash
  · simp only [Except.ok.injEq, Prod.mk.injEq] at hrun
    exact settled_of_crash hcrash hrun.1.symm hroom
  · simp only [Except.ok.injEq, Prod.mk.injEq] at hrun
    exact settled_of_end (eq_false_of_ne_true hcrash) hrun.1.symm (by omega)

theorem Launch.forwarded_le (codec : String) (l : Launch) :
    l.forwarded codec ≤ (l.child.heard codec).1.length + 1 := by
  have hle := caseEnds_length_le (l.child.heard codec).1
  unfold Launch.forwarded
  split_ifs <;> omega

end Settled

/-! ## A run -/

/-- The events that the main loop took. -/
def eventsHeard (codec : String) (ls : List Launch) : Nat :=
  (ls.map fun l => (l.child.heard codec).1.length).sum

/-- The `CaseEnd` events that it forwarded. -/
def endsForwarded (codec : String) (ls : List Launch) : Nat :=
  (ls.map (Launch.forwarded codec)).sum

/-- What a part of a run does to the three views. -/
structure Totals (codec : String) (ls : List Launch) (s s' : Session) : Prop where
  total : s'.tally.total = s.tally.total + endsForwarded codec ls
  heard : ∀ n, Heard s.reporters n → Heard s'.reporters (n + endsForwarded codec ls)
  failed : s.failed.toNat + ls.countP (Launch.crashed codec) ≤ s'.failed.toNat
  flagged : s.Flagged → s'.Flagged

theorem Totals.refl (codec : String) (s : Session) : Totals codec [] s s :=
  ⟨rfl, fun _ hn => hn, le_refl _, id⟩

theorem Totals.cons {codec : String} {l : Launch} {ls : List Launch} {s' : Session}
    (h : Totals codec ls l.after s') (hl : Settled codec l) :
    Totals codec (l :: ls) l.before s' := by
  have hforwarded : endsForwarded codec (l :: ls) =
      l.forwarded codec + endsForwarded codec ls := List.sum_cons
  refine ⟨?_, fun n hn => ?_, ?_, fun hflag => h.flagged (hl.flagged hflag)⟩
  · rw [h.total, hl.total, hforwarded, Nat.add_assoc]
  · rw [hforwarded, ← Nat.add_assoc]
    exact h.heard _ (hl.heard n hn)
  · have hfailed := hl.failed
    have hrest := h.failed
    rw [List.countP_cons]
    omega

section Run

variable {m : Machine} {codec onCrash : String}

/-- The loop, by induction on the cases. -/
theorem runCases_totals {cs : List TestCase} {k : Nat} {s : Session}
    (hroom : s.tally.total + cs.length +
      eventsHeard codec (launches m codec onCrash k cs s) < 2 ^ 32) :
    (∀ l ∈ launches m codec onCrash k cs s, ¬ l.saturates codec) ∧
      ∀ s', runCases m codec onCrash k cs s = .ok s' →
        Totals codec (launches m codec onCrash k cs s) s s' := by
  induction cs generalizing k s with
  | nil =>
      refine ⟨fun _ hl => (List.not_mem_nil hl).elim, fun s' hrun => ?_⟩
      cases hrun
      exact Totals.refl codec s
  | cons c cs ih =>
      rw [List.length_cons] at hroom
      rcases trip_cases m codec onCrash k c cs s with
        ⟨hnone, _, hstopped⟩ | ⟨l, flag, rfl, -, hwait, hrun, hlaunches, hgoes⟩
      · rw [hnone, hstopped]
        exact ⟨fun _ hl => (List.not_mem_nil hl).elim, fun _ h => by cases h⟩
      · rw [hlaunches] at hroom ⊢
        rw [hgoes]
        have hevents : ∀ ls, eventsHeard codec (l :: ls) =
            (l.child.heard codec).1.length + eventsHeard codec ls := fun _ => List.sum_cons
        rw [hevents] at hroom
        have hsettled := runChild_settled hwait hrun (by omega)
        have hforwarded := l.forwarded_le codec
        have htotal := hsettled.total
        split_ifs at hroom ⊢
        · refine ⟨List.forall_mem_singleton.mpr hsettled.unsaturated, fun s' h => ?_⟩
          cases h
          exact (Totals.refl codec l.after).cons hsettled
        · obtain ⟨hunsaturated, htotals⟩ := ih (k := k + 1) (s := l.after) (by omega)
          exact ⟨List.forall_mem_cons.mpr ⟨hsettled.unsaturated, hunsaturated⟩,
            fun s' h => (htotals s' h).cons hsettled⟩

end Run

/-! ## The end of a run -/

theorem reportDone_heard (disk : Disk) {ev : Event} (hev : caseEnds [ev] = [])
    {rs : List Reporter} {n : Nat} (h : Heard rs n) : Heard (reportDone disk ev rs).1 n := by
  induction rs with
  | nil => exact h
  | cons r rs ih =>
      have hr : (caseEnds (r.onEvent ev).received).length = n := by
        rw [Reporter.onEvent, caseEnds_append, hev, List.append_nil]
        exact h r List.mem_cons_self
      have hrs : Heard rs n := fun x hx => h x (List.mem_cons_of_mem r hx)
      rw [reportDone, Reporter.finish]
      cases disk (r.onEvent ev).kind (r.onEvent ev).received with
      | error e => exact List.forall_mem_cons.mpr ⟨hr, hrs⟩
      | ok u => exact List.forall_mem_cons.mpr ⟨hr, ih hrs⟩

/-- Unless a report cannot be written, every reporter gets the event last. -/
theorem reportDone_last (disk : Disk) (ev : Event) {rs : List Reporter}
    (h : (reportDone disk ev rs).2 = .ok ()) :
    ∀ r ∈ (reportDone disk ev rs).1, r.received.getLast? = some ev := by
  induction rs with
  | nil => exact fun _ hr => (List.not_mem_nil hr).elim
  | cons r rs ih =>
      rw [reportDone, Reporter.finish] at h ⊢
      cases hdisk : disk (r.onEvent ev).kind (r.onEvent ev).received with
      | error e =>
        rw [hdisk] at h
        cases h
      | ok u =>
        rw [hdisk] at h
        exact List.forall_mem_cons.mpr ⟨List.getLast?_concat, ih h⟩

/-- The last statements of a run with views that agree. -/
theorem finishRun_flagged (disk : Disk) {s : Session} (h : s.Flagged)
    (hfinish : ∀ e, (finishRun disk s).2 ≠ .error e) :
    (∀ r ∈ (finishRun disk s).1,
        r.received.getLast? = some (.done s.passed s.failed s.skipped)) ∧
      ((finishRun disk s).2.code = 1 ↔ 0 < s.failed.toNat) := by
  have hlast := @reportDone_last disk (.done s.passed s.failed s.skipped) s.reporters
  unfold finishRun at hfinish ⊢
  generalize reportDone disk (.done s.passed s.failed s.skipped) s.reporters = answer
    at hlast hfinish ⊢
  obtain ⟨rs, e | u⟩ := answer
  · exact absurd rfl (hfinish e)
  · refine ⟨hlast rfl, ?_⟩
    show (if s.suiteFailed then Exit.exited 1 else Exit.returned).code = 1 ↔ _
    refine Iff.trans ?_ h
    cases s.suiteFailed <;> simp [Exit.code]

theorem finishRun_reporters (disk : Disk) (s : Session) :
    (finishRun disk s).1 =
      (reportDone disk (.done s.passed s.failed s.skipped) s.reporters).1 := by
  unfold finishRun
  rcases reportDone disk (.done s.passed s.failed s.skipped) s.reporters with ⟨rs, e | u⟩ <;> rfl

/-- The totals of an isolated run are consistent with what its reporters saw,
whatever the children do.  The counters sum up to the `CaseEnd` events that the
reporters got, at least one failure is counted for each crashed child, and no
correction saturates.  If the reports can be written, the run exits with code 1
exactly when a failure is counted. -/
theorem isolated_consistent (disk : Disk) (m : Machine) (t : TargetConfig)
    (filter : HostFilter) (onCrash : String) {cases : List TestCase} {rs : List Reporter}
    (hcases : discoverCases m filter = .ok cases) (hrs : makeReporters t = .ok rs)
    (hroom : cases.length +
      eventsHeard t.codec (launches m t.codec onCrash 0 cases (.start rs)) < 2 ^ 32) :
    (∀ l ∈ launches m t.codec onCrash 0 cases (.start rs), ¬ l.saturates t.codec) ∧
      ∀ s, cases ≠ [] → runCases m t.codec onCrash 0 cases (.start rs) = .ok s →
        runIsolated disk m t filter onCrash = finishRun disk s ∧
        s.passed.toNat + s.failed.toNat + s.skipped.toNat =
          endsForwarded t.codec (launches m t.codec onCrash 0 cases (.start rs)) ∧
        (∀ r ∈ (finishRun disk s).1,
          (caseEnds r.received).length =
            s.passed.toNat + s.failed.toNat + s.skipped.toNat) ∧
        (launches m t.codec onCrash 0 cases (.start rs)).countP (Launch.crashed t.codec) ≤
          s.failed.toNat ∧
        ((∀ e, (finishRun disk s).2 ≠ .error e) →
          (∀ r ∈ (finishRun disk s).1,
            r.received.getLast? = some (.done s.passed s.failed s.skipped)) ∧
          ((finishRun disk s).2.code = 1 ↔ 0 < s.failed.toNat)) := by
  have hstart : (Session.start rs).tally.total = 0 := rfl
  obtain ⟨hunsaturated, htotals⟩ :=
    @runCases_totals m t.codec onCrash cases 0 (.start rs) (by omega)
  refine ⟨hunsaturated, fun s hne hrun => ?_⟩
  have htotal := htotals s hrun
  have hsum := htotal.total
  rw [hstart, Nat.zero_add] at hsum
  have hheard : Heard s.reporters s.tally.total := by
    have hfresh : Heard (Session.start rs).reporters 0 := fun r hr =>
      congrArg (List.length ∘ caseEnds) (makeReporters_fresh hrs r hr)
    rw [hsum, ← Nat.zero_add (endsForwarded _ _)]
    exact htotal.heard 0 hfresh
  have hflagged : s.Flagged :=
    htotal.flagged (iff_of_false Bool.false_ne_true (Nat.lt_irrefl 0))
  refine ⟨runIsolated_eq hcases hne hrs hrun, hsum, ?_, ?_, finishRun_flagged disk hflagged⟩
  · rw [finishRun_reporters]
    exact reportDone_heard disk rfl hheard
  · exact le_of_eq_of_le (Nat.zero_add _).symm htotal.failed

/-- A target with the text codec and the reporter that writes a file. -/
def fileTarget : TargetConfig := { quietTarget with reporters := ["junit"] }

/-- A process that reports its case as passed and ends. -/
def passing : Machine := addMachine "CASE_START Math.ops.add\nPASS Math.ops.add\n" (.exited 0)

/-- No failure is counted and no child crashed, but the run exits with code 1: its report
cannot be written. -/
theorem passing_refused :
    discoverCases passing ⟨none, none, none⟩ = .ok [addCase] ∧
      makeReporters fileTarget = .ok [.new .junit] ∧
      [addCase].length + eventsHeard "text"
        (launches passing "text" "abort" 0 [addCase] (.start [.new .junit])) < 2 ^ 32 ∧
      (runCases passing "text" "abort" 0 [addCase] (.start [.new .junit])).map
        Session.tally = .ok ⟨1, 0, 0⟩ ∧
      (runIsolated fullDisk passing fileTarget ⟨none, none, none⟩ "abort").2.code = 1 := by
  decide +kernel

/-- A target with the text codec and the reporter for the console. -/
def consoleTarget : TargetConfig := { quietTarget with reporters := ["console"] }

/-- A process that reports its case as passed and then crashes by the signal 11. -/
def lateCrash : Machine := addMachine "CASE_START Math.ops.add\nPASS Math.ops.add\n" ⟨11⟩

theorem isolated_consistent_lateCrash :
    ∃ s, runCases lateCrash "text" "abort" 0 [addCase] (.start [.new .console]) = .ok s ∧
      s.tally = ⟨0, 1, 0⟩ ∧
      (∀ r ∈ (finishRun (fun _ _ => .ok ()) s).1, (caseEnds r.received).length = 1) ∧
      (finishRun (fun _ _ => .ok ()) s).2.code = 1 := by
  have hroom : [addCase].length + eventsHeard "text"
      (launches lateCrash "text" "abort" 0 [addCase] (.start [.new .console])) < 2 ^ 32 := by
    decide +kernel
  have htally : (runCases lateCrash "text" "abort" 0 [addCase]
      (.start [.new .console])).map Session.tally = .ok ⟨0, 1, 0⟩ := by
    decide +kernel
  cases hrun : runCases lateCrash "text" "abort" 0 [addCase] (.start [.new .console]) with
  | error stopped =>
    rw [hrun] at htally
    cases htally
  | ok s =>
    rw [hrun] at htally
    have hs : s.tally = ⟨0, 1, 0⟩ := Except.ok.inj htally
    obtain ⟨-, hall⟩ := @isolated_consistent (fun _ _ => .ok ()) lateCrash consoleTarget
      ⟨none, none, none⟩ "abort" [addCase] [.new .console] (by decide +kernel) rfl hroom
    obtain ⟨hwhole, -, hheard, -, hexit⟩ := hall s (by simp) hrun
    simp only [Session.tally, Tally.mk.injEq] at hs
    obtain ⟨hpassed, hfailed, hskipped⟩ := hs
    have hended : (runIsolated (fun _ _ => .ok ()) lateCrash consoleTarget
        ⟨none, none, none⟩ "abort").2 = .exited 1 := by
      decide +kernel
    have hfinish : ∀ e, (finishRun (fun _ _ => .ok ()) s).2 ≠ .error e := by
      intro e he
      rw [← hwhole, hended] at he
      cases he
    refine ⟨s, rfl, by simp [Session.tally, hpassed, hfailed, hskipped], fun r hr => ?_, ?_⟩
    · rw [hheard r hr, hpassed, hfailed, hskipped]
      rfl
    · exact (hexit hfinish).2.mpr (by rw [hfailed]; decide)

end PolyOnTest.Cli
