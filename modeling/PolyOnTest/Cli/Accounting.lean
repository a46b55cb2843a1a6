import Mathlib.Data.List.Induction
import PolyOnTest.Cli.Isolated

/-!
# The accounting of an isolated run

How the counters of `run_isolated` follow the events of the children.

* `receive` counts the `CaseEnd` events and nothing else (`foldl_receive`).
* A child of one case moves the counters in one of three ways
  (`runChild_tally`): a crash adds a failure, a `CaseEnd` adds its status, and a
  child that starts its case and then stops without either adds nothing.
* `isolated_accounting` is the result for a run: each launched case adds exactly
  one, unless it vanishes in the third way.
-/

namespace PolyOnTest.Cli

open CodeLib PolyOnTest.Builtins

/-! ## Counters -/

/-- The three counters of `run_isolated`. -/
structure Tally where
  passed : UInt32
  failed : UInt32
  skipped : UInt32
  deriving DecidableEq

namespace Tally

/-- One more case with a status. -/
def add (n : Tally) : TestStatus → Tally
  | .passed => { n with passed := n.passed + 1 }
  | .failed => { n with failed := n.failed + 1 }
  | .skipped => { n with skipped := n.skipped + 1 }

/-- The sum of the counters. -/
def total (n : Tally) : Nat := n.passed.toNat + n.failed.toNat + n.skipped.toNat

theorem toNat_add_one {v : UInt32} (h : v.toNat + 1 < 2 ^ 32) :
    (v + 1).toNat = v.toNat + 1 := by
  rw [UInt32.toNat_add, UInt32.toNat_one, Nat.mod_eq_of_lt h]

theorem total_add {n : Tally} (h : n.total + 1 < 2 ^ 32) (status : TestStatus) :
    (n.add status).total = n.total + 1 := by
  unfold total at h
  cases status with
  | passed =>
    have hv := toNat_add_one (v := n.passed) (by omega)
    simp only [total, add, hv]
    omega
  | failed =>
    have hv := toNat_add_one (v := n.failed) (by omega)
    simp only [total, add, hv]
    omega
  | skipped =>
    have hv := toNat_add_one (v := n.skipped) (by omega)
    simp only [total, add, hv]
    omega

theorem failed_add {n : Tally} (h : n.total + 1 < 2 ^ 32) :
    (n.add .failed).failed.toNat = n.failed.toNat + 1 := by
  unfold total at h
  exact toNat_add_one (by omega)

/-- Some more cases. -/
theorem total_foldl_add {n : Tally} {statuses : List TestStatus}
    (h : n.total + statuses.length < 2 ^ 32) :
    (statuses.foldl add n).total = n.total + statuses.length := by
  induction statuses generalizing n with
  | nil => rfl
  | cons status statuses ih =>
      rw [List.length_cons] at h
      have hone := total_add (n := n) (by omega) status
      rw [List.foldl_cons, ih (by omega), hone, List.length_cons]
      omega

theorem failed_le_foldl_add {n : Tally} {statuses : List TestStatus}
    (h : n.total + statuses.length < 2 ^ 32) :
    n.failed.toNat ≤ (statuses.foldl add n).failed.toNat := by
  induction statuses generalizing n with
  | nil => exact le_refl _
  | cons status statuses ih =>
      rw [List.length_cons] at h
      have htotal := total_add (n := n) (by omega) status
      have hrest := ih (n := n.add status) (by omega)
      cases status with
      | failed =>
        have hfailed := failed_add (n := n) (by omega)
        exact le_trans (by omega) hrest
      | passed => exact hrest
      | skipped => exact hrest

end Tally

/-- The counters of a session. -/
def Session.tally (s : Session) : Tally := ⟨s.passed, s.failed, s.skipped⟩

@[simp] theorem Session.report_tally (ev : Event) (s : Session) :
    (s.report ev).tally = s.tally := rfl

@[simp] theorem Session.count_tally (s : Session) (status : TestStatus) :
    (s.count status).tally = s.tally.add status := by
  cases status <;> rfl

theorem saturatingPred_add_one {v : UInt32} (h : v.toNat + 1 < 2 ^ 32) :
    saturatingPred (v + 1) = v := by
  have hv := Tally.toNat_add_one h
  have hne : v + 1 ≠ 0 := by
    intro h0
    rw [h0] at hv
    simp at hv
  rw [saturatingPred, if_neg hne]
  exact UInt32.add_sub_cancel v 1

/-- The correction turns the case that was counted last into a failed one. -/
theorem Session.correct_tally {s : Session} {n : Tally} {status : TestStatus}
    (hs : s.tally = n.add status) (h : n.total + 1 < 2 ^ 32) :
    (s.correct status).tally = n.add .failed := by
  unfold Tally.total at h
  unfold Session.tally Tally.add at hs
  cases status with
  | passed =>
    simp only [Tally.mk.injEq] at hs
    obtain ⟨hp, hf, hk⟩ := hs
    simp only [Session.correct, Session.tally, Tally.add, hp, hf, hk,
      saturatingPred_add_one (v := n.passed) (by omega)]
  | failed => simpa [Session.correct, Session.tally, Tally.add] using hs
  | skipped =>
    simp only [Tally.mk.injEq] at hs
    obtain ⟨hp, hf, hk⟩ := hs
    simp only [Session.correct, Session.tally, Tally.add, hp, hf, hk,
      saturatingPred_add_one (v := n.skipped) (by omega)]

/-! ## The events of a child -/

/-- The statuses of the `CaseEnd` events. -/
def caseEnds (evs : List Event) : List TestStatus :=
  evs.filterMap fun
    | .caseEnd _ _ status => some status
    | _ => none

/-- Whether an event is a `CaseStart`. -/
def isCaseStart : Event → Bool
  | .caseStart .. => true
  | _ => false

/-- Whether an event is an `AssertFail`. -/
def isAssertFail : Event → Bool
  | .assertFail .. => true
  | _ => false

theorem caseEnds_append (a b : List Event) : caseEnds (a ++ b) = caseEnds a ++ caseEnds b :=
  List.filterMap_append

/-- What the main loop has noted after some events. -/
structure Noted (s : Session) (evs : List Event) (x : Session × Progress) : Prop where
  tally : x.1.tally = (caseEnds evs).foldl Tally.add s.tally
  ranCase : x.2.ranCase = evs.any isCaseStart
  receivedCaseEnd : x.2.receivedCaseEnd = !(caseEnds evs).isEmpty
  parsedStatus : x.2.parsedStatus = (caseEnds evs).getLast?.getD .passed

/-- An event that changes neither counters nor progress. -/
theorem Noted.same {s : Session} {evs : List Event} {x y : Session × Progress} {ev : Event}
    (h : Noted s evs x) (hends : caseEnds [ev] = []) (hstart : isCaseStart ev = false)
    (htally : y.1.tally = x.1.tally) (hprogress : y.2 = x.2) : Noted s (evs ++ [ev]) y where
  tally := by rw [caseEnds_append, hends, List.append_nil, htally, h.tally]
  ranCase := by
    rw [List.any_append, hprogress, h.ranCase]
    simp [hstart]
  receivedCaseEnd := by
    rw [caseEnds_append, hends, List.append_nil, hprogress, h.receivedCaseEnd]
  parsedStatus := by
    rw [caseEnds_append, hends, List.append_nil, hprogress, h.parsedStatus]

theorem receive_noted {s : Session} {evs : List Event} {x : Session × Progress}
    (h : Noted s evs x) (ev : Event) : Noted s (evs ++ [ev]) (receive x ev) := by
  cases ev with
  | suiteStart name =>
    unfold receive
    dsimp only
    split_ifs
    · exact h.same rfl rfl rfl rfl
    · exact h.same rfl rfl rfl rfl
  | caseStart suite name =>
    have happend : caseEnds (evs ++ [.caseStart suite name]) = caseEnds evs := by
      simp [caseEnds]
    refine ⟨?_, ?_, ?_, ?_⟩
    · rw [happend]
      exact h.tally
    · simp [receive, isCaseStart]
    · rw [happend]
      exact h.receivedCaseEnd
    · rw [happend]
      exact h.parsedStatus
  | assertFail suite name file line message => exact h.same rfl rfl rfl rfl
  | caseEnd suite name status =>
    have happend : caseEnds (evs ++ [.caseEnd suite name status]) =
        caseEnds evs ++ [status] := caseEnds_append _ _
    refine ⟨?_, ?_, ?_, ?_⟩
    · rw [happend, List.foldl_append, ← h.tally]
      simp [receive]
    · simp [receive, isCaseStart, h.ranCase]
    · rw [happend]
      simp [receive]
    · rw [happend]
      simp [receive]
  | suiteEnd name passed failed skipped => exact h.same rfl rfl rfl rfl
  | log message => exact h.same rfl rfl rfl rfl
  | done passed failed skipped => exact h.same rfl rfl rfl rfl

/-- The main loop over the events of a child, by induction from the last one. -/
theorem foldl_receive (s : Session) (evs : List Event) :
    Noted s evs (evs.foldl receive (s, .init)) := by
  induction evs using List.reverseRecOn with
  | nil => exact ⟨rfl, rfl, rfl, rfl⟩
  | append_singleton evs ev ih =>
      rw [List.foldl_append]
      exact receive_noted ih ev

section Noted

variable {s : Session} {evs : List Event} {x : Session × Progress}

theorem Noted.receivedCaseEnd_eq_false (h : Noted s evs x) :
    x.2.receivedCaseEnd = false ↔ caseEnds evs = [] := by
  rw [h.receivedCaseEnd, Bool.not_eq_false', List.isEmpty_iff]

/-- The status that was seen last was counted last. -/
theorem Noted.tally_last (h : Noted s evs x) (hreceived : x.2.receivedCaseEnd = true) :
    x.1.tally = ((caseEnds evs).dropLast.foldl Tally.add s.tally).add x.2.parsedStatus := by
  have htally := h.tally
  have hstatus := h.parsedStatus
  rcases List.eq_nil_or_concat' (caseEnds evs) with hends | ⟨statuses, status, hends⟩
  · rw [h.receivedCaseEnd_eq_false.mpr hends] at hreceived
    cases hreceived
  · rw [hends] at htally hstatus ⊢
    rw [hstatus, List.getLast?_concat, Option.getD_some, List.dropLast_concat, htally,
      List.foldl_append]
    rfl

theorem Noted.total_dropLast (h : Noted s evs x) (hreceived : x.2.receivedCaseEnd = true)
    (hbound : s.tally.total + (caseEnds evs).length < 2 ^ 32) :
    ((caseEnds evs).dropLast.foldl Tally.add s.tally).total + 1 < 2 ^ 32 := by
  have hpos : 0 < (caseEnds evs).length := by
    rw [List.length_pos_iff]
    intro hends
    rw [h.receivedCaseEnd_eq_false.mpr hends] at hreceived
    cases hreceived
  have hlen : (caseEnds evs).dropLast.length = (caseEnds evs).length - 1 :=
    List.length_dropLast
  rw [Tally.total_foldl_add (by omega)]
  omega

end Noted

/-! ## A child of one case -/

/-- The events that the harness sends for a run of one case. -/
def caseRun (suite leaf : Str) (failures : List Event) (status : TestStatus)
    (passed failed skipped : UInt32) : List Event :=
  .suiteStart suite :: .caseStart suite leaf ::
    (failures ++ [.caseEnd suite leaf status, .suiteEnd suite passed failed skipped,
      .done passed failed skipped])

/-- The events of a run of one case, cut off anywhere. -/
def CutRun (evs : List Event) : Prop :=
  ∃ suite leaf failures status passed failed skipped,
    (∀ ev ∈ failures, isAssertFail ev = true) ∧
      evs <+: caseRun suite leaf failures status passed failed skipped

theorem caseEnds_failures {failures : List Event}
    (h : ∀ ev ∈ failures, isAssertFail ev = true) : caseEnds failures = [] := by
  rw [caseEnds, List.filterMap_eq_nil_iff]
  intro ev hev
  have hfail := h ev hev
  cases ev <;> first | rfl | cases hfail

/-- A run of one case has at most one `CaseEnd`, and a `CaseStart` in front of it. -/
theorem CutRun.ends {evs : List Event} (h : CutRun evs) :
    caseEnds evs = [] ∨ ∃ status, caseEnds evs = [status] ∧ evs.any isCaseStart = true := by
  obtain ⟨suite, leaf, failures, status, passed, failed, skipped, hfail, hcut⟩ := h
  have hends : caseEnds (caseRun suite leaf failures status passed failed skipped) =
      [status] := by
    have hsplit : caseEnds (caseRun suite leaf failures status passed failed skipped) =
        caseEnds failures ++ [status] := by
      simp [caseEnds, caseRun, List.filterMap_append]
    rw [hsplit, caseEnds_failures hfail]
    rfl
  have hprefix : caseEnds evs <+: [status] := hends ▸ hcut.filterMap _
  rcases evs with _ | ⟨ev₁, _ | ⟨ev₂, evs⟩⟩
  · exact Or.inl rfl
  · -- one event, which is the start of the suite
    obtain ⟨rfl, -⟩ := List.cons_prefix_cons.mp hcut
    exact Or.inl rfl
  · obtain ⟨-, hrest⟩ := List.cons_prefix_cons.mp hcut
    obtain ⟨rfl, -⟩ := List.cons_prefix_cons.mp hrest
    rcases List.prefix_cons_iff.mp hprefix with hnil | ⟨ends, heq, hends⟩
    · exact Or.inl hnil
    · rw [List.prefix_nil.mp hends] at heq
      exact Or.inr ⟨status, heq, by simp [isCaseStart]⟩

/-! ## One launch -/

/-- An iteration of the loop of `run_isolated` in which the child was waited
for. -/
structure Launch where
  case : TestCase
  child : Child
  status : ExitStatus
  before : Session
  after : Session

/-- The child had to count as failed: it sent no `CaseEnd`, or it ended with a
status other than 0 and 1, or its stream ended with an error or by the time
limit. -/
def Launch.mustFail (codec : String) (l : Launch) : Prop :=
  caseEnds (l.child.heard codec).1 = [] ∨ l.status.isOk = false ∨
    (l.child.heard codec).2 ≠ .ok ()

/-- The launch adds one to the sum of the counters, and it adds it to the failed
cases when it had to. -/
structure Accounted (codec : String) (l : Launch) : Prop where
  once : l.after.tally.total = l.before.tally.total + 1
  failed : l.mustFail codec → l.after.failed.toNat = l.before.failed.toNat + 1

/-- The child started its case, closed its output without a `CaseEnd`, and ended
with the status 0 or 1. -/
def Launch.vanished (codec : String) (l : Launch) : Prop :=
  (l.child.heard codec).2 = .ok () ∧ l.status.isOk = true ∧
    (l.child.heard codec).1.any isCaseStart = true ∧
    caseEnds (l.child.heard codec).1 = []

/-- The counters behind a block for a crash: the last case is a failure, whether
its `CaseEnd` was counted or not. -/
theorem settleCrash_tally {s : Session} {evs : List Event} {x : Session × Progress}
    (h : Noted s evs x) (hbound : s.tally.total + (caseEnds evs).length < 2 ^ 32)
    (c : TestCase) (message : Str) :
    (settleCrash c message x).tally =
      ((caseEnds evs).dropLast.foldl Tally.add s.tally).add .failed := by
  have hstart : ∀ ev, (if x.2.ranCase then x.1 else x.1.report ev).tally = x.1.tally := by
    intro ev
    split_ifs <;> rfl
  unfold settleCrash
  dsimp only
  cases hreceived : x.2.receivedCaseEnd with
  | false =>
    have htally := h.tally
    rw [h.receivedCaseEnd_eq_false.mp hreceived] at htally ⊢
    rw [if_pos (by simp), Session.count_tally, Session.report_tally, Session.report_tally,
      hstart, htally]
    rfl
  | true =>
    rw [if_neg (by simp)]
    refine Session.correct_tally ?_ (h.total_dropLast hreceived hbound)
    rw [Session.report_tally, hstart, h.tally_last hreceived]

/-- The spec of the loop body for a child of one case. -/
theorem runChild_tally {codec : String} {c : TestCase} {child : Child} {s s' : Session}
    {status : ExitStatus} {flag : Bool} (hwait : child.wait = .ok status)
    (hrun : runChild codec c child s = .ok (s', flag))
    (hcut : CutRun (child.heard codec).1) (hbound : s.tally.total + 1 < 2 ^ 32) :
    (((child.heard codec).2 ≠ .ok () ∨ status.isOk = false ∨
          (child.heard codec).1.any isCaseStart = false) ∧
        s'.tally = s.tally.add .failed) ∨
      ((child.heard codec).2 = .ok () ∧ status.isOk = true ∧
        (child.heard codec).1.any isCaseStart = true ∧
        s'.tally = (caseEnds (child.heard codec).1).foldl Tally.add s.tally) := by
  have hnoted := foldl_receive s (child.heard codec).1
  unfold runChild at hrun
  rw [hwait] at hrun
  dsimp only at hrun
  split_ifs at hrun with hcrashed
  · refine Or.inl ⟨?_, ?_⟩
    · rw [crashed, hnoted.ranCase, Bool.or_eq_true, Bool.or_eq_true] at hcrashed
      rcases hcrashed with (hres | hstatus) | hran
      · refine Or.inl fun hok => ?_
        rw [hok] at hres
        cases hres
      · exact Or.inr (Or.inl (by simpa using hstatus))
      · exact Or.inr (Or.inr (by simpa using hran))
    · cases hrun
      rcases hcut.ends with hends | ⟨last, hends, -⟩
      · have htally := settleCrash_tally hnoted (by rw [hends]; exact Nat.lt_of_succ_lt hbound) c
        rw [hends] at htally
        exact htally _
      · have htally := settleCrash_tally hnoted (by rw [hends]; exact hbound) c
        rw [hends] at htally
        exact htally _
  · refine Or.inr ?_
    rw [crashed, hnoted.ranCase, Bool.or_eq_true, Bool.or_eq_true, not_or, not_or] at hcrashed
    obtain ⟨⟨hres, hstatus⟩, hran⟩ := hcrashed
    cases hrun
    refine ⟨?_, by simpa using hstatus, by simpa using hran, hnoted.tally⟩
    cases hheard : (child.heard codec).2 with
    | error e => simp [hheard, Except.isOk, Except.toBool] at hres
    | ok u => rfl

/-- A launch of one case is accounted for exactly when the case does not vanish. -/
theorem accounted_iff {codec : String} {l : Launch} {flag : Bool}
    (hwait : l.child.wait = .ok l.status)
    (hrun : runChild codec l.case l.child l.before = .ok (l.after, flag))
    (hcut : CutRun (l.child.heard codec).1)
    (hbound : l.before.tally.total + 1 < 2 ^ 32) :
    Accounted codec l ↔ ¬ l.vanished codec := by
  have hadd := fun status => Tally.total_add hbound status
  have hfail : l.after.tally = l.before.tally.add .failed → Accounted codec l := by
    intro htally
    refine ⟨by rw [htally, hadd], fun _ => ?_⟩
    have hfailed := Tally.failed_add hbound
    rw [← htally] at hfailed
    exact hfailed
  rcases runChild_tally hwait hrun hcut hbound with ⟨hcrash, htally⟩ | ⟨hres, hok, hran, htally⟩
  · refine iff_of_true (hfail htally) ?_
    rintro ⟨hres, hok, hran, -⟩
    rcases hcrash with h | h | h
    · exact h hres
    · rw [hok] at h
      cases h
    · rw [hran] at h
      cases h
  · rcases hcut.ends with hends | ⟨status, hends, -⟩
    · rw [hends] at htally
      refine iff_of_false (fun h => ?_) (not_not.mpr ⟨hres, hok, hran, hends⟩)
      have honce := h.once
      rw [htally] at honce
      exact absurd honce (by simp)
    · rw [hends] at htally
      refine iff_of_true ⟨by rw [htally]; exact hadd status, ?_⟩ ?_
      · rintro (h | h | h)
        · rw [hends] at h
          cases h
        · rw [hok] at h
          cases h
        · exact absurd hres h
      · rintro ⟨-, -, -, h⟩
        rw [hends] at h
        cases h

/-! ## A run -/

/-- The launches of the loop of `run_isolated`, from the case with the number `k`
on. -/
def launches (m : Machine) (codec onCrash : String) :
    Nat → List TestCase → Session → List Launch
  | _, [], _ => []
  | k, c :: cs, s =>
      match m.spawn k c with
      | .error _ => []
      | .ok child =>
          match child.wait, runChild codec c child s with
          | .ok status, .ok (s', crashed) =>
              ⟨c, child, status, s, s'⟩ ::
                if crashed ∧ onCrash = "abort" then []
                else launches m codec onCrash (k + 1) cs s'
          | _, _ => []

/-- A trip of the loop: it stops the run, or it launches the case and the run
goes on or is over. -/
theorem trip_cases (m : Machine) (codec onCrash : String) (k : Nat) (c : TestCase)
    (cs : List TestCase) (s : Session) :
    (launches m codec onCrash k (c :: cs) s = [] ∧
        ∃ stopped, runCases m codec onCrash k (c :: cs) s = .error stopped) ∨
      ∃ l flag, l.before = s ∧ m.spawn k c = .ok l.child ∧ l.child.wait = .ok l.status ∧
        runChild codec l.case l.child l.before = .ok (l.after, flag) ∧
        launches m codec onCrash k (c :: cs) s =
          l :: (if flag ∧ onCrash = "abort" then []
            else launches m codec onCrash (k + 1) cs l.after) ∧
        runCases m codec onCrash k (c :: cs) s =
          if flag ∧ onCrash = "abort" then .ok l.after
          else runCases m codec onCrash (k + 1) cs l.after := by
  rw [launches, runCases]
  cases hspawn : m.spawn k c with
  | error e => exact Or.inl ⟨rfl, _, rfl⟩
  | ok child =>
    cases hchild : runChild codec c child s with
    | error stopped =>
      refine Or.inl ⟨?_, stopped, by simp [hchild]⟩
      cases child.wait <;> simp [hchild]
    | ok result =>
      obtain ⟨s', flag⟩ := result
      cases hwait : child.wait with
      | error e =>
        unfold runChild at hchild
        simp [hwait] at hchild
      | ok status =>
        exact Or.inr ⟨⟨c, child, status, s, s'⟩, flag, rfl, rfl, hwait, hchild,
          by simp [hwait, hchild], by simp [hchild]⟩

/-- A child of one case adds at most one. -/
theorem runChild_total_le {codec : String} {c : TestCase} {child : Child}
    {s s' : Session} {status : ExitStatus} {flag : Bool}
    (hwait : child.wait = .ok status) (hrun : runChild codec c child s = .ok (s', flag))
    (hcut : CutRun (child.heard codec).1) (hbound : s.tally.total + 1 < 2 ^ 32) :
    s'.tally.total ≤ s.tally.total + 1 := by
  have hadd := fun status => Tally.total_add hbound status
  rcases runChild_tally hwait hrun hcut hbound with ⟨-, htally⟩ | ⟨-, -, -, htally⟩
  · rw [htally, hadd]
  · rcases hcut.ends with hends | ⟨status', hends, -⟩
    · rw [htally, hends]
      exact Nat.le_succ _
    · rw [htally, hends]
      exact le_of_eq (hadd status')

section Run

variable {m : Machine} {codec onCrash : String}

/-- What holds of each launch, by induction on the cases. -/
theorem launches_spec
    (hcut : ∀ k c child, m.spawn k c = .ok child → CutRun (child.heard codec).1)
    {cs : List TestCase} {k : Nat} {s : Session}
    (hbound : s.tally.total + cs.length < 2 ^ 32) {l : Launch}
    (hl : l ∈ launches m codec onCrash k cs s) :
    l.child.wait = .ok l.status ∧
      (∃ flag, runChild codec l.case l.child l.before = .ok (l.after, flag)) ∧
      CutRun (l.child.heard codec).1 ∧ l.before.tally.total + 1 < 2 ^ 32 := by
  induction cs generalizing k s with
  | nil => exact (List.not_mem_nil hl).elim
  | cons c cs ih =>
      rw [List.length_cons] at hbound
      rcases trip_cases m codec onCrash k c cs s with
        ⟨hnone, -⟩ | ⟨first, flag, rfl, hspawn, hwait, hrun, hlaunches, -⟩
      · rw [hnone] at hl
        exact (List.not_mem_nil hl).elim
      · have hchild := hcut k c first.child hspawn
        have hle := runChild_total_le hwait hrun hchild (by omega)
        rw [hlaunches] at hl
        rcases List.mem_cons.mp hl with rfl | hl
        · exact ⟨hwait, ⟨flag, hrun⟩, hchild, by omega⟩
        · split_ifs at hl
          · exact (List.not_mem_nil hl).elim
          · exact ih (by omega) hl

/-- When every launch is accounted for, a run that ends has counted each of its
launches once. -/
theorem runCases_total {cs : List TestCase} {k : Nat} {s s' : Session}
    (h : ∀ l ∈ launches m codec onCrash k cs s, Accounted codec l)
    (hrun : runCases m codec onCrash k cs s = .ok s') :
    s'.tally.total = s.tally.total + (launches m codec onCrash k cs s).length := by
  induction cs generalizing k s with
  | nil =>
      cases hrun
      rfl
  | cons c cs ih =>
      rcases trip_cases m codec onCrash k c cs s with
        ⟨-, _, hstopped⟩ | ⟨first, flag, rfl, -, -, -, hlaunches, hgoes⟩
      · rw [hstopped] at hrun
        cases hrun
      · rw [hlaunches] at h ⊢
        rw [hgoes] at hrun
        have honce := (h first List.mem_cons_self).once
        split_ifs at hrun h ⊢
        · cases hrun
          exact honce
        · have hrest := ih (fun l hl => h l (List.mem_cons_of_mem _ hl)) hrun
          rw [hrest, honce, List.length_cons]
          omega

end Run

/-- Each launched case of an isolated run adds exactly one to the counters, and
one to the failed cases when it had to, exactly when it does not vanish; and
without a vanished case the counters that the run reports sum up to its
launches. -/
theorem isolated_accounting (m : Machine) (t : TargetConfig) (onCrash : String)
    (cases : List TestCase) (rs : List Reporter)
    (hcut : ∀ k c child, m.spawn k c = .ok child → CutRun (child.heard t.codec).1)
    (hbound : cases.length < 2 ^ 32) :
    (∀ l ∈ launches m t.codec onCrash 0 cases (.start rs),
        (Accounted t.codec l ↔ ¬ l.vanished t.codec)) ∧
      ∀ s, runCases m t.codec onCrash 0 cases (.start rs) = .ok s →
        ((∀ l ∈ launches m t.codec onCrash 0 cases (.start rs), ¬ l.vanished t.codec) →
          s.tally.total = (launches m t.codec onCrash 0 cases (.start rs)).length) ∧
        ∀ disk filter, discoverCases m filter = .ok cases → cases ≠ [] →
          makeReporters t = .ok rs →
          runIsolated disk m t filter onCrash = finishRun disk s := by
  have hiff : ∀ l ∈ launches m t.codec onCrash 0 cases (.start rs),
      (Accounted t.codec l ↔ ¬ l.vanished t.codec) := by
    intro l hl
    have hstart : (Session.start rs).tally.total + cases.length < 2 ^ 32 := by
      simpa [Session.start, Session.tally, Tally.total] using hbound
    obtain ⟨hwait, ⟨flag, hrun⟩, hchild, hroom⟩ := launches_spec hcut hstart hl
    exact accounted_iff hwait hrun hchild hroom
  refine ⟨hiff, fun s hrun => ⟨fun hnone => ?_, ?_⟩⟩
  · have htotal := runCases_total (fun l hl => (hiff l hl).mpr (hnone l hl)) hrun
    rw [htotal]
    exact Nat.zero_add _
  · intro disk filter hcases hne hrs
    exact runIsolated_eq hcases hne hrs hrun

/-- A machine with the case `Math.ops.add`, whose process writes a text and ends
with a status. -/
def addMachine (text : String) (status : ExitStatus) : Machine where
  build := .ok ()
  discover := fun _ => .ok ⟨Utf8.encode "list-case:Math.ops.add\n".toList, .exited 0⟩
  spawn := fun _ _ => .ok ⟨[.data (Utf8.encode text.toList)], none, .ok status⟩

/-- The case. -/
def addCase : TestCase := ⟨"Math".toList, "ops".toList, "add".toList⟩

/-- The output of a process that stops in the body of the case. -/
def startedText : String := "SUITE_START Math\nCASE_START Math.ops.add\n"

theorem startedText_heard (status : ExitStatus) (k : Nat) (c : TestCase) (child : Child)
    (h : (addMachine startedText status).spawn k c = .ok child) :
    child.heard "text" =
      ([.suiteStart "Math".toList, .caseStart "Math".toList "ops.add".toList], .ok ()) := by
  have hread : readerThread "text" [.data (Utf8.encode startedText.toList)] =
      ([.suiteStart "Math".toList, .caseStart "Math".toList "ops.add".toList], .ok ()) := by
    decide +kernel
  cases h
  exact hread

theorem startedText_cut (status : ExitStatus) (k : Nat) (c : TestCase) (child : Child)
    (h : (addMachine startedText status).spawn k c = .ok child) :
    CutRun (child.heard "text").1 := by
  rw [startedText_heard status k c child h]
  exact ⟨"Math".toList, "ops.add".toList, [], .passed, 0, 0, 0,
    fun _ hev => (List.not_mem_nil hev).elim, ⟨_, rfl⟩⟩

/-- A target with the text codec and no reporters. -/
def quietTarget : TargetConfig :=
  { TargetConfig.default with codec := "text", reporters := [] }

/-- A run whose only child crashes by the signal 11. -/
theorem isolated_accounting_crash :
    ∃ l, launches (addMachine startedText ⟨11⟩) "text" "continue" 0 [addCase] (.start []) =
      [l] ∧ Accounted "text" l := by
  have hone : (launches (addMachine startedText ⟨11⟩) "text" "continue" 0 [addCase]
      (.start [])).length = 1 := by decide +kernel
  have hstatus : ∀ l ∈ launches (addMachine startedText ⟨11⟩) "text" "continue" 0
      [addCase] (.start []), l.status.isOk = false := by decide +kernel
  obtain ⟨l, hl⟩ := List.length_eq_one_iff.mp hone
  have hmem : l ∈ launches (addMachine startedText ⟨11⟩) "text" "continue" 0 [addCase]
      (.start []) := by
    rw [hl]
    exact List.mem_singleton_self l
  refine ⟨l, hl, ((isolated_accounting (addMachine startedText ⟨11⟩) quietTarget "continue"
    [addCase] [] (startedText_cut ⟨11⟩) (by decide)).1 l hmem).mpr ?_⟩
  rintro ⟨-, hok, -⟩
  rw [hstatus l hmem] at hok
  cases hok

/-- A process that leaves the body of its case by `exit(0)`: the case is in no
counter, and the run ends with exit code 0. -/
theorem isolated_accounting_vanished :
    (∀ k c child, (addMachine startedText (.exited 0)).spawn k c = .ok child →
        CutRun (child.heard "text").1) ∧
      discoverCases (addMachine startedText (.exited 0)) ⟨none, none, none⟩ =
        .ok [addCase] ∧
      (∃ l ∈ launches (addMachine startedText (.exited 0)) "text" "continue" 0 [addCase]
          (.start []),
        l.mustFail "text" ∧ l.after.tally = l.before.tally) ∧
      (runIsolated (fun _ _ => .ok ()) (addMachine startedText (.exited 0)) quietTarget
        ⟨none, none, none⟩ "continue").2.code = 0 := by
  have hlaunch : ∃ l ∈ launches (addMachine startedText (.exited 0)) "text" "continue" 0
      [addCase] (.start []),
      caseEnds (l.child.heard "text").1 = [] ∧ l.after.tally = l.before.tally := by
    decide +kernel
  obtain ⟨l, hl, hends, htally⟩ := hlaunch
  exact ⟨startedText_cut (.exited 0), by decide +kernel,
    ⟨l, hl, Or.inl hends, htally⟩, by decide +kernel⟩

end PolyOnTest.Cli
