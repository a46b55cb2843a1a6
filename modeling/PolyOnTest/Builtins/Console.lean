import PolyOnTest.CodeLib.Delimited
import PolyOnTest.CodeLib.Text
import PolyOnTest.Protocol

/-!
# The console report

`ConsoleReporter` with the text that it prints, and what a reader of the terminal makes of
it: a line that starts with `run` ends with the verdict of a case, and a verdict behind a
failing assertion has a line of its own.

`readScreen_transcript` says that such a reader gets the statuses of all cases, for every
stream whose suites do not start in the middle of a line.
-/

namespace PolyOnTest.Builtins

open CodeLib.Delimited CodeLib.Text

/-! ## The reporter -/

/-- `ConsoleReporter`.  The counters wrap, as they do in a release build. -/
structure ConsoleReporter where
  passed : UInt32
  failed : UInt32
  skipped : UInt32
  deriving DecidableEq

/-- The text in front of a case. -/
def runHead : Str := "  run   ".toList

/-- The text behind a case. -/
def runDots : Str := " ... ".toList

namespace ConsoleReporter

/-- `ConsoleReporter::new` -/
def new : ConsoleReporter := ⟨0, 0, 0⟩

/-- `on_event`: the reporter behind an event, and what it prints. -/
def onEvent (r : ConsoleReporter) : Event → ConsoleReporter × Str
  | .suiteStart name => (r, "suite  ".toList ++ name ++ ['\n'])
  | .caseStart suite name =>
      (r, runHead ++ (suite ++ '.' :: name) ++ runDots)
  | .caseEnd _ _ .passed => ({ r with passed := r.passed + 1 }, "ok\n".toList)
  | .caseEnd _ _ .failed => ({ r with failed := r.failed + 1 }, "FAILED\n".toList)
  | .caseEnd _ _ .skipped => ({ r with skipped := r.skipped + 1 }, "skipped\n".toList)
  | .assertFail suite name _ line message =>
      (r, '\n' :: ("    assert fail ".toList ++ (suite ++ '.' :: name ++
        ':' :: (Nat.toDigits 10 line.toNat ++ ':' :: ' ' :: message)) ++ ['\n']))
  -- the counters of a `Done` replace the ones that were counted
  | .done passed failed skipped => (⟨passed, failed, skipped⟩, [])
  | _ => (r, [])

/-- The line that `finish` prints behind an empty one. -/
def summary (r : ConsoleReporter) : Str :=
  Nat.toDigits 10 r.passed.toNat ++ " passed, ".toList ++ Nat.toDigits 10 r.failed.toNat ++
    " failed, ".toList ++ Nat.toDigits 10 r.skipped.toNat ++ " skipped".toList

/-- `finish` -/
def finish (r : ConsoleReporter) : Str := '\n' :: (r.summary ++ ['\n'])

/-- The reporter behind some events, and what it prints. -/
def takes (r : ConsoleReporter) : List Event → ConsoleReporter × Str
  | [] => (r, [])
  | ev :: evs =>
      let x := r.onEvent ev
      let y := x.1.takes evs
      (y.1, x.2 ++ y.2)

/-- What a new reporter prints of some events and a `finish`. -/
def transcript (evs : List Event) : Str := (new.takes evs).2 ++ (new.takes evs).1.finish

theorem takes_append (r : ConsoleReporter) (a b : List Event) :
    r.takes (a ++ b) = (((r.takes a).1.takes b).1, (r.takes a).2 ++ ((r.takes a).1.takes b).2) := by
  induction a generalizing r with
  | nil => rfl
  | cons ev a ih =>
      simp only [List.cons_append, takes, ih, List.append_assoc]

/-- The counters of a last `Done` are the ones that are printed. -/
theorem transcript_done (pre : List Event) (passed failed skipped : UInt32) :
    transcript (pre ++ [.done passed failed skipped]) =
      (new.takes pre).2 ++ finish ⟨passed, failed, skipped⟩ := by
  unfold transcript
  rw [takes_append]
  simp only [takes, onEvent, List.append_nil]

end ConsoleReporter

/-! ## A reader of the terminal -/

/-- The word for a verdict. -/
def ofWord (w : Str) : Option TestStatus :=
  if w = "ok".toList then some .passed
  else if w = "FAILED".toList then some .failed
  else if w = "skipped".toList then some .skipped
  else none

/-- What is behind the last space. -/
def lastWord (line : Str) : Str := (line.reverse.takeWhile (· ≠ ' ')).reverse

/-- The verdict of a line: the last word of a `run` line, or a whole line. -/
def verdictOf (line : Str) : Option TestStatus :=
  ofWord (if runHead.isPrefixOf line then lastWord line else line)

/-- A line as the reader of a stream takes it. -/
def readLine (line : Str) : Except Unit (List TestStatus) := .ok (verdictOf line).toList

/-- The open line and the verdicts of a text. -/
def readScreen (text : Str) : Str × Except Unit (List TestStatus) :=
  drain '\n' readLine [] text []

/-! ## Lines -/

/-- The open line behind a `CaseStart`. -/
def runLine (name : Str) : Str := runHead ++ name ++ runDots

/-- No verdict has a space. -/
theorem ofWord_space {w : Str} (h : ' ' ∈ w) : ofWord w = none := by
  unfold ofWord
  split_ifs with hok hfailed hskipped
  · rw [hok] at h
    exact absurd h (by decide)
  · rw [hfailed] at h
    exact absurd h (by decide)
  · rw [hskipped] at h
    exact absurd h (by decide)
  · rfl

theorem lastWord_append (a : Str) {w : Str} (h : ' ' ∉ w) : lastWord (a ++ ' ' :: w) = w := by
  have hall : ∀ c ∈ w.reverse, decide (c ≠ ' ') = true := by
    intro c hc
    refine decide_eq_true fun heq => h ?_
    rw [← heq]
    exact List.mem_reverse.mp hc
  unfold lastWord
  rw [List.reverse_append, List.reverse_cons, List.append_assoc,
    List.takeWhile_append_of_pos hall]
  simp

theorem feed_not_mem_runLine {name : Str} (h : '\n' ∉ name) : '\n' ∉ runLine name := by
  have hhead : '\n' ∉ runHead := by decide
  have hdots : '\n' ∉ runDots := by decide
  unfold runLine
  rw [List.mem_append, List.mem_append]
  rintro ((hin | hin) | hin)
  · exact hhead hin
  · exact h hin
  · exact hdots hin

theorem runLine_starts (name rest : Str) :
    runHead.isPrefixOf (runLine name ++ rest) = true := by
  rw [List.isPrefixOf_iff_prefix, runLine, List.append_assoc, List.append_assoc]
  exact List.prefix_append _ _

/-- A word behind a `run` line. -/
theorem verdictOf_runLine (name : Str) {w : Str} (h : ' ' ∉ w) :
    verdictOf (runLine name ++ w) = ofWord w := by
  have hdots : runDots = " ...".toList ++ [' '] := rfl
  have hline : runLine name ++ w = (runHead ++ name ++ " ...".toList) ++ ' ' :: w := by
    simp only [runLine, hdots, List.append_assoc, List.cons_append, List.nil_append]
  unfold verdictOf
  rw [if_pos (runLine_starts name w), hline, lastWord_append _ h]

/-- A line that is no `run` line and has a space. -/
theorem verdictOf_other {line : Str} (hrun : runHead.isPrefixOf line = false)
    (h : ' ' ∈ line) : verdictOf line = none := by
  unfold verdictOf
  rw [hrun]
  exact ofWord_space h

/-- What may stand in an open line. -/
def Pending (opened : Bool) (buf : Str) : Prop :=
  buf = [] ∨ (opened = true ∧ ∃ name, buf = runLine name)

theorem Pending.verdict {opened : Bool} {buf : Str} (h : Pending opened buf) {w : Str}
    (hw : ' ' ∉ w) (hplain : runHead.isPrefixOf w = false) :
    verdictOf (buf ++ w) = ofWord w := by
  rcases h with rfl | ⟨-, name, rfl⟩
  · unfold verdictOf
    rw [List.nil_append, hplain]
    rfl
  · exact verdictOf_runLine name hw

/-- A line feed hands the open line over. -/
theorem drain_line {a : Str} (h : '\n' ∉ a) (buf rest : Str) (out : List TestStatus) :
    drain '\n' readLine buf (a ++ '\n' :: rest) out =
      drain '\n' readLine [] rest (out ++ (verdictOf (buf ++ a)).toList) := by
  rw [drain_free '\n' readLine h, drain_cons_delim]
  rfl

/-! ## The events of a stream -/

/-- The strings of an event that the reporter prints. -/
def printedStrings : Event → List Str
  | .suiteStart name => [name]
  | .caseStart suite name => [suite, name]
  | .assertFail suite name _ _ message => [suite, name, message]
  | _ => []

/-- No name and no message has a line break. -/
def OneLineEach (evs : List Event) : Prop := ∀ ev ∈ evs, ∀ s ∈ printedStrings ev, '\n' ∉ s

/-- Suites start at the front of a line.  The flag tells whether a `run` line is open. -/
def Tidy : Bool → List Event → Prop
  | _, [] => True
  | opened, .suiteStart _ :: evs => opened = false ∧ Tidy false evs
  | _, .caseStart .. :: evs => Tidy true evs
  | _, .assertFail .. :: evs => Tidy false evs
  | _, .caseEnd .. :: evs => Tidy false evs
  | opened, _ :: evs => Tidy opened evs

/-- The statuses of the cases that end. -/
def verdicts (evs : List Event) : List TestStatus :=
  evs.filterMap fun
    | .caseEnd _ _ status => some status
    | _ => none

theorem Pending.nil (opened : Bool) : Pending opened [] := Or.inl rfl

theorem Pending.run {opened : Bool} {buf : Str} (h : Pending opened buf) (name : Str) :
    Pending true (buf ++ runLine name) := by
  rcases h with rfl | ⟨-, first, rfl⟩
  · exact Or.inr ⟨rfl, name, rfl⟩
  · refine Or.inr ⟨rfl, first ++ runDots ++ runHead ++ name, ?_⟩
    simp only [runLine, List.append_assoc]

/-- The word of a verdict ends the open line. -/
theorem drain_word {opened : Bool} {buf : Str} (h : Pending opened buf) {w : Str}
    {status : TestStatus} (hw : ofWord w = some status) (hspace : ' ' ∉ w) (hfeed : '\n' ∉ w)
    (hplain : runHead.isPrefixOf w = false) (rest : Str) (out : List TestStatus) :
    drain '\n' readLine buf (w ++ '\n' :: rest) out =
      drain '\n' readLine [] rest (out ++ [status]) := by
  rw [drain_line hfeed, h.verdict hspace hplain, hw]
  rfl

/-- What a `CaseEnd` prints is the word for its status. -/
theorem onEvent_caseEnd (r : ConsoleReporter) (suite name : Str) (status : TestStatus) :
    ∃ r' w, r.onEvent (.caseEnd suite name status) = (r', w ++ ['\n']) ∧
      ofWord w = some status ∧ ' ' ∉ w ∧ '\n' ∉ w ∧ runHead.isPrefixOf w = false := by
  cases status with
  | passed => exact ⟨_, "ok".toList, rfl, rfl, by decide, by decide, rfl⟩
  | failed => exact ⟨_, "FAILED".toList, rfl, rfl, by decide, by decide, rfl⟩
  | skipped => exact ⟨_, "skipped".toList, rfl, rfl, by decide, by decide, rfl⟩

/-- A line without a verdict. -/
theorem drain_other {line : Str} (hrun : runHead.isPrefixOf line = false)
    (hspace : ' ' ∈ line) (hfeed : '\n' ∉ line) (rest : Str) (out : List TestStatus) :
    drain '\n' readLine [] (line ++ '\n' :: rest) out = drain '\n' readLine [] rest out := by
  rw [drain_line hfeed, List.nil_append, verdictOf_other hrun hspace]
  exact congrArg _ (List.append_nil out)

/-- A line feed behind an open line, which has no verdict yet. -/
theorem drain_feed {opened : Bool} {buf : Str} (h : Pending opened buf) (rest : Str)
    (out : List TestStatus) :
    drain '\n' readLine buf ('\n' :: rest) out = drain '\n' readLine [] rest out := by
  have hline := drain_line (a := []) List.not_mem_nil buf rest out
  rw [h.verdict List.not_mem_nil rfl] at hline
  exact hline.trans (congrArg _ (List.append_nil out))

theorem feed_not_mem_digits (n : Nat) : '\n' ∉ Nat.toDigits 10 n := by
  intro h
  exact absurd (solid_toDigits n '\n' h) (by decide)

/-- By induction on the events: the reader gets the verdicts, and what it has left is an open
`run` line or nothing. -/
theorem drain_takes {evs : List Event} (hlines : OneLineEach evs) {opened : Bool}
    (htidy : Tidy opened evs) {buf : Str} (hbuf : Pending opened buf) (r : ConsoleReporter)
    (rest : Str) (out : List TestStatus) :
    ∃ opened' buf', Pending opened' buf' ∧
      drain '\n' readLine buf ((r.takes evs).2 ++ rest) out =
        drain '\n' readLine buf' rest (out ++ verdicts evs) := by
  induction evs generalizing opened buf r out with
  | nil =>
    refine ⟨opened, buf, hbuf, ?_⟩
    rw [verdicts, List.filterMap_nil, List.append_nil]
    rfl
  | cons ev evs ih =>
    obtain ⟨hev, hevs⟩ := List.forall_mem_cons.mp hlines
    show ∃ opened' buf', Pending opened' buf' ∧ drain '\n' readLine buf
      ((r.onEvent ev).2 ++ ((r.onEvent ev).1.takes evs).2 ++ rest) out = _
    rw [List.append_assoc]
    cases ev with
    | suiteStart name =>
      obtain ⟨rfl, htidy⟩ := htidy
      have hname : '\n' ∉ name := hev name (by simp [printedStrings])
      have hempty : buf = [] := hbuf.resolve_right fun h => Bool.false_ne_true h.1
      obtain ⟨opened', buf', hbuf', hih⟩ := ih hevs htidy (Pending.nil false) r out
      refine ⟨opened', buf', hbuf', ?_⟩
      have hline : ∀ t, (r.onEvent (.suiteStart name)).2 ++ t = ("suite  ".toList ++ name) ++ '\n' :: t :=
        fun t => List.append_assoc _ ['\n'] t
      rw [hempty, hline]
      exact (drain_other rfl (by simp) (by simp [hname]) _ out).trans hih
    | caseStart suite name =>
      have hsuite : '\n' ∉ suite := hev suite (by simp [printedStrings])
      have hname : '\n' ∉ name := hev name (by simp [printedStrings])
      have htidy : Tidy true evs := htidy
      have hrun : Pending true (buf ++ runLine (suite ++ '.' :: name)) := hbuf.run _
      obtain ⟨opened', buf', hbuf', hih⟩ := ih hevs htidy hrun r out
      have hfeed : '\n' ∉ runLine (suite ++ '.' :: name) :=
        feed_not_mem_runLine (by simp [hsuite, hname])
      have hline : (r.onEvent (.caseStart suite name)).2 = runLine (suite ++ '.' :: name) := rfl
      refine ⟨opened', buf', hbuf', ?_⟩
      rw [hline, drain_free '\n' readLine hfeed]
      exact hih
    | assertFail suite name file line message =>
      have hsuite : '\n' ∉ suite := hev suite (by simp [printedStrings])
      have hname : '\n' ∉ name := hev name (by simp [printedStrings])
      have hmessage : '\n' ∉ message := hev message (by simp [printedStrings])
      obtain ⟨opened', buf', hbuf', hih⟩ := ih hevs htidy (Pending.nil false) r out
      refine ⟨opened', buf', hbuf', ?_⟩
      rw [ConsoleReporter.onEvent, List.cons_append, drain_feed hbuf, List.append_assoc _ ['\n']]
      exact (drain_other rfl (by simp)
        (by simp [hsuite, hname, hmessage, feed_not_mem_digits]) _ out).trans hih
    | caseEnd suite name status =>
      obtain ⟨r', w, hprints, hw, hspace, hfeed, hplain⟩ := onEvent_caseEnd r suite name status
      obtain ⟨opened', buf', hbuf', hih⟩ := ih hevs htidy (Pending.nil false) r' (out ++ [status])
      refine ⟨opened', buf', hbuf', ?_⟩
      rw [hprints]
      dsimp only
      rw [List.append_assoc, List.singleton_append, drain_word hbuf hw hspace hfeed hplain, hih,
        List.append_assoc]
      rfl
    | suiteEnd name passed failed skipped => exact ih hevs htidy hbuf r out
    | log message => exact ih hevs htidy hbuf r out
    | done passed failed skipped => exact ih hevs htidy hbuf ⟨passed, failed, skipped⟩ out

theorem summary_other (r : ConsoleReporter) :
    runHead.isPrefixOf r.summary = false ∧ ' ' ∈ r.summary ∧ '\n' ∉ r.summary := by
  refine ⟨?_, ?_, ?_⟩
  · unfold ConsoleReporter.summary
    have hsolid := solid_toDigits r.passed.toNat
    cases hdigits : Nat.toDigits 10 r.passed.toNat with
    | nil => rfl
    | cons c ds =>
      rw [hdigits] at hsolid
      have hc : ' ' ≠ c := by
        rintro rfl
        exact absurd (hsolid ' ' List.mem_cons_self) (by decide)
      exact (Bool.and_eq_false_iff).mpr (Or.inl (beq_false_of_ne hc))
  · simp [ConsoleReporter.summary]
  · simp [ConsoleReporter.summary, feed_not_mem_digits]

/-- A reader of the terminal gets the statuses of all cases in their order. -/
theorem readScreen_transcript {evs : List Event} (hlines : OneLineEach evs)
    (htidy : Tidy false evs) :
    readScreen (ConsoleReporter.transcript evs) = ([], .ok (verdicts evs)) := by
  unfold readScreen ConsoleReporter.transcript
  obtain ⟨opened, buf, hbuf, hdrain⟩ := drain_takes hlines htidy (Pending.nil false)
    ConsoleReporter.new (ConsoleReporter.new.takes evs).1.finish []
  obtain ⟨hrun, hspace, hfeed⟩ := summary_other (ConsoleReporter.new.takes evs).1
  rw [hdrain, ConsoleReporter.finish, drain_feed hbuf, drain_other hrun hspace hfeed]
  rfl

end PolyOnTest.Builtins
