import PolyOnTest.CodeLib.LastWrite
import PolyOnTest.Builtins.Reporter

/-!
# The JUnit reporter

`JunitReporter` keeps a row for each case that it has heard of.  A failing assertion
and the end of a case both write the status of the row; the report counts the rows.

`tests_eq` and `failures_eq` say what it counts: the names that were written, and
among them those that were written last as a failure.
-/

namespace PolyOnTest.Builtins

open CodeLib CodeLib.LastWrite

/-- One entry of `cases`. -/
structure JunitCase where
  suite : Str
  name : Str
  status : TestStatus
  message : Option Str
  deriving DecidableEq, Repr

/-- `JunitReporter`, without the path of its file. -/
structure JunitReporter where
  cases : List JunitCase
  suite : Str
  deriving DecidableEq, Repr

/-- The names of a row. -/
def JunitCase.key (c : JunitCase) : Str × Str := (c.suite, c.name)

namespace JunitReporter

/-- `JunitReporter::new`. -/
def new : JunitReporter := ⟨[], "polyontest".toList⟩

/-- The search from the back, the change of the row that it finds, and the row that
is pushed when it finds none. -/
def upsert (cases : List JunitCase) (change : JunitCase → JunitCase) (row : JunitCase) :
    List JunitCase :=
  (modifyLast (fun c => c.key = row.key) change cases).getD (cases ++ [row])

/-- `JunitReporter::on_event`. -/
def onEvent (r : JunitReporter) : Event → JunitReporter
  | .suiteStart name => { r with suite := name }
  | .caseEnd suite name status =>
      { r with
        cases := upsert r.cases (fun c => { c with status := status })
          ⟨suite, name, status, none⟩ }
  | .assertFail suite name _ _ message =>
      { r with
        cases := upsert r.cases
          (fun c => { c with message := some message, status := .failed })
          ⟨suite, name, .failed, some message⟩ }
  | _ => r

/-- The attribute `tests` of the report. -/
def tests (r : JunitReporter) : Nat := r.cases.length

/-- The attribute `failures` of the report. -/
def failures (r : JunitReporter) : Nat := (r.cases.filter (·.status = .failed)).length

/-- `str::replace` of a character. -/
def replaceChar (c : Char) (text : String) (s : Str) : Str :=
  s.flatMap fun d => if d = c then text.toList else [d]

/-- `xml_escape`. -/
def xmlEscape (s : Str) : Str :=
  replaceChar '"' "&quot;" (replaceChar '>' "&gt;" (replaceChar '<' "&lt;"
    (replaceChar '&' "&amp;" s)))

/-- The lines of a row. -/
def caseLines (c : JunitCase) : Str :=
  "  <testcase classname=\"".toList ++ xmlEscape c.suite ++ "\" name=\"".toList ++
    xmlEscape c.name ++ "\"".toList ++
      if c.status = .failed then
        ">\n    <failure message=\"".toList ++
          xmlEscape (c.message.getD "failed".toList) ++ "\"/>\n  </testcase>\n".toList
      else "/>\n".toList

/-- The text that `JunitReporter::finish` writes. -/
def report (r : JunitReporter) : Str :=
  "<?xml version=\"1.0\" encoding=\"UTF-8\"?>\n<testsuite name=\"".toList ++
    xmlEscape r.suite ++ "\" tests=\"".toList ++ Nat.toDigits 10 r.tests ++
      "\" failures=\"".toList ++ Nat.toDigits 10 r.failures ++ "\">\n".toList ++
        r.cases.flatMap caseLines ++ "</testsuite>\n".toList

/-- A reporter that has taken some events. -/
def receive (evs : List Event) : JunitReporter := evs.foldl onEvent new

end JunitReporter

/-! ## What the rows hold -/

/-- What an event writes: the names of a case and a status. -/
def eventWrite : Event → Option ((Str × Str) × TestStatus)
  | .caseEnd suite name status => some ((suite, name), status)
  | .assertFail suite name _ _ _ => some ((suite, name), .failed)
  | _ => none

/-- The names and the status of a row. -/
def JunitCase.entry (c : JunitCase) : (Str × Str) × TestStatus := (c.key, c.status)

namespace JunitReporter

/-- A write of a row is a write of its names and its status. -/
theorem map_upsert (cases : List JunitCase) {change : JunitCase → JunitCase}
    {row : JunitCase} (hkey : ∀ c, (change c).key = c.key)
    (hstatus : ∀ c, (change c).status = row.status) :
    (upsert cases change row).map JunitCase.entry =
      put (cases.map JunitCase.entry) row.entry := by
  have hentry : ∀ c : JunitCase, decide (c.key = row.key) = true →
      row.entry = (change c).entry := by
    intro c hc
    have hnames : c.key = row.key := of_decide_eq_true hc
    unfold JunitCase.entry
    rw [hkey, hstatus, hnames]
  have hmodify := @modifyLast_map _ _ JunitCase.entry (fun c => c.key = row.key)
    (fun e => e.1 = row.entry.1) change (fun _ => row.entry) (fun _ => rfl) hentry cases
  unfold upsert put
  rw [hmodify]
  cases modifyLast (fun c => decide (c.key = row.key)) change cases with
  | none => simp
  | some rows => rfl

/-- The rows as a table of the last writes. -/
theorem receive_entries (evs : List Event) :
    (receive evs).cases.map JunitCase.entry = (evs.filterMap eventWrite).foldl put [] := by
  have hloop : ∀ (evs : List Event) (r : JunitReporter),
      (evs.foldl onEvent r).cases.map JunitCase.entry =
        (evs.filterMap eventWrite).foldl put (r.cases.map JunitCase.entry) := by
    intro evs
    induction evs with
    | nil => exact fun _ => rfl
    | cons e evs ih =>
        intro r
        rw [List.foldl_cons, ih]
        cases e with
        | caseEnd suite name status =>
          exact congrArg (List.foldl put · _) (map_upsert r.cases (fun _ => rfl) fun _ => rfl)
        | assertFail suite name file line message =>
          exact congrArg (List.foldl put · _) (map_upsert r.cases (fun _ => rfl) fun _ => rfl)
        | _ => rfl
  exact hloop evs new

/-- The names that were written. -/
theorem tests_eq (evs : List Event) :
    (receive evs).tests = (lasting Prod.fst (evs.filterMap eventWrite)).length := by
  have hperm := putAll_perm (evs.filterMap eventWrite)
  rw [← receive_entries] at hperm
  have hlen := hperm.length_eq
  rw [List.length_map] at hlen
  exact hlen

/-- The names whose last write is a failure. -/
theorem failures_eq (evs : List Event) :
    (receive evs).failures =
      (lasting Prod.fst (evs.filterMap eventWrite)).countP (·.2 = .failed) := by
  have hperm := putAll_perm (evs.filterMap eventWrite)
  rw [← receive_entries] at hperm
  have hcount := hperm.countP_eq (·.2 = .failed)
  rw [List.countP_map] at hcount
  unfold failures
  rw [← List.countP_eq_length_filter]
  exact hcount

end JunitReporter

end PolyOnTest.Builtins
