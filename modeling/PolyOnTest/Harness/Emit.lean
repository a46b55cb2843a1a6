import PolyOnTest.Harness.Format
import PolyOnTest.Harness.Ptwp

/-!
# Messages in both output modes

Each place of the harness that reports something does so twice under
`#if POT_EMIT_TEXT`: as a line of text or as a binary message.  `Msg` names
these places with the data that they report, `emitText` and `emitBinary` are
the two branches, and `emit` picks one of them, as the preprocessor does.

An emission is the list of calls of `emit_raw`.  A line takes two calls, one
for the text and one for the line feed.
-/

namespace PolyOnTest.Harness

open CodeLib CodeLib.CMemory

/-- The names of a case.  Each of them may be NULL. -/
structure CaseId where
  suite : Option CStr
  group : Option CStr
  name : Option CStr
  deriving DecidableEq

/-- What the harness reports, one constructor for each place that does. -/
inductive Msg
  | banner
  | suiteStart (name : Option CStr)
  | caseStart (id : CaseId)
  | assertFail (id : CaseId) (file : Option CStr) (line : Int32) (message : CStr)
  | ignored (id : CaseId) (message : CStr)
  | caseEnd (id : CaseId) (status : TestStatus)
  | suiteEnd (name : Option CStr) (passed failed skipped : UInt32)
  | done (passed failed skipped : UInt32)
  deriving DecidableEq

/-- The value of `POT_EMIT_TEXT`. -/
inductive Mode
  | text
  | binary
  deriving DecidableEq, Repr

/-- The name, or the placeholder that the formatting code has for NULL. -/
def orUnknown (s : Option CStr) : CStr := s.getD (CStr.lit "?")

/-- `append_str` of a literal. -/
def litFrag (s : String) : Frag := .str (some (CStr.lit s))

/-- `append_str` of a name or its placeholder. -/
def nameFrag (s : Option CStr) : Frag := .str (some (orUnknown s))

/-- `format_case_leaf` with the buffer of 128 bytes that every caller has. -/
def formatCaseLeaf (group name : Option CStr) : CStr :=
  (build 128 [nameFrag group, litFrag ".", nameFrag name]).cstr

/-- The calls of `append_case_id`. -/
def caseIdFrags (id : CaseId) : List Frag :=
  [nameFrag id.suite, litFrag ".", nameFrag id.group, litFrag ".", nameFrag id.name]

/-- The word of `emit_case_result` for a status. -/
def statusWord : TestStatus → String
  | .passed => "PASS"
  | .failed => "FAIL"
  | .skipped => "SKIP"

/-- The calls for the three counters of a line. -/
def counterFrags (passed failed skipped : UInt32) : List Frag :=
  [.u32 passed, litFrag " failed=", .u32 failed, litFrag " skipped=", .u32 skipped]

/-- The size of the line buffer.  The banner has none. -/
def Msg.cap : Msg → Nat
  | .banner => 0
  | .suiteStart _ => 128
  | .caseStart _ => 192
  | .assertFail .. => 320
  | .ignored .. => 256
  | .caseEnd .. => 256
  | .suiteEnd .. => 160
  | .done .. => 160

/-- The calls that fill the line buffer. -/
def Msg.frags : Msg → List Frag
  | .banner => []
  | .suiteStart name => [litFrag "SUITE_START ", .str name]
  | .caseStart id => litFrag "CASE_START " :: caseIdFrags id
  | .assertFail id file line message =>
      litFrag "FAIL " :: caseIdFrags id ++
        [litFrag " ", nameFrag file, litFrag ":", .i32 line, litFrag " ",
          .str (some message)]
  | .ignored id message =>
      litFrag "IGNORE " :: caseIdFrags id ++ [litFrag " ", .str (some message)]
  | .caseEnd id status =>
      litFrag (statusWord status) :: litFrag " " :: caseIdFrags id
  | .suiteEnd name passed failed skipped =>
      litFrag "SUITE_END " :: .str name :: litFrag " passed=" ::
        counterFrags passed failed skipped
  | .done passed failed skipped =>
      litFrag "DONE passed=" :: counterFrags passed failed skipped

/-- The line of a message. -/
def Msg.line : Msg → CStr
  | .banner => CStr.lit "=== POT ==="
  | m => (build m.cap m.frags).cstr

/-- `emit_line`. -/
def emitLine (line : CStr) : List (List UInt8) := [line.bytes, [0x0A]]

/-- The text branch. -/
def emitText (m : Msg) : List (List UInt8) := emitLine m.line

/-- The binary branch.  The banner and the note of `pot_ignore` have none. -/
def emitBinary : Msg → List (List UInt8)
  | .banner => []
  | .suiteStart name => emitSuiteStart name
  | .caseStart id => emitCaseStart id.suite (formatCaseLeaf id.group id.name)
  | .assertFail id _ line message =>
      emitAssertFail id.suite (formatCaseLeaf id.group id.name) message line.toUInt32
  | .ignored .. => []
  | .caseEnd id status =>
      emitCaseEnd id.suite (formatCaseLeaf id.group id.name) status
  | .suiteEnd name passed failed skipped => emitSuiteEnd name passed failed skipped
  | .done passed failed skipped => emitDone passed failed skipped

/-- The calls of the writer for a message. -/
def emit : Mode → Msg → List (List UInt8)
  | .text => emitText
  | .binary => emitBinary

/-- A message that only the text output has. -/
def Msg.isNote : Msg → Bool
  | .banner => true
  | .ignored .. => true
  | _ => false

/-! ## The arguments of `emit_msg` -/

theorem emit_suiteStart (name : Option CStr) :
    emit .binary (.suiteStart name) = emitMsg .suiteStart name none none 0 0 0 := by
  unfold emit emitBinary emitSuiteStart
  rfl

theorem emit_caseStart (id : CaseId) :
    emit .binary (.caseStart id) = emitMsg .caseStart id.suite
      (some (formatCaseLeaf id.group id.name)) none 0 0 0 := by
  unfold emit emitBinary emitCaseStart
  rfl

theorem emit_assertFail (id : CaseId) (file : Option CStr) (line : Int32)
    (message : CStr) :
    emit .binary (.assertFail id file line message) = emitMsg .assertFail id.suite
      (some (formatCaseLeaf id.group id.name)) (some message) line.toUInt32 0 0 := by
  unfold emit emitBinary emitAssertFail
  rfl

theorem emit_caseEnd (id : CaseId) (status : TestStatus) :
    emit .binary (.caseEnd id status) = emitMsg .caseEnd id.suite
      (some (formatCaseLeaf id.group id.name)) none (ptStatus status) 0 0 := by
  unfold emit emitBinary emitCaseEnd
  rfl

theorem emit_suiteEnd (name : Option CStr) (passed failed skipped : UInt32) :
    emit .binary (.suiteEnd name passed failed skipped) =
      emitMsg .suiteEnd name none none passed failed skipped := by
  unfold emit emitBinary emitSuiteEnd
  rfl

theorem emit_done (passed failed skipped : UInt32) :
    emit .binary (.done passed failed skipped) =
      emitMsg .done none none none passed failed skipped := by
  unfold emit emitBinary emitDone
  rfl

/-! ## Lines and leaves that fit -/

/-- A chain that starts with a literal and fits its buffer. -/
theorem build_bytes {cap : Nat} {s : CStr} {frags : List Frag}
    (hfit : (lineText (.str (some s) :: frags)).length < cap) :
    (build cap (.str (some s) :: frags)).cstr.bytes =
      lineText (.str (some s) :: frags) := by
  rw [(build_cstr (by omega) s frags).1, List.take_of_length_le (by omega)]

/-- `group.name`, without a limit. -/
def CaseId.leafBytes (id : CaseId) : List UInt8 :=
  (orUnknown id.group).bytes ++ 0x2E :: (orUnknown id.name).bytes

/-- The bytes of a leaf. -/
theorem formatCaseLeaf_take (id : CaseId) :
    (formatCaseLeaf id.group id.name).bytes = id.leafBytes.take 127 := by
  have hdot : (CStr.lit ".").bytes = [0x2E] := by decide
  have htext : lineText [nameFrag id.group, litFrag ".", nameFrag id.name] =
      id.leafBytes := by
    simp [lineText, nameFrag, litFrag, Frag.text, hdot, CaseId.leafBytes]
  rw [← htext]
  exact (build_cstr (show 0 < 128 by decide) _ _).1

theorem formatCaseLeaf_bytes {id : CaseId} (hfit : id.leafBytes.length ≤ 127) :
    (formatCaseLeaf id.group id.name).bytes = id.leafBytes := by
  rw [formatCaseLeaf_take, List.take_of_length_le hfit]

/-- The bytes of a line that fits. -/
theorem line_bytes {m : Msg} (hbanner : m ≠ .banner)
    (hfit : (lineText m.frags).length < m.cap) :
    m.line.bytes = lineText m.frags := by
  cases m with
  | banner => exact absurd rfl hbanner
  | suiteStart name => exact build_bytes hfit
  | caseStart id => exact build_bytes hfit
  | assertFail id file line message => exact build_bytes hfit
  | ignored id message => exact build_bytes hfit
  | caseEnd id status => exact build_bytes hfit
  | suiteEnd name passed failed skipped => exact build_bytes hfit
  | done passed failed skipped => exact build_bytes hfit

end PolyOnTest.Harness
