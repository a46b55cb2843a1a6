import PolyOnTest.CodeLib.Delimited
import PolyOnTest.CodeLib.Text
import PolyOnTest.Protocol

/-!
# The text codec of the host

`TextCodec` of `polyontest-builtins`: the reader that collects text until a line
feed ends a line, and the parser of one line.

A line without a known word in front is no event, and so is a line whose case
name has no dot.  `FAIL` stands for two events: with one word behind it the case
has ended, with more words an assertion has failed.
-/

namespace PolyOnTest.Builtins

open CodeLib

/-- `split_suite_case`. -/
def splitSuiteCase (s : Str) : Option (Str × Str) := Text.splitOnce '.' s

/-- The locals `passed`, `failed` and `skipped` of `parse_text_line`. -/
structure Counters where
  passed : UInt32
  failed : UInt32
  skipped : UInt32
  deriving DecidableEq, Repr

/-- `v.parse().unwrap_or(0)` for a `u32`. -/
def parseCounter (v : Str) : UInt32 :=
  UInt32.ofNat ((Text.parseUnsigned 4294967295 v).getD 0)

/-- The body of the loop over the words of a summary line. -/
def readCounter (n : Counters) (p : Str) : Counters :=
  match Text.stripPrefix "passed=".toList p with
  | some v => { n with passed := parseCounter v }
  | none =>
      match Text.stripPrefix "failed=".toList p with
      | some v => { n with failed := parseCounter v }
      | none =>
          match Text.stripPrefix "skipped=".toList p with
          | some v => { n with skipped := parseCounter v }
          | none => n

/-- The loop over the words of a summary line. -/
def readCounters (parts : List Str) : Counters := parts.foldl readCounter ⟨0, 0, 0⟩

/-- The branch of `parse_text_line` behind `SUITE_END`. -/
def parseSuiteEnd (rest : Str) : Option Event :=
  match Text.splitWhitespace rest with
  | [] => none
  | name :: parts =>
      let n := readCounters parts
      some (.suiteEnd name n.passed n.failed n.skipped)

/-- The branch of `parse_text_line` behind `DONE`. -/
def parseDone (rest : Str) : Event :=
  let n := readCounters (Text.splitWhitespace rest)
  .done n.passed n.failed n.skipped

/-- The branch of `parse_text_line` behind `FAIL`. -/
def parseFail (rest : Str) : Option Event :=
  match Text.splitn ' ' 3 rest with
  | [] => none
  | id :: tokens => do
      let (suite, name) ← splitSuiteCase id
      if tokens = [] then some (.caseEnd suite name .failed)
      else some (.assertFail suite name (tokens.getD 0 []) 0 (tokens.getD 1 []))

/-- `parse_text_line`. -/
def parseTextLine (line : Str) : Option Event :=
  if line = [] ∨ "===".toList.isPrefixOf line then none
  else
    match Text.stripPrefix "SUITE_START ".toList line with
    | some rest => some (.suiteStart rest)
    | none =>
    match Text.stripPrefix "CASE_START ".toList line with
    | some rest => (splitSuiteCase rest).map fun (suite, name) => .caseStart suite name
    | none =>
    match Text.stripPrefix "SUITE_END ".toList line with
    | some rest => parseSuiteEnd rest
    | none =>
    match Text.stripPrefix "DONE ".toList line with
    | some rest => some (parseDone rest)
    | none =>
    match Text.stripPrefix "PASS ".toList line with
    | some rest =>
        (splitSuiteCase rest).map fun (suite, name) => .caseEnd suite name .passed
    | none =>
    match Text.stripPrefix "SKIP ".toList line with
    | some rest =>
        (splitSuiteCase rest).map fun (suite, name) => .caseEnd suite name .skipped
    | none =>
    match Text.stripPrefix "FAIL ".toList line with
    | some rest => parseFail rest
    | none => none

/-- `TextCodec`. -/
structure TextCodec where
  buf : Str
  deriving DecidableEq, Repr

namespace TextCodec

/-- `TextCodec::new`. -/
def new : TextCodec := ⟨[]⟩

/-- The word of `encode` for a status. -/
def statusText : TestStatus → Str
  | .passed => "PASS".toList
  | .failed => "FAIL".toList
  | .skipped => "SKIP".toList

/-- The three counters of a line of `encode`. -/
def countersText (passed failed skipped : UInt32) : Str :=
  "passed=".toList ++ Nat.toDigits 10 passed.toNat ++ " failed=".toList ++
    Nat.toDigits 10 failed.toNat ++ " skipped=".toList ++ Nat.toDigits 10 skipped.toNat

/-- The line of `encode`, without the line feed. -/
def encodeLine : Event → Str
  | .suiteStart name => "SUITE_START ".toList ++ name
  | .caseStart suite name => "CASE_START ".toList ++ suite ++ ".".toList ++ name
  | .assertFail suite name file line message =>
      "FAIL ".toList ++ suite ++ ".".toList ++ name ++ " ".toList ++ file ++
        ":".toList ++ Nat.toDigits 10 line.toNat ++ " ".toList ++ message
  | .caseEnd suite name status =>
      statusText status ++ " ".toList ++ suite ++ ".".toList ++ name
  | .suiteEnd name passed failed skipped =>
      "SUITE_END ".toList ++ name ++ " ".toList ++ countersText passed failed skipped
  | .log message => "LOG ".toList ++ message
  | .done passed failed skipped =>
      "DONE ".toList ++ countersText passed failed skipped

/-- `TextCodec::encode`. -/
def encode (event : Event) : List UInt8 := Utf8.encode (encodeLine event ++ ['\n'])

/-- The body of the loop of `decode_feed`: the events of one line. -/
def decodeLine (line : Str) : Except PluginError (List Event) :=
  .ok (parseTextLine (Text.trimEnd (· = '\r') line)).toList

/-- `TextCodec::decode_feed`. -/
def decodeFeed (codec : TextCodec) (data : List UInt8) :
    TextCodec × Except PluginError (List Event) :=
  let (rest, result) :=
    Delimited.drain '\n' decodeLine [] (codec.buf ++ Utf8.lossy data) []
  (⟨rest⟩, result)

end TextCodec

/-! ## Lines of each kind -/

/-- A name in a line: a word without a dot. -/
structure IsName (s : Str) : Prop where
  nonempty : s ≠ []
  solid : Text.Solid s
  noDot : '.' ∉ s

instance (s : Str) : Decidable (IsName s) :=
  decidable_of_iff (s ≠ [] ∧ Text.Solid s ∧ '.' ∉ s)
    ⟨fun h => ⟨h.1, h.2.1, h.2.2⟩, fun h => ⟨h.nonempty, h.solid, h.noDot⟩⟩

/-- A word without a dot, or nothing. -/
structure IsStem (s : Str) : Prop where
  solid : Text.Solid s
  noDot : '.' ∉ s

theorem IsName.stem {s : Str} (h : IsName s) : IsStem s := ⟨h.solid, h.noDot⟩

theorem splitSuiteCase_name {suite : Str} (h : IsStem suite) (name : Str) :
    splitSuiteCase (suite ++ '.' :: name) = some (suite, name) :=
  Text.splitOnce_append h.noDot name

theorem parseTextLine_suiteStart (name : Str) :
    parseTextLine ("SUITE_START ".toList ++ name) = some (.suiteStart name) := by
  simp [parseTextLine, Text.stripPrefix]

theorem parseTextLine_caseStart (rest : Str) :
    parseTextLine ("CASE_START ".toList ++ rest) =
      (splitSuiteCase rest).map fun (suite, name) => .caseStart suite name := by
  simp [parseTextLine, Text.stripPrefix]

theorem parseTextLine_pass (rest : Str) :
    parseTextLine ("PASS ".toList ++ rest) =
      (splitSuiteCase rest).map fun (suite, name) => .caseEnd suite name .passed := by
  simp [parseTextLine, Text.stripPrefix]

theorem parseTextLine_skip (rest : Str) :
    parseTextLine ("SKIP ".toList ++ rest) =
      (splitSuiteCase rest).map fun (suite, name) => .caseEnd suite name .skipped := by
  simp [parseTextLine, Text.stripPrefix]

theorem parseTextLine_fail (rest : Str) :
    parseTextLine ("FAIL ".toList ++ rest) = parseFail rest := by
  simp [parseTextLine, Text.stripPrefix]

theorem parseTextLine_suiteEnd (rest : Str) :
    parseTextLine ("SUITE_END ".toList ++ rest) = parseSuiteEnd rest := by
  simp [parseTextLine, Text.stripPrefix]

theorem parseTextLine_done (rest : Str) :
    parseTextLine ("DONE ".toList ++ rest) = some (parseDone rest) := by
  simp [parseTextLine, Text.stripPrefix]

/-- A note is no event. -/
theorem parseTextLine_ignore (rest : Str) :
    parseTextLine ("IGNORE ".toList ++ rest) = none := by
  simp [parseTextLine, Text.stripPrefix]

/-- The host prints a log and does not read it back. -/
theorem parseTextLine_log (rest : Str) :
    parseTextLine ("LOG ".toList ++ rest) = none := by
  simp [parseTextLine, Text.stripPrefix]

theorem space_not_mem {s : Str} (h : Text.Solid s) : ' ' ∉ s := by
  intro hmem
  have hspace := h ' ' hmem
  exact absurd hspace (by decide)

theorem space_not_mem_id {suite name : Str} (hsuite : IsStem suite)
    (hname : Text.Solid name) : ' ' ∉ suite ++ '.' :: name := by
  intro hmem
  rcases List.mem_append.mp hmem with hmem | hmem
  · exact space_not_mem hsuite.solid hmem
  · rcases List.mem_cons.mp hmem with hdot | hmem
    · exact absurd hdot (by decide)
    · exact space_not_mem hname hmem

/-- `FAIL` with one word. -/
theorem parseFail_id {id : Str} (h : ' ' ∉ id) :
    parseFail id =
      (splitSuiteCase id).map fun (suite, name) => .caseEnd suite name .failed := by
  unfold parseFail
  rw [Text.splitn_none h]
  dsimp only
  cases splitSuiteCase id <;> rfl

/-- `FAIL` with a place and a message. -/
theorem parseFail_assert {suite name place : Str} (hsuite : IsStem suite)
    (hname : Text.Solid name) (hplace : ' ' ∉ place) (message : Str) :
    parseFail (suite ++ '.' :: name ++ ' ' :: (place ++ ' ' :: message)) =
      some (.assertFail suite name place 0 message) := by
  unfold parseFail
  rw [Text.splitn_append (space_not_mem_id hsuite hname), Text.splitn_append hplace]
  simp [Text.splitn, splitSuiteCase_name hsuite]

/-- `FAIL` with a place and nothing behind it. -/
theorem parseFail_place {suite name place : Str} (hsuite : IsStem suite)
    (hname : Text.Solid name) (hplace : ' ' ∉ place) :
    parseFail (suite ++ '.' :: name ++ ' ' :: place) =
      some (.assertFail suite name place 0 []) := by
  unfold parseFail
  rw [Text.splitn_append (space_not_mem_id hsuite hname), Text.splitn_none hplace]
  simp [splitSuiteCase_name hsuite]

/-- The words of a counter part. -/
def counterText (passed failed skipped : UInt32) : Str :=
  "passed=".toList ++ Nat.toDigits 10 passed.toNat ++ ' ' ::
    ("failed=".toList ++ Nat.toDigits 10 failed.toNat ++ ' ' ::
      ("skipped=".toList ++ Nat.toDigits 10 skipped.toNat))

theorem parseCounter_toDigits (v : UInt32) :
    parseCounter (Nat.toDigits 10 v.toNat) = v := by
  have hv := v.toNat_lt
  rw [parseCounter, Text.parseUnsigned_toDigits (by omega), Option.getD_some]
  exact UInt32.ofNat_toNat

theorem readCounters_text (passed failed skipped : UInt32) :
    readCounters (Text.splitWhitespace (counterText passed failed skipped)) =
      ⟨passed, failed, skipped⟩ := by
  have hsolid : ∀ (s : String) (n : Nat), Text.Solid s.toList →
      Text.Solid (s.toList ++ Nat.toDigits 10 n) := fun s n hs =>
    Text.solid_append hs (Text.solid_toDigits n)
  have hne : ∀ (s : String) (n : Nat), s.toList ++ Nat.toDigits 10 n ≠ [] := by
    intro s n h
    exact Nat.toDigits_ne_nil (List.append_eq_nil_iff.mp h).2
  have hpassed : Text.Solid "passed=".toList := by decide
  have hfailed : Text.Solid "failed=".toList := by decide
  have hskipped : Text.Solid "skipped=".toList := by decide
  unfold counterText
  rw [Text.splitWhitespace_append (hsolid _ _ hpassed) (hne _ _),
    Text.splitWhitespace_append (hsolid _ _ hfailed) (hne _ _),
    Text.splitWhitespace_solid (hsolid _ _ hskipped) (hne _ _)]
  have h1 : Text.stripPrefix "passed=".toList
      ("failed=".toList ++ Nat.toDigits 10 failed.toNat) = none := by
    simp [Text.stripPrefix]
  have h2 : Text.stripPrefix "passed=".toList
      ("skipped=".toList ++ Nat.toDigits 10 skipped.toNat) = none := by
    simp [Text.stripPrefix]
  have h3 : Text.stripPrefix "failed=".toList
      ("skipped=".toList ++ Nat.toDigits 10 skipped.toNat) = none := by
    simp [Text.stripPrefix]
  simp only [readCounters, List.foldl_cons, List.foldl_nil, readCounter,
    Text.stripPrefix_append, h1, h2, h3, parseCounter_toDigits]

theorem parseSuiteEnd_word {name : Str} (hsolid : Text.Solid name) (hne : name ≠ [])
    (passed failed skipped : UInt32) :
    parseSuiteEnd (name ++ ' ' :: counterText passed failed skipped) =
      some (.suiteEnd name passed failed skipped) := by
  unfold parseSuiteEnd
  rw [Text.splitWhitespace_append hsolid hne]
  simp only [readCounters_text]

theorem parseSuiteEnd_text {name : Str} (h : IsName name)
    (passed failed skipped : UInt32) :
    parseSuiteEnd (name ++ ' ' :: counterText passed failed skipped) =
      some (.suiteEnd name passed failed skipped) :=
  parseSuiteEnd_word h.solid h.nonempty passed failed skipped

theorem parseDone_text (passed failed skipped : UInt32) :
    parseDone (counterText passed failed skipped) = .done passed failed skipped := by
  unfold parseDone
  simp only [readCounters_text]

end PolyOnTest.Builtins
