import PolyOnTest.Builtins.TextCodec

/-!
# The text round trip

What the text codec reads from the lines that it writes.  Five kinds of events
come back.  An assertion comes back with its line number inside the file name,
and a log does not come back.

`decodeFeed_encode_iff` is the result.  Its two halves are `decodeFeed_encode`,
which reads the line of an event, and `decodeFeed_assertFail`, which needs no
more than the first line that the codec sees.
-/

namespace PolyOnTest.Builtins

open CodeLib

/-- A name that a line can carry. -/
structure IsWord (s : Str) : Prop where
  nonempty : s ≠ []
  solid : Text.Solid s

/-- A text without the characters that end a line. -/
def OneLine (s : Str) : Prop := ∀ c ∈ s, c ≠ '\n' ∧ c ≠ '\r'

/-- A file name that a line can carry. -/
structure IsFile (s : Str) : Prop where
  nonempty : s ≠ []
  noSpace : ' ' ∉ s
  noColon : ':' ∉ s

/-- The strings of an event are those that a line can carry. -/
def Printable : Event → Prop
  | .suiteStart name => IsWord name
  | .caseStart suite name => IsName suite ∧ IsWord name
  | .assertFail suite name file _ message =>
      IsName suite ∧ IsWord name ∧ IsFile file ∧ OneLine message
  | .caseEnd suite name _ => IsName suite ∧ IsWord name
  | .suiteEnd name _ _ _ => IsWord name
  | .log message => OneLine message
  | .done .. => True

/-- An event that is neither an assertion nor a log. -/
def readsBack : Event → Bool
  | .assertFail .. => false
  | .log _ => false
  | _ => true

/-! ## Texts without line ends -/

theorem OneLine.append {a b : Str} (ha : OneLine a) (hb : OneLine b) :
    OneLine (a ++ b) := by
  intro c hc
  rcases List.mem_append.mp hc with hc | hc
  · exact ha c hc
  · exact hb c hc

theorem oneLine_solid {s : Str} (h : Text.Solid s) : OneLine s := by
  intro c hc
  have hspace := h c hc
  constructor
  · rintro rfl
    exact absurd hspace (by decide)
  · rintro rfl
    exact absurd hspace (by decide)

theorem oneLine_toDigits (n : Nat) : OneLine (Nat.toDigits 10 n) :=
  oneLine_solid (Text.solid_toDigits n)

instance (s : Str) : Decidable (OneLine s) := List.decidableBAll _ s

theorem oneLine_countersText (passed failed skipped : UInt32) :
    OneLine (TextCodec.countersText passed failed skipped) := by
  have hpassed : OneLine "passed=".toList := by decide
  have hfailed : OneLine " failed=".toList := by decide
  have hskipped : OneLine " skipped=".toList := by decide
  unfold TextCodec.countersText
  exact ((((hpassed.append (oneLine_toDigits _)).append hfailed).append
    (oneLine_toDigits _)).append hskipped).append (oneLine_toDigits _)

theorem OneLine.feed_not_mem {s : Str} (h : OneLine s) : '\n' ∉ s :=
  fun hmem => (h _ hmem).1 rfl

theorem OneLine.trimEnd {s : Str} (h : OneLine s) : Text.trimEnd (· = '\r') s = s :=
  Text.trimEnd_of_not fun c hc => decide_eq_false (h c hc).2

/-! ## Reading a line -/

/-- The codec has an answer for every text. -/
theorem drain_decodeLine (buf input : Str) (out : List Event) :
    ∃ rest more, Delimited.drain '\n' TextCodec.decodeLine buf input out =
      (rest, .ok (out ++ more)) := by
  induction input generalizing buf out with
  | nil => exact ⟨buf, [], by simp⟩
  | cons c input ih =>
      by_cases hc : c = '\n'
      · subst hc
        obtain ⟨rest, more, hrest⟩ :=
          ih [] (out ++ (parseTextLine (Text.trimEnd (· = '\r') buf)).toList)
        rw [List.append_assoc] at hrest
        rw [Delimited.drain_cons_delim, TextCodec.decodeLine]
        exact ⟨rest, _, hrest⟩
      · rw [Delimited.drain_cons_ne '\n' TextCodec.decodeLine hc]
        exact ih _ out

/-- The events of the first line come first. -/
theorem decodeFeed_split {data : List UInt8} {line rest : Str} (hline : '\n' ∉ line)
    (hdata : Utf8.lossy data = line ++ '\n' :: rest) :
    ∃ more, (TextCodec.decodeFeed .new data).2 =
        .ok ((parseTextLine (Text.trimEnd (· = '\r') line)).toList ++ more) ∧
      (rest = [] → more = []) := by
  have hframe := Delimited.drain_frame '\n' TextCodec.decodeLine hline rest []
  obtain ⟨left, more, hmore⟩ := drain_decodeLine [] rest
    ([] ++ (parseTextLine (Text.trimEnd (· = '\r') line)).toList)
  refine ⟨more, ?_, ?_⟩
  · unfold TextCodec.decodeFeed TextCodec.new
    dsimp only
    rw [List.nil_append, hdata, hframe, TextCodec.decodeLine]
    dsimp only
    rw [hmore, List.nil_append]
  · intro hnil
    subst hnil
    have hnone : left = [] ∧ more = [] := by simpa using hmore
    exact hnone.2

theorem decodeFeed_first {line : Str} (h : '\n' ∉ line) (rest : Str) :
    ∃ more, (TextCodec.decodeFeed .new (Utf8.encode (line ++ '\n' :: rest))).2 =
        .ok ((parseTextLine (Text.trimEnd (· = '\r') line)).toList ++ more) ∧
      (rest = [] → more = []) :=
  decodeFeed_split h (Utf8.lossy_encode _)

/-- The codec reads a line of its own. -/
theorem decodeFeed_encodeLine {e : Event} (h : OneLine (TextCodec.encodeLine e)) :
    (TextCodec.decodeFeed .new (TextCodec.encode e)).2 =
      .ok (parseTextLine (TextCodec.encodeLine e)).toList := by
  obtain ⟨more, hmore, hnone⟩ := decodeFeed_first h.feed_not_mem []
  rw [hnone rfl, List.append_nil, h.trimEnd] at hmore
  exact hmore

theorem countersText_eq (passed failed skipped : UInt32) :
    TextCodec.countersText passed failed skipped = counterText passed failed skipped := by
  have hfailed : " failed=".toList = ' ' :: "failed=".toList := by decide
  have hskipped : " skipped=".toList = ' ' :: "skipped=".toList := by decide
  unfold TextCodec.countersText counterText
  rw [hfailed, hskipped]
  simp only [List.append_assoc, List.cons_append]

theorem oneLine_dot : OneLine ".".toList := by decide

theorem oneLine_space : OneLine " ".toList := by decide

/-- The line of an event that the codec reads back has no line end inside. -/
theorem oneLine_encodeLine {e : Event} (h : Printable e) (hkind : readsBack e = true) :
    OneLine (TextCodec.encodeLine e) := by
  have hword : ∀ {s}, IsWord s → OneLine s := fun h => oneLine_solid h.solid
  have hname : ∀ {s}, IsName s → OneLine s := fun h => oneLine_solid h.solid
  cases e with
  | suiteStart name =>
    have hkey : OneLine "SUITE_START ".toList := by decide
    exact hkey.append (hword h)
  | caseStart suite name =>
    have hkey : OneLine "CASE_START ".toList := by decide
    exact ((hkey.append (hname h.1)).append oneLine_dot).append (hword h.2)
  | assertFail suite name file line message => cases hkind
  | caseEnd suite name status =>
    have hkey : OneLine (TextCodec.statusText status) := by cases status <;> decide
    exact (((hkey.append oneLine_space).append (hname h.1)).append oneLine_dot).append
      (hword h.2)
  | suiteEnd name passed failed skipped =>
    have hkey : OneLine "SUITE_END ".toList := by decide
    exact ((hkey.append (hword h)).append oneLine_space).append
      (oneLine_countersText _ _ _)
  | log message => cases hkind
  | done passed failed skipped =>
    have hkey : OneLine "DONE ".toList := by decide
    exact hkey.append (oneLine_countersText _ _ _)

theorem parseTextLine_encodeLine {e : Event} (h : Printable e) (hkind : readsBack e = true) :
    parseTextLine (TextCodec.encodeLine e) = some e := by
  have hdot : ∀ s : Str, ".".toList ++ s = '.' :: s := fun _ => rfl
  have hspace : ∀ s : Str, " ".toList ++ s = ' ' :: s := fun _ => rfl
  unfold TextCodec.encodeLine
  simp only [List.append_assoc, hdot, hspace]
  cases e with
  | suiteStart name => exact parseTextLine_suiteStart name
  | caseStart suite name =>
    dsimp only
    rw [parseTextLine_caseStart, splitSuiteCase_name h.1.stem]
    rfl
  | assertFail suite name file line message => cases hkind
  | caseEnd suite name status =>
    have hsplit := splitSuiteCase_name h.1.stem name
    cases status with
    | passed =>
      have hpass := parseTextLine_pass (suite ++ '.' :: name)
      rw [hsplit] at hpass
      exact hpass
    | skipped =>
      have hskip := parseTextLine_skip (suite ++ '.' :: name)
      rw [hsplit] at hskip
      exact hskip
    | failed =>
      have hfail := parseTextLine_fail (suite ++ '.' :: name)
      rw [parseFail_id (space_not_mem_id h.1.stem h.2.solid), hsplit] at hfail
      exact hfail
  | suiteEnd name passed failed skipped =>
    dsimp only
    rw [countersText_eq, parseTextLine_suiteEnd, parseSuiteEnd_word h.solid h.nonempty]
  | log message => cases hkind
  | done passed failed skipped =>
    dsimp only
    rw [countersText_eq, parseTextLine_done, parseDone_text]

/-- Five kinds of events come back. -/
theorem decodeFeed_encode {e : Event} (h : Printable e) (hkind : readsBack e = true) :
    (TextCodec.decodeFeed .new (TextCodec.encode e)).2 = .ok [e] := by
  rw [decodeFeed_encodeLine (oneLine_encodeLine h hkind), parseTextLine_encodeLine h hkind]
  rfl

/-! ## Reading an assertion -/

/-- The line of an assertion, cut behind the name. -/
theorem encodeLine_assertFail (suite name file : Str) (line : UInt32) (message : Str) :
    TextCodec.encodeLine (.assertFail suite name file line message) =
      "FAIL ".toList ++ (suite ++ '.' :: name) ++ ' ' ::
        (file ++ ':' :: Nat.toDigits 10 line.toNat ++ ' ' :: message) := by
  have hdot : ∀ s : Str, ".".toList ++ s = '.' :: s := fun _ => rfl
  have hcolon : ∀ s : Str, ":".toList ++ s = ':' :: s := fun _ => rfl
  have hspace : ∀ s : Str, " ".toList ++ s = ' ' :: s := fun _ => rfl
  unfold TextCodec.encodeLine
  generalize "FAIL ".toList = key
  simp only [List.append_assoc, hdot, hcolon, hspace, List.cons_append]

theorem parseTextLine_failPlace {suite name place : Str} (hsuite : IsStem suite)
    (hname : Text.Solid name) (hplace : ' ' ∉ place) :
    parseTextLine ("FAIL ".toList ++ (suite ++ '.' :: name) ++ ' ' :: place) =
      some (.assertFail suite name place 0 []) := by
  rw [List.append_assoc, parseTextLine_fail, parseFail_place hsuite hname hplace]

theorem parseTextLine_failMessage {suite name place : Str} (hsuite : IsStem suite)
    (hname : Text.Solid name) (hplace : ' ' ∉ place) (message : Str) :
    parseTextLine ("FAIL ".toList ++ (suite ++ '.' :: name) ++ ' ' ::
        (place ++ ' ' :: message)) =
      some (.assertFail suite name place 0 message) := by
  rw [List.append_assoc, parseTextLine_fail, parseFail_assert hsuite hname hplace]

/-- A line of a failing assertion may end behind the name of the case. -/
theorem parseTextLine_trimPlace {suite name rest : Str} (hsuite : IsStem suite)
    (hname : Text.Solid name) (hrest : ' ' ∉ rest) :
    parseTextLine (Text.trimEnd (· = '\r')
        ("FAIL ".toList ++ (suite ++ '.' :: name) ++ ' ' :: rest)) =
      some (.assertFail suite name (Text.trimEnd (· = '\r') rest) 0 []) := by
  have htrim : ' ' ∉ Text.trimEnd (· = '\r') rest := fun hmem =>
    hrest ((Text.trimEnd_sublist _ rest).subset hmem)
  rw [Text.trimEnd_append_cons (by decide), parseTextLine_failPlace hsuite hname htrim]

/-- The first space behind the name ends the place. -/
theorem parseTextLine_trimMessage {suite name place : Str} (hsuite : IsStem suite)
    (hname : Text.Solid name) (hplace : ' ' ∉ place) (message : Str) :
    parseTextLine (Text.trimEnd (· = '\r')
        ("FAIL ".toList ++ (suite ++ '.' :: name) ++ ' ' :: (place ++ ' ' :: message))) =
      some (.assertFail suite name place 0 (Text.trimEnd (· = '\r') message)) := by
  rw [← List.cons_append, ← List.append_assoc, Text.trimEnd_append_cons (by decide),
    List.append_assoc, List.cons_append, parseTextLine_failMessage hsuite hname hplace]

section AssertFail

variable {suite name file message : Str}

/-- The file name and the number make one word. -/
theorem space_not_mem_place (hfile : ' ' ∉ file) (line : UInt32) :
    ' ' ∉ file ++ ':' :: Nat.toDigits 10 line.toNat := by
  have hdigits := space_not_mem (Text.solid_toDigits line.toNat)
  simp [hfile, hdigits]

theorem feed_not_mem_id (hsuite : IsStem suite) (hname : Text.Solid name) :
    '\n' ∉ "FAIL ".toList ++ (suite ++ '.' :: name) := by
  have hkey : '\n' ∉ "FAIL ".toList := by decide
  have hs := (oneLine_solid hsuite.solid).feed_not_mem
  have hn := (oneLine_solid hname).feed_not_mem
  simp only [List.mem_append, List.mem_cons, not_or]
  exact ⟨hkey, hs, by decide, hn⟩

/-- An assertion comes back with its line number inside the file name. -/
theorem decodeFeed_encode_assertFail (hsuite : IsName suite) (hname : IsWord name)
    (hfile : ' ' ∉ file) (hfeed : '\n' ∉ file) (line : UInt32) (hmessage : OneLine message) :
    (TextCodec.decodeFeed .new
        (TextCodec.encode (.assertFail suite name file line message))).2 =
      .ok [.assertFail suite name (file ++ ':' :: Nat.toDigits 10 line.toNat) 0 message] := by
  have hfree : '\n' ∉ TextCodec.encodeLine (.assertFail suite name file line message) := by
    have hdigits := (oneLine_toDigits line.toNat).feed_not_mem
    rw [encodeLine_assertFail]
    simp only [List.mem_append, List.mem_cons, not_or]
    have hid := feed_not_mem_id hsuite.stem hname.solid
    simp only [List.mem_append, List.mem_cons, not_or] at hid
    exact ⟨hid, by decide, ⟨hfeed, by decide, hdigits⟩, by decide, hmessage.feed_not_mem⟩
  have hparse := parseTextLine_trimMessage hsuite.stem hname.solid
    (space_not_mem_place hfile line) message
  obtain ⟨more, hmore, hnone⟩ := decodeFeed_first hfree []
  rw [hnone rfl, List.append_nil, encodeLine_assertFail, hparse, hmessage.trimEnd] at hmore
  rw [TextCodec.encode, encodeLine_assertFail]
  exact hmore

/-- A line feed in the file name cuts the line of an assertion. -/
theorem decodeFeed_encode_cutFile {front back : Str} (hsuite : IsName suite)
    (hname : IsWord name) (hfront : ' ' ∉ front) (hfeed : '\n' ∉ front) (line : UInt32)
    (message : Str) :
    ∃ place more, place.length ≤ front.length ∧
      (TextCodec.decodeFeed .new
        (TextCodec.encode (.assertFail suite name (front ++ '\n' :: back) line message))).2 =
      .ok (.assertFail suite name place 0 [] :: more) := by
  have hline : TextCodec.encodeLine (.assertFail suite name (front ++ '\n' :: back) line
      message) ++ ['\n'] = ("FAIL ".toList ++ (suite ++ '.' :: name) ++ ' ' :: front) ++ '\n' ::
        (back ++ ':' :: Nat.toDigits 10 line.toNat ++ ' ' :: message ++ ['\n']) := by
    rw [encodeLine_assertFail]
    simp only [List.append_assoc, List.cons_append]
  have hfree : '\n' ∉ "FAIL ".toList ++ (suite ++ '.' :: name) ++ ' ' :: front := by
    rw [List.mem_append, not_or]
    exact ⟨feed_not_mem_id hsuite.stem hname.solid, by simpa using hfeed⟩
  obtain ⟨more, hmore, -⟩ := decodeFeed_first hfree
    (back ++ ':' :: Nat.toDigits 10 line.toNat ++ ' ' :: message ++ ['\n'])
  rw [parseTextLine_trimPlace hsuite.stem hname.solid hfront] at hmore
  refine ⟨Text.trimEnd (· = '\r') front, more, (Text.trimEnd_sublist _ front).length_le, ?_⟩
  unfold TextCodec.encode
  rw [hline]
  exact hmore

/-- No assertion comes back. -/
theorem decodeFeed_encode_assertFail_ne (hsuite : IsName suite) (hname : IsWord name)
    (hfile : IsFile file) (line : UInt32) (hmessage : OneLine message) :
    (TextCodec.decodeFeed .new
        (TextCodec.encode (.assertFail suite name file line message))).2 ≠
      .ok [.assertFail suite name file line message] := by
  intro hback
  by_cases hfeed : '\n' ∈ file
  · obtain ⟨front, back, rfl, hfront⟩ := List.eq_append_cons_of_mem hfeed
    have hspace : ' ' ∉ front := fun hmem => hfile.noSpace (by simp [hmem])
    obtain ⟨place, more, hlen, hcut⟩ :=
      @decodeFeed_encode_cutFile suite name front back hsuite hname hspace hfront line message
    rw [hback] at hcut
    injection hcut with hcut
    injection (List.cons.inj hcut).1 with _ _ hplace
    rw [← hplace, List.length_append, List.length_cons] at hlen
    omega
  · rw [decodeFeed_encode_assertFail hsuite hname hfile.noSpace hfeed line hmessage] at hback
    injection hback with hback
    injection (List.cons.inj hback).1 with _ _ hplace
    have hlen := congrArg List.length hplace
    rw [List.length_append, List.length_cons] at hlen
    omega

end AssertFail

/-- No log comes back. -/
theorem decodeFeed_encode_log {message : Str} (h : OneLine message) :
    (TextCodec.decodeFeed .new (TextCodec.encode (.log message))).2 = .ok [] := by
  have hkey : OneLine "LOG ".toList := by decide
  have hline : OneLine (TextCodec.encodeLine (.log message)) := hkey.append h
  have hparse : parseTextLine (TextCodec.encodeLine (.log message)) = none := by
    unfold TextCodec.encodeLine
    exact parseTextLine_log message
  rw [decodeFeed_encodeLine hline, hparse]
  rfl

/-- An event comes back from its line exactly when it is neither an assertion nor a
log. -/
theorem decodeFeed_encode_iff {e : Event} (h : Printable e) :
    (TextCodec.decodeFeed .new (TextCodec.encode e)).2 = .ok [e] ↔ readsBack e = true := by
  constructor
  · intro hback
    cases e with
    | assertFail suite name file line message =>
      obtain ⟨hsuite, hname, hfile, hmessage⟩ := h
      exact absurd hback (decodeFeed_encode_assertFail_ne hsuite hname hfile line hmessage)
    | log message =>
      rw [decodeFeed_encode_log h] at hback
      cases hback
    | _ => rfl
  · exact decodeFeed_encode h

/-- A case that was skipped. -/
theorem decodeFeed_encode_iff_skip :
    (TextCodec.decodeFeed .new
        (TextCodec.encode (.caseEnd ['M', 'a', 't', 'h'] ['a', '.', 'b'] .skipped))).2 =
      .ok [.caseEnd ['M', 'a', 't', 'h'] ['a', '.', 'b'] .skipped] :=
  (@decodeFeed_encode_iff (.caseEnd ['M', 'a', 't', 'h'] ['a', '.', 'b'] .skipped)
    ⟨by decide, by decide, by decide⟩).mpr rfl

/-- A failed assertion in line 12 of `a.c`. -/
def failedInFile : Event :=
  .assertFail ['M', 'a', 't', 'h'] ['s', 'u', 'm'] ['a', '.', 'c'] 12 ['n', 'o']

/-- The line number comes back as a part of the file name. -/
theorem failedInFile_readBack :
    Printable failedInFile ∧
      (TextCodec.decodeFeed .new (TextCodec.encode failedInFile)).2 =
        .ok [.assertFail ['M', 'a', 't', 'h'] ['s', 'u', 'm'] ['a', '.', 'c', ':', '1', '2']
          0 ['n', 'o']] := by
  refine ⟨⟨by decide, ⟨by decide, by decide⟩, ⟨by decide, by decide, by decide⟩, by decide⟩, ?_⟩
  decide +kernel

end PolyOnTest.Builtins
