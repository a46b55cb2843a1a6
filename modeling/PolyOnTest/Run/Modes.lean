import PolyOnTest.Run.Story
import PolyOnTest.Wire.Messages

/-!
# The two outputs tell the same story

A line of the text output parses to the event of its message, up to the file and
the line number of a failing assertion: the text decoder keeps `file:line` in one
piece, and the binary format has no file name.

The argument goes fragment by fragment.  A plain fragment has only bytes that
may stand in a message, so its text is ASCII and has no end of line; every
fragment of a clean message is plain but the path.  `lineEvents_eq` is the result
for one message and `modes_agree` for a run.
-/

namespace PolyOnTest.Run

open CodeLib CodeLib.CMemory PolyOnTest.Builtins PolyOnTest.Harness PolyOnTest.Wire

variable {ω : Type}

/-- An event without the file and the line number. -/
def eraseFile : Event → Event
  | .assertFail suite name _ _ message => .assertFail suite name [] 0 message
  | e => e

/-! ## Plain fragments -/

/-- A fragment with a text that may stand in a message. -/
def Plain (f : Frag) : Prop := ∀ b ∈ f.text, messageByte b

instance (f : Frag) : Decidable (Plain f) :=
  List.decidableBAll _ f.text

theorem messageByte_ascii {b : UInt8} (h : messageByte b = true) : b.toNat < 0x80 := by
  simp only [messageByte, Bool.and_eq_true, decide_eq_true_eq] at h
  exact h.1.1

theorem plain_name {name : Option CStr} (h : PlainName name) : Plain (nameFrag name) := by
  obtain ⟨x, rfl, hbytes⟩ := h
  exact fun b hb => messageByte_of_nameByte (hbytes b hb)

theorem plain_str {name : Option CStr} (h : PlainName name) : Plain (.str name) := by
  obtain ⟨x, rfl, hbytes⟩ := h
  exact fun b hb => messageByte_of_nameByte (hbytes b hb)

theorem plain_message {message : CStr} (h : CleanMessage message) :
    Plain (.str (some message)) := h

theorem plain_u32 (v : UInt32) : Plain (.u32 v) := fun _ hb => messageByte_numeral hb

theorem plain_i32 (v : Int32) : Plain (.i32 v) := by
  intro b hb
  change b ∈ intText v.toInt at hb
  unfold intText at hb
  split_ifs at hb
  · rcases List.mem_cons.mp hb with rfl | hb
    · decide
    · exact messageByte_numeral hb
  · exact messageByte_numeral hb

theorem plain_counters (passed failed skipped : UInt32) :
    ∀ f ∈ counterFrags passed failed skipped, Plain f := by
  simp only [counterFrags, List.forall_mem_cons]
  exact ⟨plain_u32 _, by decide, plain_u32 _, by decide, plain_u32 _,
    fun _ hf => (List.not_mem_nil hf).elim⟩

theorem plain_caseId {id : CaseId} (h : PlainId id) :
    ∀ f ∈ caseIdFrags id, Plain f := by
  simp only [caseIdFrags, List.forall_mem_cons]
  exact ⟨plain_name h.suite, by decide, plain_name h.group, by decide,
    plain_name h.name, fun _ hf => (List.not_mem_nil hf).elim⟩

theorem messageByte_line {frags : List Frag} (h : ∀ f ∈ frags, Plain f) {b : UInt8}
    (hb : b ∈ lineText frags) : messageByte b = true := by
  obtain ⟨f, hf, hmem⟩ := List.mem_flatMap.mp hb
  exact h f hf b hmem

/-- The host's text of a chain. -/
def hostLine (frags : List Frag) : Str := frags.flatMap fun f => Utf8.lossy f.text

/-- Plain fragments in front are read one by one. -/
theorem lossy_plain {frags : List Frag} (h : ∀ f ∈ frags, Plain f) (rest : List UInt8) :
    Utf8.lossy (lineText frags ++ rest) = hostLine frags ++ Utf8.lossy rest := by
  induction frags with
  | nil => rfl
  | cons f frags ih =>
      have hascii : Utf8.IsAscii f.text := fun b hb =>
        messageByte_ascii (h f (by simp) b hb)
      have hsplit : lineText (f :: frags) ++ rest = f.text ++ (lineText frags ++ rest) := by
        simp [lineText]
      rw [hsplit, Utf8.lossy_ascii_append hascii, ← Utf8.lossy_ascii hascii,
        ih fun f' hf' => h f' (by simp [hf'])]
      simp [hostLine]

theorem lossy_line {frags : List Frag} (h : ∀ f ∈ frags, Plain f) :
    Utf8.lossy (lineText frags) = hostLine frags := by
  have hline := lossy_plain h []
  simpa using hline

/-- A plain text has no end of line. -/
theorem end_not_mem {frags : List Frag} (h : ∀ f ∈ frags, Plain f) :
    '\r' ∉ hostLine frags := by
  rw [← lossy_line h]
  refine Utf8.not_mem_lossy_ascii (b := 0x0D) (by decide) fun hb => ?_
  exact absurd (messageByte_line h hb) (by decide)

/-! ## Texts of fragments -/

theorem lossy_lit {s : String} (h : '\x00' ∉ s.toList) :
    Utf8.lossy (litFrag s).text = s.toList := by
  show Utf8.lossy (CStr.lit s).bytes = s.toList
  rw [CStr.lit, CStr.ofBytes_bytes (Utf8.zero_not_mem_encode h), Utf8.lossy_encode]

theorem lossy_name {name : Option CStr} (h : PlainName name) :
    Utf8.lossy (nameFrag name).text = nameText name := by
  obtain ⟨x, rfl, -⟩ := h
  rfl

theorem lossy_u32 (v : UInt32) :
    Utf8.lossy (Frag.u32 v).text = Nat.toDigits 10 v.toNat := by
  show Utf8.lossy (Decimal.numeral v.toNat) = _
  rw [Utf8.lossy_ascii (Decimal.numeral_ascii _), Decimal.numeral_text]

theorem isWhitespace_nameByte {b : UInt8} (h : nameByte b = true) :
    Text.isWhitespace (Utf8.asciiChar b) = false ∧ Utf8.asciiChar b ≠ '.' := by
  have hascii := messageByte_ascii (messageByte_of_nameByte h)
  have hnat := Utf8.asciiChar_toNat hascii
  simp only [nameByte, Bool.and_eq_true, bne_iff_ne, ne_eq, Bool.not_eq_true',
    Bool.and_eq_false_iff, decide_eq_true_eq, decide_eq_false_iff_not] at h
  obtain ⟨⟨⟨-, hdot⟩, hspace⟩, hrange⟩ := h
  have hspace' : b.toNat ≠ 0x20 := fun h20 => hspace (UInt8.toNat_inj.mp h20)
  constructor
  · simp only [Text.isWhitespace, hnat, Bool.or_eq_false_iff, Bool.and_eq_false_iff,
      decide_eq_false_iff_not, beq_eq_false_iff_ne]
    omega
  · intro heq
    have hval : b.toNat = 0x2E := by rw [← hnat, heq]; rfl
    exact hdot (UInt8.toNat_inj.mp hval)

theorem nameText_eq {name : Option CStr} (h : PlainName name) :
    nameText name = (bytesOf name).map Utf8.asciiChar := by
  obtain ⟨x, rfl, hbytes⟩ := h
  exact Utf8.lossy_ascii fun b hb =>
    messageByte_ascii (messageByte_of_nameByte (hbytes b hb))

theorem isStem_nameText {name : Option CStr} (h : PlainName name) :
    IsStem (nameText name) := by
  have htext := nameText_eq h
  obtain ⟨x, rfl, hbytes⟩ := h
  rw [htext]
  constructor
  · intro c hc
    obtain ⟨b, hb, rfl⟩ := List.mem_map.mp hc
    exact (isWhitespace_nameByte (hbytes b hb)).1
  · intro hdot
    obtain ⟨b, hb, heq⟩ := List.mem_map.mp hdot
    exact (isWhitespace_nameByte (hbytes b hb)).2 heq

/-- A clean name is a word without a dot. -/
theorem isName_nameText {name : Option CStr} (h : CleanName name) :
    IsName (nameText name) := by
  have hstem := isStem_nameText h.plain
  have htext := nameText_eq h.plain
  obtain ⟨x, rfl, hne, -⟩ := h
  refine ⟨?_, hstem.solid, hstem.noDot⟩
  rw [htext]
  simpa [bytesOf] using hne

/-- A leaf is the two names with a dot between them. -/
theorem leafText_eq {id : CaseId} (h : PlainId id) :
    leafText id = nameText id.group ++ '.' :: nameText id.name := by
  obtain ⟨x, hx, -⟩ := h.group
  obtain ⟨y, hy, -⟩ := h.name
  rw [leafText, CaseId.leafBytes, hx, hy]
  exact Utf8.lossy_append_ascii _ _ (by decide)

theorem solid_leafText {id : CaseId} (h : PlainId id) : Text.Solid (leafText id) := by
  have hdot : Text.Solid ['.'] := by decide
  have hrest : Text.Solid ('.' :: nameText id.name) :=
    Text.solid_append hdot (isStem_nameText h.name).solid
  rw [leafText_eq h]
  exact Text.solid_append (isStem_nameText h.group).solid hrest

theorem hostLine_caseId {id : CaseId} (h : PlainId id) :
    hostLine (caseIdFrags id) = nameText id.suite ++ '.' :: leafText id := by
  have hdot : Utf8.lossy (litFrag ".").text = ".".toList := lossy_lit (by simp)
  simp [hostLine, caseIdFrags, lossy_name h.suite, lossy_name h.group,
    lossy_name h.name, hdot, leafText_eq h]

theorem hostLine_counters (passed failed skipped : UInt32) :
    "passed=".toList ++ hostLine (counterFrags passed failed skipped) =
      counterText passed failed skipped := by
  have hfailed : Utf8.lossy (litFrag " failed=").text = ' ' :: "failed=".toList :=
    (lossy_lit (by simp)).trans (by simp)
  have hskipped : Utf8.lossy (litFrag " skipped=").text = ' ' :: "skipped=".toList :=
    (lossy_lit (by simp)).trans (by simp)
  unfold hostLine counterFrags counterText
  simp only [List.flatMap_cons, List.flatMap_nil, List.append_nil, hfailed, hskipped]
  rw [lossy_u32, lossy_u32, lossy_u32]
  simp only [List.append_assoc, List.cons_append]

/-! ## One message -/

/-- Whether a message has a path. -/
def hasPath : Msg → Bool
  | .assertFail .. => true
  | _ => false

theorem plain_frags {m : Msg} (h : CleanMsg m) (hpath : hasPath m = false) :
    ∀ f ∈ m.frags, Plain f := by
  have hnil : ∀ f ∈ ([] : List Frag), Plain f := fun _ hf => (List.not_mem_nil hf).elim
  cases m with
  | banner => exact hnil
  | suiteStart name =>
    simp only [Msg.frags, List.forall_mem_cons]
    exact ⟨by decide, plain_str h.plain, hnil⟩
  | caseStart id =>
    simp only [Msg.frags, List.forall_mem_cons]
    exact ⟨by decide, plain_caseId h.plain⟩
  | assertFail id file line message => cases hpath
  | ignored id message =>
    simp only [Msg.frags, List.forall_mem_cons, List.cons_append, List.forall_mem_append]
    exact ⟨by decide, plain_caseId h.1.plain, by decide, plain_message h.2, hnil⟩
  | caseEnd id status =>
    simp only [Msg.frags, List.forall_mem_cons]
    exact ⟨by cases status <;> decide, by decide, plain_caseId h.plain⟩
  | suiteEnd name passed failed skipped =>
    simp only [Msg.frags, List.forall_mem_cons]
    exact ⟨by decide, plain_str h.plain, by decide, plain_counters _ _ _⟩
  | done passed failed skipped =>
    simp only [Msg.frags, List.forall_mem_cons]
    exact ⟨by decide, plain_counters _ _ _⟩

/-- The line of a message without a path parses as its text. -/
theorem lineEvents_plain {m : Msg} (hbanner : m ≠ .banner) (hfits : Fits m)
    (h : CleanMsg m) (hpath : hasPath m = false) :
    lineEvents m = (parseTextLine (hostLine m.frags)).toList := by
  have hplain := plain_frags h hpath
  have htrim : Text.trimEnd (fun c => decide (c = '\r')) (hostLine m.frags) =
      hostLine m.frags := Text.trimEnd_of_not fun c hc =>
    decide_eq_false fun heq => end_not_mem hplain (heq ▸ hc)
  rw [lineEvents, line_bytes hbanner (hfits.line hbanner), lossy_line hplain, htrim]

theorem hostLine_cons (s : String) (h : '\x00' ∉ s.toList) (frags : List Frag) :
    hostLine (litFrag s :: frags) = s.toList ++ hostLine frags := by
  rw [hostLine, List.flatMap_cons, lossy_lit h]
  rfl

theorem lineEvents_suiteStart {name : Option CStr} (h : CleanName name)
    (hfits : Fits (.suiteStart name)) :
    lineEvents (.suiteStart name) = [.suiteStart (nameText name)] := by
  have hname : hostLine [.str name] = nameText name := by
    obtain ⟨x, rfl, -, -⟩ := h
    exact List.append_nil _
  rw [lineEvents_plain (by simp) hfits h rfl, Msg.frags, hostLine_cons _ (by simp),
    hname, parseTextLine_suiteStart]
  rfl

theorem lineEvents_caseStart {id : CaseId} (h : CleanId id)
    (hfits : Fits (.caseStart id)) :
    lineEvents (.caseStart id) = [.caseStart (nameText id.suite) (leafText id)] := by
  rw [lineEvents_plain (by simp) hfits h rfl, Msg.frags, hostLine_cons _ (by simp),
    hostLine_caseId h.plain, parseTextLine_caseStart,
    splitSuiteCase_name (isStem_nameText h.suite.plain)]
  rfl

/-- A line with a status word and one word is the end of a case. -/
theorem parseTextLine_status (status : TestStatus) {id : Str} (h : ' ' ∉ id) :
    parseTextLine ((statusWord status).toList ++ ' ' :: id) =
      (splitSuiteCase id).map fun (suite, name) => .caseEnd suite name status := by
  cases status with
  | passed =>
    have hpass := parseTextLine_pass id
    simpa [statusWord] using hpass
  | failed =>
    have hfail := parseTextLine_fail id
    rw [parseFail_id h] at hfail
    simpa [statusWord] using hfail
  | skipped =>
    have hskip := parseTextLine_skip id
    simpa [statusWord] using hskip

theorem lineEvents_caseEnd {id : CaseId} (status : TestStatus) (h : CleanId id)
    (hfits : Fits (.caseEnd id status)) :
    lineEvents (.caseEnd id status) =
      [.caseEnd (nameText id.suite) (leafText id) status] := by
  have hsuite := isStem_nameText h.suite.plain
  have hline : hostLine (Msg.caseEnd id status).frags =
      (statusWord status).toList ++ ' ' :: (nameText id.suite ++ '.' :: leafText id) := by
    rw [Msg.frags, hostLine_cons _ (by cases status <;> simp [statusWord]),
      hostLine_cons _ (by simp), hostLine_caseId h.plain]
    simp
  rw [lineEvents_plain (by simp) hfits h rfl, hline, parseTextLine_status status
    (space_not_mem_id hsuite (solid_leafText h.plain)), splitSuiteCase_name hsuite]
  rfl

theorem lineEvents_suiteEnd {name : Option CStr} (passed failed skipped : UInt32)
    (h : CleanName name) (hfits : Fits (.suiteEnd name passed failed skipped)) :
    lineEvents (.suiteEnd name passed failed skipped) =
      [.suiteEnd (nameText name) passed failed skipped] := by
  have hline : hostLine (.str name :: litFrag " passed=" ::
      counterFrags passed failed skipped) =
        nameText name ++ ' ' :: counterText passed failed skipped := by
    obtain ⟨x, rfl, -, -⟩ := h
    have hname : Utf8.lossy (Frag.str (some x)).text = nameText (some x) := rfl
    rw [hostLine, List.flatMap_cons, hname, ← hostLine_counters]
    show _ ++ hostLine (litFrag " passed=" :: _) = _
    rw [hostLine_cons _ (by simp)]
    simp
  rw [lineEvents_plain (by simp) hfits h rfl, Msg.frags, hostLine_cons _ (by simp),
    hline, parseTextLine_suiteEnd, parseSuiteEnd_text (isName_nameText h)]
  rfl

theorem lineEvents_done (passed failed skipped : UInt32)
    (hfits : Fits (.done passed failed skipped)) :
    lineEvents (.done passed failed skipped) = [.done passed failed skipped] := by
  have hline : "DONE passed=".toList ++ hostLine (counterFrags passed failed skipped) =
      "DONE ".toList ++ counterText passed failed skipped := by
    rw [← hostLine_counters]
    simp
  rw [lineEvents_plain (by simp) hfits trivial rfl, Msg.frags, hostLine_cons _ (by simp),
    hline, parseTextLine_done, parseDone_text]
  rfl

/-- The note of `pot_ignore` is no event. -/
theorem lineEvents_ignored {id : CaseId} {message : CStr} (h : CleanId id)
    (hmessage : CleanMessage message) (hfits : Fits (.ignored id message)) :
    lineEvents (.ignored id message) = [] := by
  rw [lineEvents_plain (by simp) hfits ⟨h, hmessage⟩ rfl, Msg.frags, List.cons_append,
    hostLine_cons _ (by simp), parseTextLine_ignore]
  rfl

theorem lineEvents_banner : lineEvents .banner = [] := by
  decide

theorem space_not_mem_intText (v : Int) : 0x20 ∉ intText v := by
  intro h
  have hdigit : 0x20 ∉ Decimal.numeral v.natAbs := fun hb =>
    absurd (Decimal.mem_numeral hb).1 (by decide)
  unfold intText at h
  split_ifs at h
  · rcases List.mem_cons.mp h with hb | hb
    · exact absurd hb (by decide)
    · exact hdigit hb
  · exact hdigit h

theorem space_not_mem_i32 (v : Int32) : ' ' ∉ Utf8.lossy (Frag.i32 v).text :=
  Utf8.not_mem_lossy_ascii (b := 0x20) (by decide) (space_not_mem_intText v.toInt)

/-- The calls of the line of a failing assertion in front of the place. -/
def failFront (id : CaseId) : List Frag :=
  litFrag "FAIL " :: caseIdFrags id ++ [litFrag " "]

theorem plain_failFront {id : CaseId} (h : PlainId id) : ∀ f ∈ failFront id, Plain f := by
  simp only [failFront, List.forall_mem_cons, List.cons_append, List.forall_mem_append]
  exact ⟨by decide, plain_caseId h, by decide, fun _ hf => (List.not_mem_nil hf).elim⟩

/-- The front of the line is read whatever follows. -/
theorem lossy_failFront {id : CaseId} (h : PlainId id) (rest : List UInt8) :
    Utf8.lossy (lineText (failFront id) ++ rest) =
      "FAIL ".toList ++ (nameText id.suite ++ '.' :: leafText id ++ ' ' ::
        Utf8.lossy rest) := by
  have hspace : hostLine [litFrag " "] = [' '] := by
    rw [hostLine_cons _ (by simp)]
    simp [hostLine]
  have hfront : hostLine (failFront id) =
      "FAIL ".toList ++ (nameText id.suite ++ '.' :: leafText id ++ [' ']) := by
    rw [failFront, List.cons_append, hostLine_cons _ (by simp), hostLine,
      List.flatMap_append]
    show _ ++ (hostLine (caseIdFrags id) ++ hostLine [litFrag " "]) = _
    rw [hostLine_caseId h, hspace]
  rw [lossy_plain (plain_failFront h), hfront]
  simp only [List.append_assoc, List.cons_append, List.nil_append]

/-- The host's text of the line of a failing assertion, whose path need not be
ASCII. -/
theorem lossy_assertFail {id : CaseId} (file : Option CStr) (line : Int32)
    {message : CStr} (h : CleanId id) (hmessage : CleanMessage message) :
    Utf8.lossy (lineText (Msg.assertFail id file line message).frags) =
      "FAIL ".toList ++ (nameText id.suite ++ '.' :: leafText id ++ ' ' ::
        (Utf8.lossy (orUnknown file).bytes ++ ':' :: Utf8.lossy (Frag.i32 line).text ++
          ' ' :: Utf8.lossy message.bytes)) := by
  have hback : ∀ f ∈ [.i32 line, litFrag " ", .str (some message)], Plain f := by
    simp only [List.forall_mem_cons]
    exact ⟨plain_i32 line, by decide, plain_message hmessage,
      fun _ hf => (List.not_mem_nil hf).elim⟩
  have hcolon : (litFrag ":").text = [0x3A] := by decide
  have hsplit : lineText (Msg.assertFail id file line message).frags =
      lineText (failFront id) ++
        ((orUnknown file).bytes ++ 0x3A ::
          lineText [.i32 line, litFrag " ", .str (some message)]) := by
    have hpath : (nameFrag file).text = (orUnknown file).bytes := rfl
    simp [Msg.frags, failFront, lineText, hpath, hcolon]
  have hend : hostLine [.i32 line, litFrag " ", .str (some message)] =
      Utf8.lossy (Frag.i32 line).text ++ ' ' :: Utf8.lossy message.bytes := by
    have hlit : Utf8.lossy (litFrag " ").text = [' '] :=
      (lossy_lit (by simp)).trans (by simp)
    simp only [hostLine, List.flatMap_cons, List.flatMap_nil, List.append_nil, hlit]
    rfl
  rw [hsplit, lossy_failFront h.plain, Utf8.lossy_append_ascii _ _ (by decide),
    lossy_line hback, hend]
  have hchar : Utf8.asciiChar 0x3A = ':' := rfl
  simp only [hchar, List.append_assoc, List.cons_append]

/-- The place and the message of a failing assertion come back, the place as one
word. -/
theorem lineEvents_assertFail {id : CaseId} {file : Option CStr} {line : Int32}
    {message : CStr} (h : CleanId id) (hfile : CleanPath file)
    (hmessage : CleanMessage message) (hfits : Fits (.assertFail id file line message)) :
    ∃ place, lineEvents (.assertFail id file line message) =
      [.assertFail (nameText id.suite) (leafText id) place 0
        (Utf8.lossy message.bytes)] := by
  have hpath : ' ' ∉ Utf8.lossy (orUnknown file).bytes := by
    refine Utf8.not_mem_lossy_ascii (b := 0x20) (by decide) ?_
    cases file with
    | none => decide
    | some x => exact (hfile x rfl).1
  have hplace : ' ' ∉ Utf8.lossy (orUnknown file).bytes ++ ':' ::
      Utf8.lossy (Frag.i32 line).text := by
    simp only [List.mem_append, List.mem_cons, not_or]
    exact ⟨hpath, by decide, space_not_mem_i32 line⟩
  have hreturn : '\r' ∉ Utf8.lossy message.bytes :=
    Utf8.not_mem_lossy_ascii (b := 0x0D) (by decide) fun hb =>
      absurd (hmessage _ hb) (by decide)
  have hkeep : ∀ c ∈ ' ' :: Utf8.lossy message.bytes, decide (c = '\r') = false := by
    intro c hc
    rcases List.mem_cons.mp hc with rfl | hc
    · decide
    · exact decide_eq_false fun heq => hreturn (heq ▸ hc)
  have hparse := parseFail_assert (isStem_nameText h.suite.plain) (solid_leafText h.plain) hplace
    (Utf8.lossy message.bytes)
  refine ⟨Utf8.lossy (orUnknown file).bytes ++ ':' :: Utf8.lossy (Frag.i32 line).text,
    ?_⟩
  rw [lineEvents, line_bytes (by simp) (hfits.line (by simp)),
    lossy_assertFail file line h hmessage]
  generalize Utf8.lossy (orUnknown file).bytes ++ ':' :: Utf8.lossy (Frag.i32 line).text =
    place at hparse ⊢
  generalize nameText id.suite ++ '.' :: leafText id = name at hparse ⊢
  have htail : "FAIL ".toList ++ (name ++ ' ' :: (place ++ ' ' :: Utf8.lossy message.bytes)) =
      ("FAIL ".toList ++ (name ++ ' ' :: place)) ++ ' ' :: Utf8.lossy message.bytes := by
    simp
  rw [htail, Text.trimEnd_append _ hkeep (by simp), ← htail, parseTextLine_fail, hparse]
  rfl

/-- The line of a clean message that fits tells what the message tells. -/
theorem lineEvents_eq {m : Msg} (h : CleanMsg m) (hfits : Fits m) :
    (lineEvents m).map eraseFile = (msgEvent m).toList.map eraseFile := by
  cases m with
  | banner => rw [lineEvents_banner]; rfl
  | suiteStart name => rw [lineEvents_suiteStart h hfits]; rfl
  | caseStart id => rw [lineEvents_caseStart h hfits]; rfl
  | assertFail id file line message =>
    obtain ⟨place, hline⟩ := lineEvents_assertFail h.1 h.2.1 h.2.2 hfits
    rw [hline]
    rfl
  | ignored id message => rw [lineEvents_ignored h.1 h.2 hfits]; rfl
  | caseEnd id status => rw [lineEvents_caseEnd status h hfits]; rfl
  | suiteEnd name passed failed skipped =>
    rw [lineEvents_suiteEnd passed failed skipped h hfits]
    rfl
  | done passed failed skipped => rw [lineEvents_done passed failed skipped hfits]; rfl

/-- The line of a clean message that fits has no line feed. -/
theorem feed_not_mem {m : Msg} (h : CleanMsg m) (hfits : Fits m) :
    0x0A ∉ m.line.bytes := by
  have hplain : ∀ {f : Frag}, Plain f → 0x0A ∉ f.text := fun hf hb =>
    absurd (hf _ hb) (by decide)
  have hfrags : ∀ f ∈ m.frags, 0x0A ∉ f.text := by
    cases hpath : hasPath m with
    | false => exact fun f hf => hplain (plain_frags h hpath f hf)
    | true =>
      cases m with
      | assertFail id file line message =>
        have hfile : 0x0A ∉ (nameFrag file).text := by
          cases file with
          | none => decide
          | some x => exact (h.2.1 x rfl).2
        simp only [Msg.frags, List.forall_mem_cons, List.cons_append,
          List.forall_mem_append]
        exact ⟨hplain (by decide), fun f hf => hplain (plain_caseId h.1.plain f hf),
          hplain (by decide), hfile, hplain (by decide), hplain (plain_i32 line),
          hplain (by decide), hplain (plain_message h.2.2),
          fun _ hf => (List.not_mem_nil hf).elim⟩
      | _ => cases hpath
  by_cases hbanner : m = .banner
  · subst hbanner
    decide
  · rw [line_bytes hbanner (hfits.line hbanner)]
    intro hb
    obtain ⟨f, hf, hmem⟩ := List.mem_flatMap.mp hb
    exact hfrags f hf hmem

/-! ## A run -/

/-- The two outputs of a run decode to the same events, up to the files and the
line numbers of failing assertions. -/
theorem modes_agree {p : Program ω} (hcalls : CallsOnly p CleanCall) (e : Entry)
    (s : Sys ω) (hsilent : SilentSuites p s.g.env.reg)
    (hnames : ∀ t ∈ registered p s, CleanId t.id) :
    ∃ new, (e.run p s).1.trace = s.trace ++ new ∧
      ((∀ m ∈ messages new, Fits m) →
        ∃ lines frames,
          (TextCodec.decodeFeed .new (output .text new)).2 = .ok lines ∧
          (CobsCodec.decodeFeed .new (output .binary new)).2 = .ok frames ∧
          lines.map eraseFile = frames.map eraseFile) := by
  obtain ⟨sel, s', hrun, htrace, hreg⟩ := Entry.run_eq p e s
  obtain ⟨new, hnew, hclean⟩ := clean_messages hcalls sel (s := s')
    (hreg ▸ hsilent) fun t ht => hnames t (registered_congr p hreg ▸ ht)
  refine ⟨new, by rw [hrun, hnew, htrace], fun hfits => ⟨_, _,
    decodeFeed_text fun m hm => feed_not_mem (hclean m hm) (hfits m hm),
    decodeFeed_binary hfits, ?_⟩⟩
  unfold CleanTrace at hclean
  generalize messages new = ms at hfits hclean
  induction ms with
  | nil => rfl
  | cons m ms ih =>
      have hm := lineEvents_eq (hclean m (by simp)) (hfits m (by simp))
      have hms := ih (fun m' hm' => hfits m' (by simp [hm']))
        fun m' hm' => hclean m' (by simp [hm'])
      rw [List.flatMap_cons, List.map_append, hm, hms, List.filterMap_cons]
      cases msgEvent m <;> simp

/-- What the run of a body that fails in a file adds to the trace. -/
def failTrace (file : CStr) : List Step :=
  (Entry.all.run (bodyCalls [.failAt (some file) 7 none]) mathSys).1.trace.drop 1

/-- A failing assertion with a short path. -/
theorem modes_agree_math :
    ∃ lines frames,
      (TextCodec.decodeFeed .new (output .text (failTrace (CStr.lit "a.c")))).2 =
        .ok lines ∧
      (CobsCodec.decodeFeed .new (output .binary (failTrace (CStr.lit "a.c")))).2 =
        .ok frames ∧
      lines.map eraseFile = frames.map eraseFile := by
  have hcalls : CallsOnly (bodyCalls [.failAt (some (CStr.lit "a.c")) 7 none])
      CleanCall := bodyCalls_only fun c hc => by
    rw [List.mem_singleton.mp hc]
    exact ⟨fun x hx => by cases hx; decide, fun m hm => by cases hm⟩
  have hnames : ∀ t ∈ registered (bodyCalls [.failAt (some (CStr.lit "a.c")) 7 none])
      mathSys, CleanId t.id := by
    intro t ht
    rw [show t = mathCase from List.mem_singleton.mp ht]
    have hclean : ∀ text ∈ ["Math", "ops", "add"], CleanName (some (CStr.lit text)) := by
      intro text htext
      have hbytes : ∀ x ∈ ["Math", "ops", "add"],
          (CStr.lit x).bytes ≠ [] ∧ (CStr.lit x).bytes.all nameByte = true := by decide
      obtain ⟨hne, hall⟩ := hbytes text htext
      exact ⟨_, rfl, hne, List.all_eq_true.mp hall⟩
    exact ⟨hclean "Math" (by simp), hclean "ops" (by simp), hclean "add" (by simp)⟩
  obtain ⟨new, htrace, hagree⟩ := modes_agree hcalls .all mathSys
    (fun _ hu => (List.not_mem_nil hu).elim) hnames
  have hnew : new = failTrace (CStr.lit "a.c") := by
    rw [failTrace, htrace]
    rfl
  rw [hnew] at hagree
  exact hagree (by decide +kernel)

/-- The path of a file with a line feed in its name. -/
def brokenPath : CStr := CStr.ofBytes [0x61, 0x0A, 0x62]

/-- A line feed in a path, though it is no space, breaks the line: the text
decoder loses the message of the failing assertion. -/
theorem modes_brokenPath :
    (Entry.all.run (bodyCalls [.failAt (some brokenPath) 7 none]) mathSys).1.trace =
        mathSys.trace ++ failTrace brokenPath ∧
      0x20 ∉ brokenPath.bytes ∧ (∀ m ∈ messages (failTrace brokenPath), Fits m) ∧
      ∃ lines frames,
        (TextCodec.decodeFeed .new (output .text (failTrace brokenPath))).2 =
          .ok lines ∧
        (CobsCodec.decodeFeed .new (output .binary (failTrace brokenPath))).2 =
          .ok frames ∧
        lines.map eraseFile ≠ frames.map eraseFile := by
  have hfits : ∀ m ∈ messages (failTrace brokenPath), Fits m := by decide +kernel
  refine ⟨by decide +kernel, by decide, hfits,
    [.suiteStart "Math".toList, .caseStart "Math".toList "ops.add".toList,
      .assertFail "Math".toList "ops.add".toList "a".toList 0 [],
      .caseEnd "Math".toList "ops.add".toList .failed,
      .suiteEnd "Math".toList 0 1 0, .done 0 1 0],
    _, ?_, decodeFeed_binary hfits, ?_⟩
  · decide +kernel
  · decide +kernel

end PolyOnTest.Run
