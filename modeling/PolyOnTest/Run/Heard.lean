import Mathlib.Data.Nat.Digits.Defs
import PolyOnTest.Builtins.Junit
import PolyOnTest.Run.Identity

/-!
# What the JUnit reporter hears

Each message of a run, on its way through the output and the decoder to the rows of
the JUnit reporter.  The end of a case writes its status, a failing assertion writes a
failure, and both under the names that the host reads.

A failing assertion with a long message is an exception in the binary output.  When
the payload has room for the message but not for the numbers, the harness sends
nothing; when it has no room for the message, the frame cannot be read
(`hostDecode_garbled`).
-/

namespace PolyOnTest.Run

open CodeLib CodeLib.CMemory PolyOnTest.Builtins PolyOnTest.Harness PolyOnTest.Wire

/-! ## Names and messages on the host -/

/-- The names that the text output prints. -/
def shownId (id : CaseId) : CaseId :=
  ⟨some (orUnknown id.suite), some (orUnknown id.group), some (orUnknown id.name)⟩

/-- The suite and the name that the host reads for a case. -/
def hostKey : Mode → CaseId → Str × Str
  | .text, id => (nameText (shownId id).suite, leafText (shownId id))
  | .binary, id =>
      (Utf8.lossy ((bytesOf id.suite).take 255), Utf8.lossy (id.leafBytes.take 127))

/-- The buffers have room for the names.  In the text output the names are plain. -/
def Sends : Mode → CaseId → Prop
  | .text, id => PlainId (shownId id) ∧ (idBytes id).length ≤ 180
  | .binary, id => caseSize id none ≤ 384

/-- In the text output, what a line gets from the test binary has no line feed. -/
def OneLine : Mode → Msg → Prop
  | .text, .suiteStart name => 0x0A ∉ bytesOf name
  | .text, .suiteEnd name _ _ _ => 0x0A ∉ bytesOf name
  | .text, .assertFail _ file _ message =>
      0x0A ∉ (orUnknown file).bytes ∧ 0x0A ∉ message.bytes
  | .text, .ignored _ message => 0x0A ∉ message.bytes
  | _, _ => True

/-- The case that a message is about. -/
def msgCase : Msg → Option CaseId
  | .caseStart id => some id
  | .assertFail id .. => some id
  | .ignored id _ => some id
  | .caseEnd id _ => some id
  | _ => none

/-- A failing assertion whose payload has no room for its message. -/
def Garbled : Mode → Msg → Prop
  | .binary, .assertFail id _ _ message => 396 < caseSize id (some message)
  | _, _ => False

/-- The rows that a message changes.  A failing assertion whose payload has no room
for the numbers is not sent. -/
def msgWrites (mode : Mode) : Msg → List ((Str × Str) × TestStatus)
  | .assertFail id _ _ message =>
      if mode = .binary ∧ 384 < caseSize id (some message) then []
      else [(hostKey mode id, .failed)]
  | .caseEnd id status => [(hostKey mode id, status)]
  | _ => []

/-- The reporter hears of a message what it should. -/
def Heard (mode : Mode) (m : Msg) : Prop :=
  ∃ part, hostDecode mode (emit mode m).flatten = .ok part ∧
    part.filterMap eventWrite = msgWrites mode m

/-! ## Lines -/

/-- The name in the line of the printed names is the name in the line. -/
theorem idBytes_shownId (id : CaseId) : idBytes (shownId id) = idBytes id := rfl

/-- A line that starts with a word is read behind the word. -/
theorem hostDecode_keyword {m : Msg} {word : String} {frags : List Frag}
    (hbanner : m ≠ .banner) (hfrags : m.frags = litFrag word :: frags)
    (hword : '\x00' ∉ word.toList) (hascii : Utf8.IsAscii (CStr.lit word).bytes)
    (hcap : (CStr.lit word).bytes.length < m.cap)
    (hfeed : ∀ f ∈ m.frags, 0x0A ∉ f.text) :
    ∃ rest, hostDecode .text (emit .text m).flatten =
      .ok (readText (word.toList ++ Utf8.lossy rest)) := by
  have hbuild : m.line.bytes = (lineText m.frags).take (m.cap - 1) := by
    have hline : m.line = (build m.cap m.frags).cstr := by
      cases m <;> first | exact absurd rfl hbanner | rfl
    rw [hline, hfrags]
    exact (build_cstr (by omega) _ _).1
  have hfree : 0x0A ∉ m.line.bytes := by
    intro hb
    rw [hbuild] at hb
    obtain ⟨f, hf, hmem⟩ := List.mem_flatMap.mp (List.mem_of_mem_take hb)
    exact hfeed f hf hmem
  have hsplit : lineText m.frags = (CStr.lit word).bytes ++ lineText frags := by
    rw [hfrags]
    rfl
  refine ⟨(lineText frags).take (m.cap - 1 - (CStr.lit word).bytes.length), ?_⟩
  rw [flatten_emitText, hostDecode_line hfree, hbuild, hsplit, List.take_append,
    List.take_of_length_le (by omega), Utf8.lossy_ascii_append hascii,
    ← Utf8.lossy_ascii hascii]
  exact congrArg (fun text => Except.ok (readText (text ++ _))) (lossy_lit hword)

theorem readText_suiteStart (rest : Str) :
    (readText ("SUITE_START ".toList ++ rest)).filterMap eventWrite = [] := by
  have htrim : Text.trimEnd (· = '\r') ("SUITE_START ".toList ++ rest) =
      "SUITE_START ".toList ++ Text.trimEnd (· = '\r') rest :=
    Text.trimEnd_append_cons (by decide) "SUITE_START".toList rest
  rw [readText, htrim, parseTextLine_suiteStart]
  rfl

theorem readText_suiteEnd (rest : Str) :
    (readText ("SUITE_END ".toList ++ rest)).filterMap eventWrite = [] := by
  have htrim : Text.trimEnd (· = '\r') ("SUITE_END ".toList ++ rest) =
      "SUITE_END ".toList ++ Text.trimEnd (· = '\r') rest :=
    Text.trimEnd_append_cons (by decide) "SUITE_END".toList rest
  rw [readText, htrim, parseTextLine_suiteEnd]
  unfold parseSuiteEnd
  cases Text.splitWhitespace (Text.trimEnd (· = '\r') rest) <;> rfl

theorem readText_caseStart (rest : Str) :
    (readText ("CASE_START ".toList ++ rest)).filterMap eventWrite = [] := by
  have htrim : Text.trimEnd (· = '\r') ("CASE_START ".toList ++ rest) =
      "CASE_START ".toList ++ Text.trimEnd (· = '\r') rest :=
    Text.trimEnd_append_cons (by decide) "CASE_START".toList rest
  rw [readText, htrim, parseTextLine_caseStart]
  cases splitSuiteCase (Text.trimEnd (· = '\r') rest) <;> rfl

/-- A line without a line feed that is read as an event is read as one event. -/
theorem reads_one {m : Msg} {suite name : Str} (h : Reads .text suite name m)
    (hfeed : 0x0A ∉ m.line.bytes) :
    ∃ e, hostDecode .text (emit .text m).flatten = .ok [e] ∧ Tells suite name m e := by
  obtain ⟨e, more, hread, htells⟩ := h
  have hline := hostDecode_line hfeed
  rw [← flatten_emitText, hread] at hline
  injection hline with hevents
  unfold readText at hevents
  cases hparse : parseTextLine (Text.trimEnd (· = '\r') (Utf8.lossy m.line.bytes)) with
  | none =>
    rw [hparse] at hevents
    cases hevents
  | some e' =>
    rw [hparse] at hevents
    injection hevents with he hmore
    exact ⟨e, by rw [hread, hmore], htells⟩

/-! ## The text output -/

theorem feed_not_mem_plain {f : Frag} (h : Plain f) : 0x0A ∉ f.text := fun hb =>
  absurd (h _ hb) (by decide)

theorem feed_not_mem_str {name : Option CStr} (h : 0x0A ∉ bytesOf name) :
    0x0A ∉ (Frag.str name).text := by
  cases name with
  | none => exact List.not_mem_nil
  | some s => exact h

/-- What a failing assertion and the end of a case tell. -/
theorem eventWrite_of_tells {suite name : Str} {m : Msg} {e : Event}
    (h : Tells suite name m e) :
    (∀ id file line message, m = .assertFail id file line message →
        eventWrite e = some ((suite, name), .failed)) ∧
      ∀ id status, m = .caseEnd id status → eventWrite e = some ((suite, name), status) := by
  constructor
  · intro id file line message hm
    rw [hm] at h
    cases e with
    | assertFail suite' name' file' line' message' =>
      obtain ⟨rfl, rfl⟩ := h
      rfl
    | _ => exact h.elim
  · intro id status hm
    rw [hm] at h
    cases e with
    | caseEnd suite' name' status' =>
      obtain ⟨rfl, rfl, rfl⟩ := h
      rfl
    | _ => exact h.elim

theorem hostDecode_congr {m m' : Msg} (h : m.line = m'.line) :
    hostDecode .text (emit .text m).flatten = hostDecode .text (emit .text m').flatten := by
  rw [flatten_emitText, flatten_emitText, h]

theorem heard_text_failAt {id : CaseId} (hid : Sends .text id) {file : Option CStr}
    (line : Int32) {message : CStr} (hfile : 0x0A ∉ (orUnknown file).bytes)
    (hmessage : 0x0A ∉ message.bytes) : Heard .text (.assertFail id file line message) := by
  obtain ⟨hplain, hroom⟩ := hid
  have hfront : (lineText (failFront (shownId id))).length ≤ 319 := by
    rw [failFront_length, idBytes_shownId]
    omega
  obtain ⟨e, hread, htells⟩ := reads_one (reads_failAt hplain hfront file line message)
    (feed_not_mem_failAt hplain hfront hfile line hmessage)
  have hline : (Msg.assertFail id file line message).line =
      (Msg.assertFail (shownId id) file line message).line := rfl
  refine ⟨[e], (hostDecode_congr hline).trans hread, ?_⟩
  have hwrite := (eventWrite_of_tells htells).1 _ _ _ _ rfl
  rw [List.filterMap_cons_some hwrite]
  rfl

theorem heard_text_caseEnd {id : CaseId} (hid : Sends .text id) (status : TestStatus) :
    Heard .text (.caseEnd id status) := by
  obtain ⟨hplain, hroom⟩ := hid
  have hfeed : 0x0A ∉ (Msg.caseEnd (shownId id) status).line.bytes := by
    rw [caseEnd_bytes, List.mem_append, not_or]
    refine ⟨by cases status <;> decide, fun hb => ?_⟩
    exact absurd (plain_idBytes hplain (List.mem_of_mem_take hb)) (by decide)
  have hread : Reads .text (nameText (shownId id).suite) (leafText (shownId id))
      (.caseEnd (shownId id) status) := by
    rw [reads_caseEnd hplain, List.take_of_length_le]
    · exact splitSuiteCase_name (isStem_nameText hplain.suite) _
    · rw [hostId_length hplain, idBytes_shownId]
      omega
  obtain ⟨e, hone, htells⟩ := reads_one hread hfeed
  have hline : (Msg.caseEnd id status).line = (Msg.caseEnd (shownId id) status).line := rfl
  refine ⟨[e], (hostDecode_congr hline).trans hone, ?_⟩
  have hwrite := (eventWrite_of_tells htells).2 _ _ rfl
  rw [List.filterMap_cons_some hwrite]
  rfl

theorem length_numeral_le (v : UInt32) : (Frag.u32 v).text.length ≤ 10 := by
  show (Decimal.numeral v.toNat).length ≤ 10
  have hlt := v.toNat_lt
  exact Decimal.length_numeral_le (by decide) (by omega)

/-- The last line has room for any counters. -/
theorem fits_done (passed failed skipped : UInt32) : Fits (.done passed failed skipped) where
  line := by
    intro _
    have hpassed := length_numeral_le passed
    have hfailed := length_numeral_le failed
    have hskipped := length_numeral_le skipped
    have hword : (litFrag "DONE passed=").text.length = 12 := by decide
    have hmiddle : (litFrag " failed=").text.length = 8 := by decide
    have hlast : (litFrag " skipped=").text.length = 9 := by decide
    simp only [Msg.frags, counterFrags, lineText, Msg.cap, List.flatMap_cons,
      List.flatMap_nil, List.length_append, List.length_nil, hword, hmiddle, hlast]
    omega
  strings := by simp [msgSlots]
  leaf := by simp [msgSlots]
  payload := by simp [msgSlots, Slots.size]

/-- The line of the counters. -/
theorem hostDecode_text_done (passed failed skipped : UInt32) :
    hostDecode .text (emit .text (.done passed failed skipped)).flatten =
      .ok [.done passed failed skipped] := by
  have hfits := fits_done passed failed skipped
  have hfeed : 0x0A ∉ (Msg.done passed failed skipped).line.bytes := feed_not_mem trivial hfits
  have hline := lineEvents_done passed failed skipped hfits
  rw [flatten_emitText, hostDecode_line hfeed]
  exact congrArg Except.ok hline

/-- A line of the text output, when its names are plain and nothing in it ends it. -/
theorem heard_text {m : Msg} (hid : ∀ id, msgCase m = some id → Sends .text id)
    (hline : OneLine .text m) : Heard .text m := by
  have hplain : ∀ id, msgCase m = some id → ∀ f ∈ caseIdFrags id, 0x0A ∉ f.text := by
    intro id hcase f hf
    exact feed_not_mem_plain (plain_caseId (hid id hcase).1 f hf)
  cases m with
  | banner => exact ⟨[], by decide +kernel, rfl⟩
  | suiteStart name =>
    obtain ⟨rest, hread⟩ := @hostDecode_keyword (.suiteStart name) "SUITE_START "
      [.str name] (by simp) rfl (by decide) (by decide)
      (show (CStr.lit "SUITE_START ").bytes.length < 128 by decide) (by
        simp only [Msg.frags, List.forall_mem_cons]
        exact ⟨by decide, feed_not_mem_str hline, by simp⟩)
    exact ⟨_, hread, readText_suiteStart _⟩
  | caseStart id =>
    obtain ⟨rest, hread⟩ := @hostDecode_keyword (.caseStart id) "CASE_START "
      (caseIdFrags id) (by simp) rfl (by decide) (by decide)
      (show (CStr.lit "CASE_START ").bytes.length < 192 by decide) (by
        simp only [Msg.frags, List.forall_mem_cons]
        exact ⟨by decide, hplain id rfl⟩)
    exact ⟨_, hread, readText_caseStart _⟩
  | assertFail id file line message =>
    exact heard_text_failAt (hid id rfl) line hline.1 hline.2
  | ignored id message =>
    obtain ⟨rest, hread⟩ := @hostDecode_keyword (.ignored id message) "IGNORE "
      (caseIdFrags id ++ [litFrag " ", .str (some message)]) (by simp) rfl (by decide)
      (by decide) (show (CStr.lit "IGNORE ").bytes.length < 256 by decide) (by
        simp only [Msg.frags, List.cons_append, List.forall_mem_cons,
          List.forall_mem_append]
        exact ⟨by decide, hplain id rfl, by decide, hline, by simp⟩)
    refine ⟨_, hread, ?_⟩
    rw [readText_note]
    rfl
  | caseEnd id status => exact heard_text_caseEnd (hid id rfl) status
  | suiteEnd name passed failed skipped =>
    obtain ⟨rest, hread⟩ := @hostDecode_keyword (.suiteEnd name passed failed skipped)
      "SUITE_END " (.str name :: litFrag " passed=" :: counterFrags passed failed skipped)
      (by simp) rfl (by decide) (by decide)
      (show (CStr.lit "SUITE_END ").bytes.length < 160 by decide) (by
        simp only [Msg.frags, List.forall_mem_cons]
        exact ⟨by decide, feed_not_mem_str hline, by decide, fun f hf =>
          feed_not_mem_plain (plain_counters passed failed skipped f hf)⟩)
    exact ⟨_, hread, readText_suiteEnd _⟩
  | done passed failed skipped => exact ⟨_, hostDecode_text_done passed failed skipped, rfl⟩

/-! ## The binary output -/

/-- A failing assertion that does not fit is not sent, or it is not read. -/
theorem failAt_large {id : CaseId} (hid : Sends .binary id) (file : Option CStr)
    (line : Int32) {message : CStr} (hlarge : 384 < caseSize id (some message)) :
    (caseSize id (some message) ≤ 396 →
      emit .binary (.assertFail id file line message) = []) ∧
    (396 < caseSize id (some message) → ∀ es,
      hostDecode .binary (emit .binary (.assertFail id file line message)).flatten ≠
        .ok es) := by
  obtain ⟨hlen, -⟩ := leaf_take id
  have hnames : 4 + 3 + 12 + (min 255 (bytesOf id.suite).length +
      min 127 id.leafBytes.length) ≤ 384 := hid
  unfold caseSize at hlarge ⊢
  rw [emit_assertFail, emitMsg_eq]
  have ha : putField 384 (header .assertFail) (bytesOf id.suite) =
      header .assertFail ++ strField (bytesOf id.suite) :=
    putField_fits (by simp only [header_length, strField_length]; omega)
  have hb : putField 384 (header .assertFail ++ strField (bytesOf id.suite))
      (bytesOf (some (formatCaseLeaf id.group id.name))) =
        header .assertFail ++ strField (bytesOf id.suite) ++
          strField (bytesOf (some (formatCaseLeaf id.group id.name))) :=
    putField_fits (by
      simp only [List.length_append, header_length, strField_length]
      omega)
  unfold putFields
  rw [ha, hb]
  constructor
  · intro hroom
    rw [putField_fits (by
      simp only [List.length_append, header_length, strField_length]
      omega), if_pos]
    simp only [List.length_append, header_length, strField_length]
    omega
  · intro hgarbled es
    rw [putField_skip (by
      simp only [List.length_append, header_length, strField_length]
      omega), if_neg]
    · unfold hostDecode
      dsimp only
      rw [List.flatten_singleton, decodeFeed_frame]
      exact map_ne_ok (decodePayload_twoStrings .assertFail _ _ line.toUInt32 0 0) _ _
    · simp only [List.length_append, header_length, strField_length]
      omega

theorem heard_binary_failAt {id : CaseId} (hid : Sends .binary id) (file : Option CStr)
    (line : Int32) {message : CStr} (hsound : caseSize id (some message) ≤ 396) :
    Heard .binary (.assertFail id file line message) := by
  unfold Heard msgWrites
  dsimp only
  by_cases hfit : caseSize id (some message) ≤ 384
  · rw [if_neg fun h => absurd h.2 (by omega), emit_assertFail]
    exact ⟨_, hostDecode_caseMsg .assertFail id (some message) line.toUInt32 0 0 hfit, rfl⟩
  · rw [if_pos ⟨rfl, by omega⟩, (failAt_large hid file line (by omega)).1 hsound]
    exact ⟨[], rfl, rfl⟩

/-- A message of the binary output, when its names fit. -/
theorem heard_binary {m : Msg} (hid : ∀ id, msgCase m = some id → Sends .binary id)
    (hsound : ¬Garbled .binary m) : Heard .binary m := by
  unfold Heard
  cases m with
  | banner => exact ⟨[], rfl, rfl⟩
  | ignored id message => exact ⟨[], rfl, rfl⟩
  | suiteStart name =>
    rw [emit_suiteStart]
    refine ⟨_, hostDecode_emitMsg .suiteStart name none none 0 0 0 ?_, rfl⟩
    simp only [bytesOf, List.length_nil]
    omega
  | caseStart id =>
    rw [emit_caseStart]
    exact ⟨_, hostDecode_caseMsg .caseStart id none 0 0 0 (hid id rfl), rfl⟩
  | assertFail id file line message =>
    exact heard_binary_failAt (hid id rfl) file line (Nat.le_of_not_lt hsound)
  | caseEnd id status =>
    rw [emit_caseEnd]
    refine ⟨_, hostDecode_caseMsg .caseEnd id none (ptStatus status) 0 0 (hid id rfl), ?_⟩
    show [(hostKey .binary id, statusOf (ptStatus status))] = _
    rw [statusOf_ptStatus]
    rfl
  | suiteEnd name passed failed skipped =>
    rw [emit_suiteEnd]
    refine ⟨_, hostDecode_emitMsg .suiteEnd name none none passed failed skipped ?_, rfl⟩
    simp only [bytesOf, List.length_nil]
    omega
  | done passed failed skipped =>
    rw [emit_done]
    exact ⟨_, hostDecode_emitMsg .done none none none passed failed skipped (by decide), rfl⟩

/-! ## Both outputs -/

/-- What the reporter hears of a message. -/
theorem heard {mode : Mode} {m : Msg} (hid : ∀ id, msgCase m = some id → Sends mode id)
    (hline : OneLine mode m) (hsound : ¬Garbled mode m) : Heard mode m := by
  cases mode with
  | text => exact heard_text hid hline
  | binary => exact heard_binary hid hsound

/-- A message whose frame cannot be read. -/
theorem hostDecode_garbled {mode : Mode} {m : Msg}
    (hid : ∀ id, msgCase m = some id → Sends mode id) (h : Garbled mode m) :
    (hostDecode mode (emit mode m).flatten).isOk = false := by
  cases mode with
  | text => exact h.elim
  | binary =>
    cases m with
    | assertFail id file line message =>
      have hlarge : 396 < caseSize id (some message) := h
      have hnever := (failAt_large (hid id rfl) file line (by omega)).2 hlarge
      cases hread : hostDecode .binary
          (emit .binary (.assertFail id file line message)).flatten with
      | ok es => exact absurd hread (hnever es)
      | error e => rfl
    | _ => exact h.elim

/-- The counters of a run are read as they are. -/
theorem hostDecode_done (mode : Mode) (passed failed skipped : UInt32) :
    hostDecode mode (emit mode (.done passed failed skipped)).flatten =
      .ok [.done passed failed skipped] := by
  cases mode with
  | text => exact hostDecode_text_done passed failed skipped
  | binary =>
    rw [emit_done]
    exact hostDecode_emitMsg .done none none none passed failed skipped (by decide)

end PolyOnTest.Run
