import PolyOnTest.Builtins.TextRoundTrip
import PolyOnTest.Run.Modes

/-!
# A failing assertion on the text output

The line of `pot_fail_at` is the name of the case, a place and a message, cut at
319 bytes.  The name is in front, so the line is an event of the case wherever it
is cut; what stands behind the name cannot change the case.

A line feed is the one byte that can do more: what follows it is a line of its own.
`decodeFeed_failAt` is the result for paths and messages without line feeds.
-/

namespace PolyOnTest.Run

open CodeLib CodeLib.CMemory PolyOnTest.Builtins PolyOnTest.Harness PolyOnTest.Wire

/-- The calls of the writer behind a call of test code. -/
def writes (mode : Mode) (g : Globals) (c : Call) : List (List UInt8) :=
  (c.msgs g).flatMap (emit mode)

/-- The calls of the line of a failing assertion behind the name of the case. -/
def failBack (file : Option CStr) (line : Int32) (message : CStr) : List Frag :=
  [nameFrag file, litFrag ":", .i32 line, litFrag " ", .str (some message)]

/-- The place in the line of a failing assertion. -/
def placeBytes (file : Option CStr) (line : Int32) : List UInt8 :=
  (orUnknown file).bytes ++ 0x3A :: intText line.toInt

theorem lineText_append (a b : List Frag) : lineText (a ++ b) = lineText a ++ lineText b :=
  List.flatMap_append ..

theorem lineText_failBack (file : Option CStr) (line : Int32) (message : CStr) :
    lineText (failBack file line message) = placeBytes file line ++ 0x20 :: message.bytes := by
  have hcolon : (litFrag ":").text = [0x3A] := by decide
  have hspace : (litFrag " ").text = [0x20] := by decide
  have hpath : (nameFrag file).text = (orUnknown file).bytes := rfl
  have hline : (Frag.i32 line).text = intText line.toInt := rfl
  have hmessage : (Frag.str (some message)).text = message.bytes := rfl
  simp [lineText, failBack, placeBytes, hcolon, hspace, hpath, hline, hmessage]

/-- The bytes of the line, when the name of the case fits. -/
theorem failAt_bytes {id : CaseId} (file : Option CStr) (line : Int32) (message : CStr)
    (hfront : (lineText (failFront id)).length ≤ 319) :
    (Msg.assertFail id file line message).line.bytes =
      lineText (failFront id) ++ (placeBytes file line ++ 0x20 :: message.bytes).take
        (319 - (lineText (failFront id)).length) := by
  have hfrags : (Msg.assertFail id file line message).frags =
      failFront id ++ failBack file line message := by
    simp [Msg.frags, failFront, failBack]
  have hbuild : (Msg.assertFail id file line message).line.bytes =
      (lineText (Msg.assertFail id file line message).frags).take 319 :=
    (build_cstr (show 0 < 320 by decide) _ _).1
  rw [hbuild, hfrags, lineText_append, lineText_failBack, List.take_append,
    List.take_of_length_le hfront]

theorem space_not_mem_placeBytes {file : Option CStr} (h : 0x20 ∉ (orUnknown file).bytes)
    (line : Int32) : 0x20 ∉ placeBytes file line := by
  simp only [placeBytes, List.mem_append, List.mem_cons, not_or]
  exact ⟨h, by decide, space_not_mem_intText line.toInt⟩

/-- The line of a failing assertion is one event of the case that fails. -/
theorem lineEvents_failAt {id : CaseId} (h : PlainId id)
    (hfront : (lineText (failFront id)).length ≤ 319) {file : Option CStr}
    (hfile : 0x20 ∉ (orUnknown file).bytes) (line : Int32) {message : CStr}
    (hmessage : Utf8.IsAscii message.bytes) :
    ∃ place text, text <+: Utf8.lossy message.bytes ∧
      lineEvents (.assertFail id file line message) =
        [.assertFail (nameText id.suite) (leafText id) place 0 text] := by
  have hsuite := isStem_nameText h.suite
  have hleaf := solid_leafText h
  have hplace := space_not_mem_placeBytes hfile line
  rw [lineEvents, failAt_bytes file line message hfront, lossy_failFront h,
    ← List.append_assoc]
  generalize 319 - (lineText (failFront id)).length = k
  generalize placeBytes file line = place at hplace ⊢
  by_cases hk : k ≤ place.length
  · -- The cut is inside the place, and no message is left.
    have hcut : ' ' ∉ Utf8.lossy (place.take k) :=
      Utf8.not_mem_lossy_ascii (b := 0x20) (by decide) fun hb =>
        hplace (List.mem_of_mem_take hb)
    refine ⟨Text.trimEnd (· = '\r') (Utf8.lossy (place.take k)), [], List.nil_prefix, ?_⟩
    rw [List.take_append_of_le_length hk, parseTextLine_trimPlace hsuite hleaf hcut]
    rfl
  · have hword : ' ' ∉ Utf8.lossy place :=
      Utf8.not_mem_lossy_ascii (b := 0x20) (by decide) hplace
    obtain ⟨j, rfl⟩ : ∃ j, k = place.length + (j + 1) := ⟨k - place.length - 1, by omega⟩
    have htake : (place ++ 0x20 :: message.bytes).take (place.length + (j + 1)) =
        place ++ 0x20 :: message.bytes.take j := by
      rw [List.take_length_add_append, List.take_succ_cons]
    have hspace : Utf8.lossy (place ++ 0x20 :: message.bytes.take j) =
        Utf8.lossy place ++ ' ' :: Utf8.lossy (message.bytes.take j) :=
      Utf8.lossy_append_ascii _ _ (by decide)
    have hshort : Utf8.lossy (message.bytes.take j) <+: Utf8.lossy message.bytes := by
      have htext : Utf8.IsAscii (message.bytes.take j) := fun b hb =>
        hmessage b (List.mem_of_mem_take hb)
      rw [Utf8.lossy_ascii htext, Utf8.lossy_ascii hmessage]
      exact (List.take_prefix j message.bytes).map _
    refine ⟨Utf8.lossy place, Text.trimEnd (· = '\r') (Utf8.lossy (message.bytes.take j)),
      (Text.isPrefix_trimEnd _ _).trans hshort, ?_⟩
    rw [htake, hspace, parseTextLine_trimMessage hsuite hleaf hword]
    rfl

/-- The line has a line feed only if the path or the message has one. -/
theorem feed_not_mem_failAt {id : CaseId} (h : PlainId id)
    (hfront : (lineText (failFront id)).length ≤ 319) {file : Option CStr}
    (hfile : 0x0A ∉ (orUnknown file).bytes) (line : Int32) {message : CStr}
    (hmessage : 0x0A ∉ message.bytes) :
    0x0A ∉ (Msg.assertFail id file line message).line.bytes := by
  have hname : 0x0A ∉ lineText (failFront id) := fun hb =>
    absurd (messageByte_line (plain_failFront h) hb) (by decide)
  have hnumber : 0x0A ∉ intText line.toInt := fun hb =>
    absurd (plain_i32 line _ hb) (by decide)
  rw [failAt_bytes file line message hfront, List.mem_append, not_or]
  refine ⟨hname, fun hb => ?_⟩
  have htext := List.mem_of_mem_take hb
  simp only [placeBytes, List.mem_append, List.mem_cons] at htext
  rcases htext with (hb | hb | hb) | hb | hb
  · exact hfile hb
  · exact absurd hb (by decide)
  · exact hnumber hb
  · exact absurd hb (by decide)
  · exact hmessage hb

theorem flatten_writes (mode : Mode) (g : Globals) (c : Call) :
    (writes mode g c).flatten = output mode ((c.msgs g).map .msg) := by
  rw [output_eq, messages_map_msg, writes, ← List.flatMap_id, List.flatMap_assoc]
  simp

/-- A failing assertion is one event, whatever its message is. -/
theorem decodeFeed_failAt {g : Globals} (hid : PlainId g.cur)
    (hparam : g.paramActive = false)
    (hfront : (lineText (failFront g.cur)).length ≤ 319) {file : Option CStr}
    (hfile : CleanPath file) (line : Int32) {message : CStr}
    (hmessage : Utf8.IsAscii message.bytes) (hfeed : 0x0A ∉ message.bytes) :
    ∃ place text, text <+: Utf8.lossy message.bytes ∧
      (TextCodec.decodeFeed .new
          (writes .text g (.failAt file line (some message))).flatten).2 =
        .ok [.assertFail (nameText g.cur.suite) (leafText g.cur) place 0 text] := by
  have hpath : 0x20 ∉ (orUnknown file).bytes ∧ 0x0A ∉ (orUnknown file).bytes := by
    cases file with
    | none => decide
    | some x => exact hfile x rfl
  have hmsgs : (Call.failAt file line (some message)).msgs g =
      [.assertFail g.cur file line message] := by
    simp [Call.msgs, messageWithParam, hparam]
  obtain ⟨place, text, hprefix, hread⟩ :=
    lineEvents_failAt hid hfront hpath.1 line hmessage
  refine ⟨place, text, hprefix, ?_⟩
  rw [flatten_writes, hmsgs, decodeFeed_text]
  · rw [messages_map_msg, List.flatMap_singleton, hread]
  · intro m hm
    rw [List.mem_singleton.mp hm]
    exact feed_not_mem_failAt hid hfront hpath.2 line hfeed

/-- The state in the body of the case `Math.ops.add`. -/
def inMath : Globals := { Globals.init with cur := mathCase.id }

theorem plain_mathCase : PlainId mathCase.id := by
  have hname : ∀ text ∈ ["Math", "ops", "add"], ∀ b ∈ (CStr.lit text).bytes,
      nameByte b = true := by
    have hall : ∀ text ∈ ["Math", "ops", "add"], (CStr.lit text).bytes.all nameByte := by
      decide
    exact fun text htext => List.all_eq_true.mp (hall text htext)
  exact ⟨⟨_, rfl, hname "Math" (by simp)⟩, ⟨_, rfl, hname "ops" (by simp)⟩,
    ⟨_, rfl, hname "add" (by simp)⟩⟩

/-- A message with all kinds of bytes but a line feed. -/
theorem decodeFeed_failAt_math :
    ∃ place text, text <+: Utf8.lossy (CStr.lit "FAIL a.b \r DONE passed=1").bytes ∧
      (TextCodec.decodeFeed .new (writes .text inMath
          (.failAt (some (CStr.lit "a.c")) 7
            (some (CStr.lit "FAIL a.b \r DONE passed=1")))).flatten).2 =
        .ok [.assertFail (nameText inMath.cur.suite) (leafText inMath.cur) place 0 text] :=
  decodeFeed_failAt (g := inMath) plain_mathCase rfl (by decide +kernel)
    (fun x hx => by cases hx; decide) 7 (by decide) (by decide)

/-- A message whose second line is the end of a run. -/
def forgedDone : CStr := CStr.lit "x\nDONE passed=1 failed=0 skipped=0"

/-- What stands behind a line feed is read as a line, and what stands behind a
space in the path is read as a part of the message. -/
theorem decodeFeed_forgedDone :
    Utf8.IsAscii forgedDone.bytes ∧
      (TextCodec.decodeFeed .new (writes .text inMath
          (.failAt (some (CStr.lit "a.c")) 7 (some forgedDone))).flatten).2 =
        .ok [.assertFail "Math".toList "ops.add".toList "a.c:7".toList 0 "x".toList,
          .done 1 0 0] ∧
      (TextCodec.decodeFeed .new (writes .text inMath
          (.failAt (some forgedDone) 7 (some (CStr.lit "x")))).flatten).2 =
        .ok [.assertFail "Math".toList "ops.add".toList "x".toList 0 [], .done 1 0 0] ∧
      (TextCodec.decodeFeed .new (writes .text inMath
          (.failAt (some (CStr.lit "my a.c")) 7 (some (CStr.lit "x")))).flatten).2 =
        .ok [.assertFail "Math".toList "ops.add".toList "my".toList 0 "a.c:7 x".toList] := by
  refine ⟨by decide, ?_, ?_, ?_⟩
  · decide +kernel
  · decide +kernel
  · decide +kernel

end PolyOnTest.Run
