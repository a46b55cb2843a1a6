import PolyOnTest.Harness.Ptwp
import PolyOnTest.Wire.RoundTrip

/-!
# The two ends of the binary format

The harness writes messages with `emit_msg` and the host reads them with
`CobsCodec`.  `emitMsg_eq` is the spec of `emit_msg`: it puts each string that
still fits into the buffer, drops the others, and drops the message when the
numbers do not fit.  `emitMsg_fits` is the case in which everything fits, where
the payload is the layout of the message.

Below the messages are the frames: `cobsEncode_agrees` compares the encoder of
the harness, under the limit of its array, with the one of the host.

From the spec of `emit_msg` follow the agreement on whole messages
(`emitEvent_eq_encode`) and the exact condition under which the host understands a message
(`decodeFeed_emitMsg_iff`).
-/

namespace PolyOnTest.Wire

open CodeLib CodeLib.CMemory PolyOnTest.Builtins PolyOnTest.Harness

/-- The bytes of a string argument.  `put_str` takes NULL for the empty
string. -/
def bytesOf : Option CStr → List UInt8
  | some s => s.bytes
  | none => []

/-- What `put_str` leaves in a buffer of `max` bytes that held `bytes`. -/
def putField (max : Nat) (bytes s : List UInt8) : List UInt8 :=
  if bytes.length + 1 + min 255 s.length > max then bytes
  else bytes ++ strField s

/-- What `emit_msg` has in its buffer in front of the numbers. -/
def putFields (msg : MsgType) (a b c : List UInt8) : List UInt8 :=
  putField 384 (putField 384 (putField 384 (header msg) a) b) c

theorem putField_fits {max : Nat} {bytes s : List UInt8}
    (h : bytes.length + (strField s).length ≤ max) :
    putField max bytes s = bytes ++ strField s := by
  rw [strField_length] at h
  unfold putField
  rw [if_neg (by omega)]

theorem putField_skip {max : Nat} {bytes s : List UInt8}
    (h : max < bytes.length + (strField s).length) :
    putField max bytes s = bytes := by
  rw [strField_length] at h
  unfold putField
  rw [if_pos (by omega)]

/-! ## The harness writes the layout -/

/-- With room for it, `put_str` copies the whole field. -/
theorem putStr_eq (buf : Buffer) (max pos : Nat) (s : Option CStr) :
    putStr buf max pos s =
      if pos + 1 + min 255 (bytesOf s).length > max then (buf, pos)
      else
        (buf.storeAll pos (strField (bytesOf s)),
          pos + (strField (bytesOf s)).length) := by
  rw [strField_length]
  cases s with
  | none => simp [putStr, bytesOf, strField, Buffer.storeAll]
  | some s =>
    have hn : min s.strlen 255 = min 255 s.bytes.length := Nat.min_comm _ _
    have htake : s.bytes.take (min 255 s.bytes.length) = s.bytes.take 255 := by
      rw [← List.take_take, List.take_of_length_le (Nat.le_refl _)]
    simp only [putStr, bytesOf, hn, strField, Buffer.storeAll, htake]
    rw [Nat.min_comm s.bytes.length]
    by_cases h0 : min 255 s.bytes.length = 0
    · have hnil : s.bytes = [] := List.length_eq_zero_iff.mp (by omega)
      simp [hnil, Buffer.storeAll]
    · simp only [h0, ne_eq, not_false_eq_true, if_true, Nat.add_assoc]

theorem putStr_filled {max pos : Nat} {bytes : List UInt8} {buf : Buffer}
    (h : Filled max bytes buf pos) (s : Option CStr) :
    Filled max (putField max bytes (bytesOf s)) (putStr buf max pos s).1
      (putStr buf max pos s).2 := by
  have hpos := h.pos_eq
  have hlen := strField_length (bytesOf s)
  unfold putField
  rw [putStr_eq, ← hpos]
  split_ifs with hroom
  · exact h
  · exact h.append _ (by omega)

theorem emitFrame_eq {payload : List UInt8} (h : payload.length ≤ 384) :
    emitFrame payload = [Cobs.encode payload ++ [0]] := by
  have hspec := cobsEncode_spec payload (Buffer.alloc 512) rfl
  have hlen := Cobs.length_encode_le payload
  have hframe : (Cobs.encode payload ++ [0]).length ≤ 512 := by
    rw [List.length_append, List.length_singleton]
    omega
  rw [Buffer.alloc_length] at hspec
  have hfits := hspec.fits hframe
  unfold emitFrame
  dsimp only
  rw [hfits.1, hfits.2, if_pos (by simp)]

/-- The stuffing loop of the harness is the encoder of the host with a limit.  It stores
nothing at or behind the limit `mem.length`, it returns zero exactly when the frame with
its delimiter is longer, and else it leaves the frame.  So `emit_frame` sends every
payload of at most 384 bytes. -/
theorem cobsEncode_agrees :
    (∀ (input mem : List UInt8) (out : Buffer) (n : Nat),
      Harness.cobsEncode input ⟨mem, false⟩ mem.length = (out, n) →
        out.overrun = false ∧
        (n = 0 ↔ mem.length < (Builtins.cobsEncode input).length) ∧
        ((Builtins.cobsEncode input).length ≤ mem.length →
          n = (Builtins.cobsEncode input).length ∧
            out.mem.take n = Builtins.cobsEncode input)) ∧
    ∀ payload : List UInt8, payload.length ≤ 384 →
      emitFrame payload = [Builtins.cobsEncode payload] := by
  refine ⟨fun input mem out n hanswer => ?_, fun payload hlen => ?_⟩
  · have hspec := cobsEncode_spec input ⟨mem, false⟩ rfl
    rw [hanswer, ← cobsEncode_eq] at hspec
    have hpos : 0 < (Builtins.cobsEncode input).length := by
      rw [cobsEncode_eq, List.length_append, List.length_singleton]
      omega
    refine ⟨hspec.no_overrun, ⟨fun hzero => ?_, hspec.small⟩, fun hfits => ?_⟩
    · apply Nat.lt_of_not_le
      intro hfits
      have hn : n = _ := (hspec.fits hfits).1
      omega
    · obtain ⟨hn, hframe⟩ := hspec.fits hfits
      dsimp only at hn hframe
      exact ⟨hn, hn ▸ hframe⟩
  · rw [emitFrame_eq hlen, cobsEncode_eq]

/-- Three bytes in an array of five bytes. -/
theorem cobsEncode_agrees_five :
    (Harness.cobsEncode [7, 0, 8] ⟨[9, 9, 9, 9, 9], false⟩ 5).1.mem.take 5 =
        Builtins.cobsEncode [7, 0, 8] ∧
      emitFrame [7, 0, 8] = [Builtins.cobsEncode [7, 0, 8]] := by
  have hall := cobsEncode_agrees.1 [7, 0, 8] [9, 9, 9, 9, 9] ⟨[2, 7, 2, 8, 0], false⟩ 5
    (by decide)
  exact ⟨(hall.2.2 (by decide)).2, cobsEncode_agrees.2 [7, 0, 8] (by decide)⟩

/-- The tags of the harness are those of the host. -/
theorem ptMsg_eq (msg : MsgType) : ptMsg msg = msg.toU8 := by
  cases msg <;> rfl

/-- The spec of `emit_msg`. -/
theorem emitMsg_eq (msg : MsgType) (a b c : Option CStr) (u0 u1 u2 : UInt32) :
    emitMsg msg a b c u0 u1 u2 =
      if (putFields msg (bytesOf a) (bytesOf b) (bytesOf c)).length + 12 > 384 then
        []
      else
        [Cobs.encode (putFields msg (bytesOf a) (bytesOf b) (bytesOf c) ++
          trailer u0 u1 u2) ++ [0]] := by
  have htrailer : leBytes u0 ++ leBytes u1 ++ leBytes u2 = trailer u0 u1 u2 := rfl
  have h0 : Filled 384 (header msg)
      ((Buffer.alloc 384).storeAll 0 [0x50, 0x54, 1, ptMsg msg]) 4 := by
    rw [ptMsg_eq]
    exact (Filled.alloc 384).append (header msg) (by simp)
  have hc := putStr_filled (putStr_filled (putStr_filled h0 a) b) c
  change Filled 384 (putFields msg (bytesOf a) (bytesOf b) (bytesOf c)) _ _ at hc
  rw [← hc.pos_eq]
  unfold emitMsg
  dsimp only
  rw [htrailer]
  split_ifs with hroom
  · rfl
  · have hall := hc.append (trailer u0 u1 u2) (by rw [trailer_length]; omega)
    rw [trailer_length] at hall
    have hlen := hall.pos_eq
    rw [hall.take_mem, emitFrame_eq (by omega)]

/-- A message whose payload fits is sent in one piece. -/
theorem emitMsg_fits (msg : MsgType) (a b c : Option CStr) (u0 u1 u2 : UInt32)
    (h : (Slots.mk msg (bytesOf a) (bytesOf b) (bytesOf c) u0 u1 u2).size ≤ 384) :
    emitMsg msg a b c u0 u1 u2 =
      [(Slots.mk msg (bytesOf a) (bytesOf b) (bytesOf c) u0 u1 u2).frame] := by
  simp only [Slots.size] at h
  have ha : putField 384 (header msg) (bytesOf a) =
      header msg ++ strField (bytesOf a) :=
    putField_fits (by simp only [header_length, strField_length]; omega)
  have hb : putField 384 (header msg ++ strField (bytesOf a)) (bytesOf b) =
      header msg ++ strField (bytesOf a) ++ strField (bytesOf b) :=
    putField_fits (by
      simp only [List.length_append, header_length, strField_length]
      omega)
  have hc : putField 384 (header msg ++ strField (bytesOf a) ++
      strField (bytesOf b)) (bytesOf c) = header msg ++ strField (bytesOf a) ++
        strField (bytesOf b) ++ strField (bytesOf c) :=
    putField_fits (by
      simp only [List.length_append, header_length, strField_length]
      omega)
  rw [emitMsg_eq, putFields, ha, hb, hc, if_neg]
  · rfl
  · simp only [List.length_append, header_length, strField_length]
    omega

/-! ## The two encoders -/

/-- The C string that the harness has for a string of an event. -/
def cStr (s : Str) : CStr := CStr.ofBytes (Utf8.encode s)

/-- The harness call that emits an event.  There is none for a `log`. -/
def emitEvent : Event → List (List UInt8)
  | .suiteStart name => emitSuiteStart (some (cStr name))
  | .caseStart suite name => emitCaseStart (some (cStr suite)) (cStr name)
  | .assertFail suite name _ line message =>
      emitAssertFail (some (cStr suite)) (cStr name) (cStr message) line
  | .caseEnd suite name status =>
      emitCaseEnd (some (cStr suite)) (cStr name) status
  | .suiteEnd name passed failed skipped =>
      emitSuiteEnd (some (cStr name)) passed failed skipped
  | .log _ => []
  | .done passed failed skipped => emitDone passed failed skipped

/-- Whether an event is a `log`. -/
def isLog : Event → Bool
  | .log _ => true
  | _ => false

theorem bytesOf_cStr {s : Str} (h : '\x00' ∉ s) :
    bytesOf (some (cStr s)) = Utf8.encode s := by
  exact CStr.ofBytes_bytes (Utf8.zero_not_mem_encode h)

/-- The harness and the host encoder send the same bytes, in one call of the
writer, for every event that fits the buffer of the harness. -/
theorem emitEvent_eq_encode {e : Event} (hlog : isLog e = false)
    (hnul : ∀ s ∈ e.strings, '\x00' ∉ s) (hfit : (slots e).size ≤ 384) :
    emitEvent e = [CobsCodec.encode e] := by
  have hnone : bytesOf none = [] := rfl
  rw [encode_eq_frame]
  cases e with
  | suiteStart name =>
    have hname := bytesOf_cStr (hnul name (by simp [Event.strings]))
    have hemit := emitMsg_fits .suiteStart (some (cStr name)) none none 0 0 0
    rw [hname, hnone] at hemit
    exact hemit hfit
  | caseStart suite name =>
    have hsuite := bytesOf_cStr (hnul suite (by simp [Event.strings]))
    have hname := bytesOf_cStr (hnul name (by simp [Event.strings]))
    have hemit := emitMsg_fits .caseStart (some (cStr suite)) (some (cStr name))
      none 0 0 0
    rw [hsuite, hname, hnone] at hemit
    exact hemit hfit
  | assertFail suite name file line message =>
    have hsuite := bytesOf_cStr (hnul suite (by simp [Event.strings]))
    have hname := bytesOf_cStr (hnul name (by simp [Event.strings]))
    have hmessage := bytesOf_cStr (hnul message (by simp [Event.strings]))
    have hemit := emitMsg_fits .assertFail (some (cStr suite)) (some (cStr name))
      (some (cStr message)) line 0 0
    rw [hsuite, hname, hmessage] at hemit
    exact hemit hfit
  | caseEnd suite name status =>
    have hsuite := bytesOf_cStr (hnul suite (by simp [Event.strings]))
    have hname := bytesOf_cStr (hnul name (by simp [Event.strings]))
    have hstatus : ptStatus status = statusCode status := by cases status <;> rfl
    have hemit := emitMsg_fits .caseEnd (some (cStr suite)) (some (cStr name))
      none (statusCode status) 0 0
    rw [hsuite, hname, hnone] at hemit
    rw [emitEvent, emitCaseEnd, hstatus]
    exact hemit hfit
  | suiteEnd name passed failed skipped =>
    have hname := bytesOf_cStr (hnul name (by simp [Event.strings]))
    have hemit := emitMsg_fits .suiteEnd (some (cStr name)) none none passed
      failed skipped
    rw [hname, hnone] at hemit
    exact hemit hfit
  | log message => simp [isLog] at hlog
  | done passed failed skipped =>
    exact emitMsg_fits .done none none none passed failed skipped hfit

/-- A case name in a suite, with a character of several bytes. -/
theorem emitEvent_eq_encode_caseStart :
    emitEvent (.caseStart ['M', 'a', 't', 'h'] ['é', '.', 'a']) =
      [CobsCodec.encode (.caseStart ['M', 'a', 't', 'h'] ['é', '.', 'a'])] :=
  emitEvent_eq_encode rfl (by decide) (by decide)

/-! ## What the host reads -/

/-- The answer of a fresh codec to one frame. -/
theorem decodeFeed_frame (body : List UInt8) :
    (CobsCodec.decodeFeed .new (Cobs.encode body ++ [0])).2 =
      (decodePayload body).map Option.toList := by
  have hne : Cobs.encode body ≠ [] := Cobs.encodeFrom_ne_nil [] body
  have hframe := Delimited.drain_frame 0 CobsCodec.decodeFrame
    (Cobs.zero_not_mem_encode body) [] []
  have hdecode : CobsCodec.decodeFrame (Cobs.encode body) =
      (decodePayload body).map Option.toList := by
    unfold CobsCodec.decodeFrame
    rw [if_neg hne, cobsDecode_eq, Cobs.decode_encode]
    rfl
  unfold CobsCodec.decodeFeed CobsCodec.new
  dsimp only
  rw [List.nil_append, hframe, hdecode]
  cases decodePayload body <;> rfl

/-- A message that does not fit loses a string or is lost as a whole. -/
theorem putFields_large {msg : MsgType} {a b c : List UInt8}
    (h : 384 < 4 + 3 + 12 + (min 255 a.length + min 255 b.length +
      min 255 c.length)) :
    384 < (putFields msg a b c).length + 12 ∨
      (∃ x y, putFields msg a b c = header msg ++ strField x ++ strField y) ∨
      ∃ x, putFields msg a b c = header msg ++ strField x := by
  have ha : putField 384 (header msg) a = header msg ++ strField a :=
    putField_fits (by simp only [header_length, strField_length]; omega)
  rw [putFields, ha]
  -- the first string always fits; the split is on the other two
  by_cases hb : (header msg ++ strField a).length + (strField b).length ≤ 384
  · rw [putField_fits hb]
    by_cases hc : (header msg ++ strField a ++ strField b).length +
        (strField c).length ≤ 384
    · rw [putField_fits hc]
      refine Or.inl ?_
      simp only [List.length_append, header_length, strField_length]
      omega
    · rw [putField_skip (s := c) (by omega)]
      exact Or.inr (Or.inl ⟨a, b, rfl⟩)
  · rw [putField_skip (s := b) (by omega)]
    by_cases hc : (header msg ++ strField a).length + (strField c).length ≤ 384
    · rw [putField_fits hc]
      exact Or.inr (Or.inl ⟨a, c, rfl⟩)
    · rw [putField_skip (s := c) (by omega)]
      exact Or.inr (Or.inr ⟨a, rfl⟩)

theorem map_ne_ok {α β ε : Type} {x : Except ε α} (h : ∀ r, x ≠ .ok r)
    (f : α → β) (y : β) : x.map f ≠ .ok y := by
  intro hy
  cases x with
  | ok r => exact h r rfl
  | error e => cases hy

/-- The host gets no event from a message that does not fit. -/
theorem decodeFeed_emitMsg_large {msg : MsgType} {a b c : Option CStr}
    (u0 u1 u2 : UInt32)
    (h : 384 < 4 + 3 + 12 + (min 255 (bytesOf a).length +
      min 255 (bytesOf b).length + min 255 (bytesOf c).length)) (e : Event)
    (more : List Event) :
    (CobsCodec.decodeFeed .new (emitMsg msg a b c u0 u1 u2).flatten).2 ≠
      .ok (e :: more) := by
  rw [emitMsg_eq]
  split_ifs with hroom
  · intro hok
    cases hok
  · rw [List.flatten_singleton, decodeFeed_frame]
    rcases putFields_large h with hlarge | ⟨x, y, hxy⟩ | ⟨x, hx⟩
    · exact absurd hlarge (by omega)
    · rw [hxy]
      exact map_ne_ok (decodePayload_twoStrings msg x y u0 u1 u2) _ _
    · rw [hx]
      exact map_ne_ok (decodePayload_oneString msg x u0 u1 u2) _ _

/-- The text of an ASCII argument, cut to the 255 bytes of a string field. -/
def cut (s : Option CStr) : Str := ((bytesOf s).take 255).map Utf8.asciiChar

theorem lossy_cut {s : Option CStr} (h : Utf8.IsAscii (bytesOf s)) :
    Utf8.lossy ((bytesOf s).take 255) = cut s :=
  Utf8.lossy_ascii fun b hb => h b (List.mem_of_mem_take hb)

/-- The host reads a message of the harness as its event exactly when the
payload fits the buffer of `emit_msg`. -/
theorem decodeFeed_emitMsg_iff (msg : MsgType) (a b c : Option CStr)
    (u0 u1 u2 : UInt32) (ha : Utf8.IsAscii (bytesOf a))
    (hb : Utf8.IsAscii (bytesOf b)) (hc : Utf8.IsAscii (bytesOf c)) :
    (CobsCodec.decodeFeed .new (emitMsg msg a b c u0 u1 u2).flatten).2 =
        .ok [eventOf msg (cut a) (cut b) (cut c) u0 u1 u2] ↔
      4 + 3 + 12 + (min 255 (bytesOf a).length + min 255 (bytesOf b).length +
        min 255 (bytesOf c).length) ≤ 384 := by
  constructor
  · intro hok
    by_contra hlarge
    exact decodeFeed_emitMsg_large u0 u1 u2 (by omega) _ [] hok
  · intro hfit
    rw [emitMsg_fits msg a b c u0 u1 u2 hfit, List.flatten_singleton, Slots.frame,
      decodeFeed_frame, decodePayload_layout, Slots.event, lossy_cut ha,
      lossy_cut hb, lossy_cut hc]
    rfl

/-- A short message, with one argument absent. -/
theorem decodeFeed_emitMsg_caseStart :
    (CobsCodec.decodeFeed .new
      (emitMsg .caseStart (some (CStr.lit "Math")) (some (CStr.lit "ops.add"))
        none 0 0 0).flatten).2 =
      .ok [eventOf .caseStart (cut (some (CStr.lit "Math")))
        (cut (some (CStr.lit "ops.add"))) (cut none) 0 0 0] :=
  (decodeFeed_emitMsg_iff .caseStart _ _ none 0 0 0 (by decide) (by decide)
    (by decide)).mpr (by decide)

/-- A string of `n` equal bytes. -/
def repeated (n : Nat) (b : UInt8) : CStr := CStr.ofBytes (List.replicate n b)

/-- A failure in a suite and a case with names of 100 bytes, with a message of
255 bytes.  The message is left out, and the host takes the line number 42 for
the length of a string. -/
theorem decodeFeed_emitMsg_longFail :
    Utf8.IsAscii (repeated 100 0x73).bytes ∧ Utf8.IsAscii (repeated 100 0x6E).bytes ∧
      Utf8.IsAscii (repeated 255 0x6D).bytes ∧
      (CobsCodec.decodeFeed .new
        (emitMsg .assertFail (some (repeated 100 0x73)) (some (repeated 100 0x6E))
          (some (repeated 255 0x6D)) 42 0 0).flatten).2 =
        .error (.codec "truncated str") := by
  refine ⟨by decide +kernel, by decide +kernel, by decide +kernel, ?_⟩
  rw [emitMsg_eq, if_neg (by decide +kernel), List.flatten_singleton,
    decodeFeed_frame]
  decide +kernel

end PolyOnTest.Wire
