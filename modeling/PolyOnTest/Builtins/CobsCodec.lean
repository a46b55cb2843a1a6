import PolyOnTest.CodeLib.Cobs
import PolyOnTest.CodeLib.Delimited
import PolyOnTest.Protocol

/-!
# The COBS codec of the host

`CobsCodec` of `polyontest-builtins`: the PTWP payload of an event, the COBS
frame around it, and the decoder that collects bytes until a zero byte ends a
frame.

The two byte-stuffing functions are the loops of the source.  `cobsEncode`
writes a code byte for each block after the fact, at `codeIndex`, and
`cobsDecodeLoop` walks the blocks.  `cobsEncode_eq` and `cobsDecode_eq` reduce
them to `CodeLib.Cobs`.
-/

namespace PolyOnTest.Builtins

open CodeLib

/-! ## Byte stuffing -/

/-- The locals of the loop of `cobs_encode`. -/
structure Encoder where
  out : List UInt8
  codeIndex : Nat
  code : UInt8

/-- One byte of the loop of `cobs_encode`. -/
def Encoder.push (s : Encoder) (b : UInt8) : Encoder :=
  if b = 0 then
    { out := s.out.set s.codeIndex s.code ++ [0]
      codeIndex := s.out.length
      code := 1 }
  else if s.code + 1 = 0xFF then
    { out := (s.out ++ [b]).set s.codeIndex (s.code + 1) ++ [0]
      codeIndex := s.out.length + 1
      code := 1 }
  else
    { out := s.out ++ [b]
      codeIndex := s.codeIndex
      code := s.code + 1 }

/-- `cobs_encode`. -/
def cobsEncode (input : List UInt8) : List UInt8 :=
  let s := input.foldl Encoder.push { out := [0], codeIndex := 0, code := 1 }
  s.out.set s.codeIndex s.code ++ [0]

/-- The zero byte that a block adds, with `rest` the input behind it. -/
def blockZero (code : UInt8) (rest : List UInt8) : List UInt8 :=
  if code ≠ 0xFF ∧ rest ≠ [] then [0] else []

/-- The `while i < input.len()` loop of `cobs_decode`, with the bytes from `i`
on as its first argument. -/
def cobsDecodeLoop : List UInt8 → List UInt8 → Except String (List UInt8)
  | [], out => .ok out
  | code :: rest, out =>
      if code = 0 then .error "zero code"
      else if rest.length < code.toNat - 1 then .error "overrun"
      else
        cobsDecodeLoop (rest.drop (code.toNat - 1))
          (out ++ rest.take (code.toNat - 1) ++
            blockZero code (rest.drop (code.toNat - 1)))
termination_by input => input.length
decreasing_by
  rw [List.length_drop, List.length_cons]
  exact Nat.lt_succ_of_le (Nat.sub_le ..)

/-- `cobs_decode`. -/
def cobsDecode (input : List UInt8) : Except String (List UInt8) :=
  cobsDecodeLoop input []

/-- The state of the loop between two bytes: whole blocks in `front`, then the
code byte to patch, then the bytes of the open block. -/
structure Encoder.At (front run : List UInt8) (s : Encoder) : Prop where
  out_eq : s.out = front ++ 0 :: run
  codeIndex_eq : s.codeIndex = front.length
  code_eq : s.code = Cobs.codeOf run
  length_run : run.length ≤ 253

theorem Encoder.At.out_set {front run : List UInt8} {s : Encoder}
    (h : s.At front run) (v : UInt8) :
    s.out.set s.codeIndex v = front ++ v :: run := by
  rw [h.out_eq, h.codeIndex_eq, List.set_append_right _ _ (Nat.le_refl _)]
  simp

/-- A zero byte closes the open block. -/
theorem Encoder.At.push_zero {front run : List UInt8} {s : Encoder}
    (h : s.At front run) :
    (s.push 0).At (front ++ Cobs.codeOf run :: run) [] := by
  rw [Encoder.push, if_pos rfl]
  refine ⟨?_, ?_, rfl, by simp⟩
  · rw [h.out_set, h.code_eq]
  · simp [h.out_eq]

/-- The 254th byte closes the open block with the code `0xFF`. -/
theorem Encoder.At.push_full {front run : List UInt8} {s : Encoder}
    (h : s.At front run) {b : UInt8} (hb : b ≠ 0) (hfull : run.length = 253) :
    (s.push b).At (front ++ 0xFF :: (run ++ [b])) [] := by
  have hcode : s.code + 1 = 0xFF := by
    rw [h.code_eq, ← Cobs.codeOf_append_singleton run b,
      Cobs.codeOf_full (by simp [hfull])]
  have hset : (s.out ++ [b]).set s.codeIndex 0xFF =
      front ++ 0xFF :: (run ++ [b]) := by
    rw [List.set_append_left _ _ (by simp [h.out_eq, h.codeIndex_eq]), h.out_set]
    simp
  rw [Encoder.push, if_neg hb, if_pos hcode, hcode, hset]
  exact ⟨rfl, by simp [h.out_eq, Nat.add_assoc], rfl, by simp⟩

/-- Any other byte goes into the open block. -/
theorem Encoder.At.push_other {front run : List UInt8} {s : Encoder}
    (h : s.At front run) {b : UInt8} (hb : b ≠ 0) (hroom : run.length ≠ 253) :
    (s.push b).At front (run ++ [b]) := by
  have hlen : (run ++ [b]).length ≤ 253 := by
    have := h.length_run
    simp
    omega
  have hcode : s.code + 1 = Cobs.codeOf (run ++ [b]) := by
    rw [h.code_eq, Cobs.codeOf_append_singleton]
  have hne : s.code + 1 ≠ 0xFF := by
    rw [hcode]
    exact Cobs.codeOf_ne_full hlen
  rw [Encoder.push, if_neg hb, if_neg hne]
  exact ⟨by simp [h.out_eq], h.codeIndex_eq, hcode, hlen⟩

/-- What the rest of the loop and the two statements behind it write. -/
theorem Encoder.At.finish {front run : List UInt8} {s : Encoder}
    (h : s.At front run) (input : List UInt8) :
    (input.foldl push s).out.set (input.foldl push s).codeIndex
        (input.foldl push s).code =
      front ++ Cobs.encodeFrom run input := by
  induction input generalizing front run s with
  | nil => rw [List.foldl_nil, h.out_set, h.code_eq, Cobs.encodeFrom]
  | cons b input ih =>
      rw [List.foldl_cons, Cobs.encodeFrom]
      split_ifs with hb hfull
      · subst hb
        rw [ih h.push_zero]
        simp
      · rw [ih (h.push_full hb hfull)]
        simp
      · exact ih (h.push_other hb hfull)

/-- The encoder writes the abstract frame and the delimiter. -/
theorem cobsEncode_eq (input : List UInt8) :
    cobsEncode input = Cobs.encode input ++ [0] := by
  have h : Encoder.At [] [] { out := [0], codeIndex := 0, code := 1 } :=
    ⟨rfl, rfl, rfl, by simp⟩
  rw [cobsEncode, h.finish input, List.nil_append, Cobs.encode]

/-- The text of a decoding failure. -/
def decodeErrorText : Cobs.DecodeError → String
  | .zeroCode => "zero code"
  | .overrun => "overrun"

theorem cobsDecodeLoop_eq (input out : List UInt8) :
    cobsDecodeLoop input out =
      match Cobs.decode input with
      | .ok x => .ok (out ++ x)
      | .error e => .error (decodeErrorText e) := by
  induction input, out using cobsDecodeLoop.induct with
  | case1 out => simp [cobsDecodeLoop]
  | case2 rest out => simp [cobsDecodeLoop, Cobs.decode, decodeErrorText]
  | case3 code rest out h0 hlt =>
      rw [cobsDecodeLoop, Cobs.decode]
      simp only [h0, hlt, if_true, if_false, decodeErrorText]
  | case4 code rest out h0 hlt ih =>
      rw [cobsDecodeLoop, if_neg h0, if_neg hlt, Cobs.decode, if_neg h0,
        if_neg hlt, ih]
      cases Cobs.decode (rest.drop (code.toNat - 1)) with
      | error e => simp only [Except.map]
      | ok tail =>
        simp only [Except.map, blockZero]
        split_ifs <;> simp

/-- The decoder reads the abstract frame. -/
theorem cobsDecode_eq (input : List UInt8) :
    cobsDecode input = (Cobs.decode input).mapError decodeErrorText := by
  rw [cobsDecode, cobsDecodeLoop_eq]
  cases Cobs.decode input <;> rfl

theorem cobsDecode_eq_ok {input x : List UInt8} :
    cobsDecode input = .ok x ↔ Cobs.decode input = .ok x := by
  rw [cobsDecode_eq]
  cases Cobs.decode input <;> simp [Except.mapError]

/-- The encoder and the decoder are inverse up to the empty block that the
encoder adds behind a full last block. -/
theorem cobs_inverse :
    (∀ x, ∃ body, cobsEncode x = body ++ [0] ∧ 0 ∉ body ∧ cobsDecode body = .ok x) ∧
    (∀ f p, f ≠ [] → 0 ∉ f → cobsDecode f = .ok p →
      cobsEncode p = if Cobs.lastCode f = some 0xFF then f ++ [1, 0] else f ++ [0]) ∧
    (∀ f g p, f ≠ [] → g ≠ [] → 0 ∉ f → 0 ∉ g → cobsDecode f = .ok p →
      cobsDecode g = .ok p → f ≠ g →
      (Cobs.lastCode f = some 0xFF ∧ g = f ++ [1]) ∨
        (Cobs.lastCode g = some 0xFF ∧ f = g ++ [1])) := by
  refine ⟨fun x => ?_, fun f p hf hf0 h => ?_, fun f g p hf hg hf0 hg0 h h' hne => ?_⟩
  · exact ⟨Cobs.encode x, cobsEncode_eq x, Cobs.zero_not_mem_encode x,
      cobsDecode_eq_ok.mpr (Cobs.decode_encode x)⟩
  · rw [cobsEncode_eq, Cobs.encode_decode hf hf0 (cobsDecode_eq_ok.mp h)]
    split_ifs <;> simp
  · exact Cobs.decode_eq_decode hf hg hf0 hg0 (cobsDecode_eq_ok.mp h)
      (cobsDecode_eq_ok.mp h') hne

/-- A frame of two blocks. -/
theorem cobs_inverse_twoBlocks : cobsEncode [7, 0, 8] = [2, 7, 2, 8, 0] := by
  have hdecode : cobsDecode [2, 7, 2, 8] = .ok [7, 0, 8] := by
    simp [cobsDecode, cobsDecodeLoop, blockZero]
  have hlast : Cobs.lastCode [2, 7, 2, 8] ≠ some 0xFF := by
    simp [Cobs.lastCode]
  rw [cobs_inverse.2.1 _ _ (by decide) (by decide) hdecode, if_neg hlast]
  rfl

/-! ## Payloads -/

/-- `u32::to_le_bytes`. -/
def toLeBytes (v : UInt32) : List UInt8 :=
  [v.toUInt8, (v >>> 8).toUInt8, (v >>> 16).toUInt8, (v >>> 24).toUInt8]

/-- `u32::from_le_bytes`. -/
def fromLeBytes : List UInt8 → UInt32
  | [b0, b1, b2, b3] =>
      UInt32.ofNat (b0.toNat + 2 ^ 8 * b1.toNat + 2 ^ 16 * b2.toNat +
        2 ^ 24 * b3.toNat)
  | _ => 0

/-- `push_str`. -/
def pushStr (buf : List UInt8) (s : Str) : List UInt8 :=
  let bytes := Utf8.encode s
  let n := min bytes.length 255
  buf ++ [UInt8.ofNat n] ++ bytes.take n

/-- `push_u32s`. -/
def pushU32s (buf : List UInt8) (a b c : UInt32) : List UInt8 :=
  [a, b, c].foldl (fun buf v => buf ++ toLeBytes v) buf

/-- The payload of a message: the magic, the version, the type, three strings
and three numbers.  `encode_payload` repeats this for each event. -/
def payload (msg : MsgType) (a b c : Str) (u0 u1 u2 : UInt32) : List UInt8 :=
  pushU32s
    (pushStr (pushStr (pushStr (ptwpMagic ++ [ptwpVersion] ++ [msg.toU8]) a) b) c)
    u0 u1 u2

/-- The number that stands for a status. -/
def statusCode : TestStatus → UInt32
  | .passed => 0
  | .failed => 1
  | .skipped => 2

/-- `encode_payload`. -/
def encodePayload : Event → List UInt8
  | .suiteStart name => payload .suiteStart name [] [] 0 0 0
  | .caseStart suite name => payload .caseStart suite name [] 0 0 0
  | .assertFail suite name _ line message =>
      payload .assertFail suite name message line 0 0
  | .caseEnd suite name status =>
      payload .caseEnd suite name [] (statusCode status) 0 0
  | .suiteEnd name passed failed skipped =>
      payload .suiteEnd name [] [] passed failed skipped
  | .log message => payload .log message [] [] 0 0 0
  | .done passed failed skipped => payload .done [] [] [] passed failed skipped

/-- `read_str`: the string at `at` and the position behind it. -/
def readStr (data : List UInt8) (pos : Nat) : Except PluginError (Str × Nat) :=
  if data.length ≤ pos then .error (.codec "truncated")
  else
    let n := (data.getD pos 0).toNat
    if data.length < pos + 1 + n then .error (.codec "truncated str")
    else .ok (Utf8.lossy ((data.drop (pos + 1)).take n), pos + 1 + n)

/-- `read_u32`: the number at `at` and the position behind it. -/
def readU32 (data : List UInt8) (pos : Nat) : Except PluginError (UInt32 × Nat) :=
  if data.length < pos + 4 then .error (.codec "truncated u32")
  else .ok (fromLeBytes ((data.drop pos).take 4), pos + 4)

/-- The status that a number stands for. -/
def statusOf (u0 : UInt32) : TestStatus :=
  if u0 = 0 then .passed else if u0 = 2 then .skipped else .failed

/-- The event of a message. -/
def eventOf (msg : MsgType) (a b c : Str) (u0 u1 u2 : UInt32) : Event :=
  match msg with
  | .suiteStart => .suiteStart a
  | .caseStart => .caseStart a b
  | .assertFail => .assertFail a b [] u0 c
  | .caseEnd => .caseEnd a b (statusOf u0)
  | .suiteEnd => .suiteEnd a u0 u1 u2
  | .log => .log a
  | .done => .done u0 u1 u2

/-- `decode_payload`. -/
def decodePayload (data : List UInt8) : Except PluginError (Option Event) :=
  if data.length < 4 ∨ data.take 2 ≠ ptwpMagic ∨ data.getD 2 0 ≠ ptwpVersion then
    .ok none
  else
    match MsgType.fromU8 (data.getD 3 0) with
    | none =>
        .error (.codec ("unknown msg type " ++ toString (data.getD 3 0).toNat))
    | some msg => do
        let (a, pos) ← readStr data 4
        let (b, pos) ← readStr data pos
        let (c, pos) ← readStr data pos
        let (u0, pos) ← readU32 data pos
        let (u1, pos) ← readU32 data pos
        let (u2, _) ← readU32 data pos
        .ok (some (eventOf msg a b c u0 u1 u2))

/-! ## The codec -/

/-- `CobsCodec`. -/
structure CobsCodec where
  buf : List UInt8
  deriving DecidableEq, Repr

namespace CobsCodec

/-- `CobsCodec::new`. -/
def new : CobsCodec := ⟨[]⟩

/-- `CobsCodec::encode`. -/
def encode (event : Event) : List UInt8 := cobsEncode (encodePayload event)

/-- The body of the loop of `decode_feed`: the events of one frame. -/
def decodeFrame (frame : List UInt8) : Except PluginError (List Event) :=
  if frame = [] then .ok []
  else
    match cobsDecode frame with
    | .error e => .error (.codec e)
    | .ok decoded => (decodePayload decoded).map Option.toList

/-- `CobsCodec::decode_feed`.  The `while let` loop takes one frame after the
other from the front of the buffer; a `?` leaves it with the rest of the
buffer in place. -/
def decodeFeed (codec : CobsCodec) (data : List UInt8) :
    CobsCodec × Except PluginError (List Event) :=
  let (rest, result) := Delimited.drain 0 decodeFrame [] (codec.buf ++ data) []
  (⟨rest⟩, result)

end CobsCodec

end PolyOnTest.Builtins
