import PolyOnTest.Builtins.CobsCodec

/-!
# The layout of a payload

The payload of every PTWP message has one layout: four header bytes, three
length-prefixed strings of at most 255 bytes and three little-endian numbers.
`Slots` is a message before serialization, with its strings as bytes, and
`Slots.layout` is its payload.  The harness and the host meet at this layout:
`encodePayload_eq` says that the host writes it, and `decodePayload_layout`
says what the host reads from it.

The last group is about payloads with a string missing.  The host rejects each
of them (`decodePayload_twoStrings`, `decodePayload_oneString`), because the
decoder then takes the first number for the length of a string and runs out of
bytes.
-/

namespace PolyOnTest.Wire

open CodeLib PolyOnTest.Builtins

/-- A message: its type, three strings as bytes, and three numbers. -/
structure Slots where
  msg : MsgType
  a : List UInt8
  b : List UInt8
  c : List UInt8
  u0 : UInt32
  u1 : UInt32
  u2 : UInt32
  deriving DecidableEq, Repr

/-- A length byte and at most 255 bytes. -/
def strField (bytes : List UInt8) : List UInt8 :=
  UInt8.ofNat (min bytes.length 255) :: bytes.take 255

/-- The four bytes in front of the strings. -/
def header (msg : MsgType) : List UInt8 := ptwpMagic ++ [ptwpVersion, msg.toU8]

/-- The three numbers. -/
def trailer (u0 u1 u2 : UInt32) : List UInt8 :=
  toLeBytes u0 ++ toLeBytes u1 ++ toLeBytes u2

/-- The payload of a message. -/
def Slots.layout (m : Slots) : List UInt8 :=
  header m.msg ++ strField m.a ++ strField m.b ++ strField m.c ++
    trailer m.u0 m.u1 m.u2

/-- The number of bytes that the payload takes. -/
def Slots.size (m : Slots) : Nat :=
  4 + 3 + 12 + (min 255 m.a.length + min 255 m.b.length + min 255 m.c.length)

/-- The event that a message stands for on the host. -/
def Slots.event (m : Slots) : Event :=
  eventOf m.msg (Utf8.lossy (m.a.take 255)) (Utf8.lossy (m.b.take 255))
    (Utf8.lossy (m.c.take 255)) m.u0 m.u1 m.u2

/-- The slots that an event fills.  The file of an `assertFail` has none. -/
def slots : Event → Slots
  | .suiteStart name => ⟨.suiteStart, Utf8.encode name, [], [], 0, 0, 0⟩
  | .caseStart suite name =>
      ⟨.caseStart, Utf8.encode suite, Utf8.encode name, [], 0, 0, 0⟩
  | .assertFail suite name _ line message =>
      ⟨.assertFail, Utf8.encode suite, Utf8.encode name, Utf8.encode message,
        line, 0, 0⟩
  | .caseEnd suite name status =>
      ⟨.caseEnd, Utf8.encode suite, Utf8.encode name, [], statusCode status, 0, 0⟩
  | .suiteEnd name passed failed skipped =>
      ⟨.suiteEnd, Utf8.encode name, [], [], passed, failed, skipped⟩
  | .log message => ⟨.log, Utf8.encode message, [], [], 0, 0, 0⟩
  | .done passed failed skipped => ⟨.done, [], [], [], passed, failed, skipped⟩

@[simp] theorem header_length (msg : MsgType) : (header msg).length = 4 := rfl

@[simp] theorem trailer_length (u0 u1 u2 : UInt32) :
    (trailer u0 u1 u2).length = 12 := rfl

@[simp] theorem strField_length (bytes : List UInt8) :
    (strField bytes).length = 1 + min 255 bytes.length := by
  simp [strField, Nat.add_comm]

/-! ## The host writes the layout -/

theorem pushStr_eq (buf : List UInt8) (s : Str) :
    pushStr buf s = buf ++ strField (Utf8.encode s) := by
  have htake : (Utf8.encode s).take (min (Utf8.encode s).length 255) =
      (Utf8.encode s).take 255 := by
    rw [Nat.min_comm, ← List.take_take, List.take_of_length_le (Nat.le_refl _)]
  simp [pushStr, strField, htake]

theorem pushU32s_eq (buf : List UInt8) (u0 u1 u2 : UInt32) :
    pushU32s buf u0 u1 u2 = buf ++ trailer u0 u1 u2 := by
  simp [pushU32s, trailer]

theorem payload_eq (msg : MsgType) (a b c : Str) (u0 u1 u2 : UInt32) :
    payload msg a b c u0 u1 u2 =
      Slots.layout ⟨msg, Utf8.encode a, Utf8.encode b, Utf8.encode c, u0, u1, u2⟩ := by
  rw [payload, pushU32s_eq, pushStr_eq, pushStr_eq, pushStr_eq]
  rfl

/-- `encode_payload` is the layout of the slots of the event. -/
theorem encodePayload_eq (e : Event) : encodePayload e = (slots e).layout := by
  cases e <;> exact payload_eq ..

/-! ## The host reads the layout -/

theorem fromLeBytes_toLeBytes (v : UInt32) : fromLeBytes (toLeBytes v) = v := by
  have hv := v.toNat_lt
  have h8 : (v >>> 8).toNat = v.toNat / 2 ^ 8 := by
    rw [UInt32.toNat_shiftRight, Nat.shiftRight_eq_div_pow]
    rfl
  have h16 : (v >>> 16).toNat = v.toNat / 2 ^ 16 := by
    rw [UInt32.toNat_shiftRight, Nat.shiftRight_eq_div_pow]
    rfl
  have h24 : (v >>> 24).toNat = v.toNat / 2 ^ 24 := by
    rw [UInt32.toNat_shiftRight, Nat.shiftRight_eq_div_pow]
    rfl
  apply UInt32.toNat_inj.mp
  simp only [toLeBytes, fromLeBytes, UInt32.toNat_ofNat', UInt32.toNat_toUInt8,
    h8, h16, h24]
  omega

/-- A position in front of a string field. -/
theorem readStr_field (pre bytes rest : List UInt8) :
    readStr (pre ++ strField bytes ++ rest) pre.length =
      .ok (Utf8.lossy (bytes.take 255), (pre ++ strField bytes).length) := by
  have hn : (UInt8.ofNat (min bytes.length 255)).toNat = min bytes.length 255 := by
    rw [UInt8.toNat_ofNat']
    omega
  have hget : (pre ++ strField bytes ++ rest).getD pre.length 0 =
      UInt8.ofNat (min bytes.length 255) := by
    simp [strField]
  have hdrop : (pre ++ strField bytes ++ rest).drop (pre.length + 1) =
      bytes.take 255 ++ rest := by
    rw [← List.drop_drop, List.append_assoc, List.drop_left, strField]
    rfl
  rw [readStr, if_neg (by simp [strField])]
  simp only [hget, hn, hdrop]
  rw [if_neg (by simp only [List.length_append, strField_length]; omega)]
  have htake : (bytes.take 255 ++ rest).take (min bytes.length 255) =
      bytes.take 255 := by
    rw [List.take_append_of_le_length (by simp), List.take_of_length_le (by simp)]
  rw [htake]
  simp only [List.length_append, strField_length, Except.ok.injEq, Prod.mk.injEq,
    true_and]
  omega

/-- A position in front of a number. -/
theorem readU32_field (pre rest : List UInt8) (v : UInt32) :
    readU32 (pre ++ toLeBytes v ++ rest) pre.length =
      .ok (v, (pre ++ toLeBytes v).length) := by
  have hlen : (toLeBytes v).length = 4 := rfl
  have htake : ((pre ++ toLeBytes v ++ rest).drop pre.length).take 4 =
      toLeBytes v := by
    rw [List.append_assoc, List.drop_left, ← hlen, List.take_left]
  rw [readU32, if_neg (by simp only [List.length_append, hlen]; omega), htake,
    fromLeBytes_toLeBytes]
  simp [hlen]

/-- The part of `decode_payload` behind the header. -/
def readBody (msg : MsgType) (data : List UInt8) :
    Except PluginError (Option Event) := do
  let (a, pos) ← readStr data 4
  let (b, pos) ← readStr data pos
  let (c, pos) ← readStr data pos
  let (u0, pos) ← readU32 data pos
  let (u1, pos) ← readU32 data pos
  let (u2, _) ← readU32 data pos
  .ok (some (eventOf msg a b c u0 u1 u2))

/-- Behind a good header the decoder reads the body. -/
theorem decodePayload_header (msg : MsgType) (body : List UInt8) :
    decodePayload (header msg ++ body) = readBody msg (header msg ++ body) := by
  have hlen : ¬ (header msg ++ body).length < 4 := by simp
  have hmagic : (header msg ++ body).take 2 = ptwpMagic := rfl
  have hversion : (header msg ++ body).getD 2 0 = ptwpVersion := rfl
  have htag : (header msg ++ body).getD 3 0 = msg.toU8 := rfl
  rw [decodePayload, if_neg, htag, MsgType.fromU8_toU8]
  · rfl
  · rintro (h | h | h)
    · exact hlen h
    · exact h hmagic
    · exact h hversion

/-- The host reads the layout of a message as its event. -/
theorem decodePayload_layout (m : Slots) :
    decodePayload m.layout = .ok (some m.event) := by
  have ha := readStr_field (header m.msg) m.a
    (strField m.b ++ strField m.c ++ trailer m.u0 m.u1 m.u2)
  have hb := readStr_field (header m.msg ++ strField m.a) m.b
    (strField m.c ++ trailer m.u0 m.u1 m.u2)
  have hc := readStr_field (header m.msg ++ strField m.a ++ strField m.b) m.c
    (trailer m.u0 m.u1 m.u2)
  have h0 := readU32_field
    (header m.msg ++ strField m.a ++ strField m.b ++ strField m.c)
    (toLeBytes m.u1 ++ toLeBytes m.u2) m.u0
  have h1 := readU32_field
    (header m.msg ++ strField m.a ++ strField m.b ++ strField m.c ++
      toLeBytes m.u0) (toLeBytes m.u2) m.u1
  have h2 := readU32_field
    (header m.msg ++ strField m.a ++ strField m.b ++ strField m.c ++
      toLeBytes m.u0 ++ toLeBytes m.u1) [] m.u2
  have hlayout : m.layout = header m.msg ++ (strField m.a ++ strField m.b ++
      strField m.c ++ trailer m.u0 m.u1 m.u2) := by
    simp [Slots.layout]
  rw [hlayout, decodePayload_header, ← hlayout, readBody]
  simp only [Slots.layout, trailer, List.append_assoc, List.append_nil,
    header_length] at ha hb hc h0 h1 h2 ⊢
  simp only [ha, hb, hc, h0, h1, h2, bind, Except.bind, Slots.event]

/-! ## Payloads with a string missing -/

theorem readStr_pos {data : List UInt8} {pos pos' : Nat} {s : Str}
    (h : readStr data pos = .ok (s, pos')) : pos < pos' ∧ pos' ≤ data.length := by
  rw [readStr] at h
  split_ifs at h with h1
  simp only at h
  split_ifs at h with h2
  simp only [Except.ok.injEq, Prod.mk.injEq] at h
  omega

theorem readU32_pos {data : List UInt8} {pos pos' : Nat} {v : UInt32}
    (h : readU32 data pos = .ok (v, pos')) :
    pos' = pos + 4 ∧ pos' ≤ data.length := by
  rw [readU32] at h
  split_ifs at h with h1
  simp only [Except.ok.injEq, Prod.mk.injEq] at h
  omega

/-- A body that reads well has room for three strings and three numbers. -/
theorem readBody_room {msg : MsgType} {data : List UInt8} {r : Option Event}
    (h : readBody msg data = .ok r) :
    ∃ a b c p1 p2 p3, readStr data 4 = .ok (a, p1) ∧
      readStr data p1 = .ok (b, p2) ∧ readStr data p2 = .ok (c, p3) ∧
      p3 + 12 ≤ data.length := by
  simp only [readBody, bind, Except.bind] at h
  cases ha : readStr data 4 with
  | error e => simp [ha] at h
  | ok x =>
  cases hb : readStr data x.2 with
  | error e => simp [ha, hb] at h
  | ok y =>
  cases hc : readStr data y.2 with
  | error e => simp [ha, hb, hc] at h
  | ok z =>
  cases h0 : readU32 data z.2 with
  | error e => simp [ha, hb, hc, h0] at h
  | ok v0 =>
  cases h1 : readU32 data v0.2 with
  | error e => simp [ha, hb, hc, h0, h1] at h
  | ok v1 =>
  cases h2 : readU32 data v1.2 with
  | error e => simp [ha, hb, hc, h0, h1, h2] at h
  | ok v2 =>
    have hp0 := readU32_pos h0
    have hp1 := readU32_pos h1
    have hp2 := readU32_pos h2
    exact ⟨x.1, y.1, z.1, x.2, y.2, z.2, rfl, hb, hc, by omega⟩

/-- A payload with two of the three strings is an error. -/
theorem decodePayload_twoStrings (msg : MsgType) (x y : List UInt8)
    (u0 u1 u2 : UInt32) (r : Option Event) :
    decodePayload (header msg ++ strField x ++ strField y ++ trailer u0 u1 u2) ≠
      .ok r := by
  intro h
  have hx := readStr_field (header msg) x (strField y ++ trailer u0 u1 u2)
  have hy := readStr_field (header msg ++ strField x) y (trailer u0 u1 u2)
  rw [List.append_assoc, List.append_assoc, decodePayload_header] at h
  obtain ⟨a, b, c, p1, p2, p3, ha, hb, hc, hroom⟩ := readBody_room h
  simp only [List.append_assoc, header_length] at hx hy ha hb hc hroom
  rw [hx, Except.ok.injEq, Prod.mk.injEq] at ha
  rw [← ha.2, hy, Except.ok.injEq, Prod.mk.injEq] at hb
  have hp := (readStr_pos hc).1
  simp only [List.length_append, trailer_length] at hroom hb
  omega

/-- A payload with one of the three strings is an error. -/
theorem decodePayload_oneString (msg : MsgType) (x : List UInt8)
    (u0 u1 u2 : UInt32) (r : Option Event) :
    decodePayload (header msg ++ strField x ++ trailer u0 u1 u2) ≠ .ok r := by
  intro h
  have hx := readStr_field (header msg) x (trailer u0 u1 u2)
  rw [List.append_assoc, decodePayload_header] at h
  obtain ⟨a, b, c, p1, p2, p3, ha, hb, hc, hroom⟩ := readBody_room h
  simp only [List.append_assoc, header_length] at hx ha hb hc hroom
  rw [hx, Except.ok.injEq, Prod.mk.injEq] at ha
  have hp := (readStr_pos hb).1
  have hp' := (readStr_pos hc).1
  simp only [List.length_append, trailer_length] at hroom ha
  omega

end PolyOnTest.Wire
