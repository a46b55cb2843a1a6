import PolyOnTest.CodeLib.LongDivision
import PolyOnTest.Harness.Format

/-!
# Messages of the assertions

The bounded formatting of `polytest_assert.c`.  It has helpers of its own next
to those of the core: numbers have 64 bits, the decimal digits come from a
division by shifts and subtractions (`ptAsU64Div10`), and there is a hexadecimal
form.  `AsFrag` is one call of a helper.

Each helper keeps a terminated buffer terminated and adds its text to it, as
the helpers of the core do.  `Bounded` is what a reader of the buffer needs, and
`append_bounded` states it for every chain of calls of either family.  With room
for it a number is written exactly: `ptAs_decimal` is about the bytes of the
array, the ones around the text included.
-/

namespace PolyOnTest.Harness

open CodeLib CodeLib.CMemory

/-! ## The helpers -/

/-- `pt_as_append_str` -/
def ptAsAppendStr (cap : Nat) (buf : Buffer) (pos : Nat) (s : Option CStr) :
    Buffer × Nat :=
  appendStr cap buf pos s

/-- One round of `pt_as_u64_div10`, with `q` and `r`. -/
def div10Round (u : UInt64) (bit : Nat) (q r : UInt64) : UInt64 × UInt64 :=
  let r := (r <<< 1) ||| ((u >>> UInt64.ofNat bit) &&& 1)
  if 10 ≤ r then (q ||| (1 <<< UInt64.ofNat bit), r - 10) else (q, r)

/-- The rounds for the bits below `n`, from the high end. -/
def div10Rounds (u : UInt64) : Nat → UInt64 → UInt64 → UInt64 × UInt64
  | 0, q, r => (q, r)
  | n + 1, q, r => div10Rounds u n (div10Round u n q r).1 (div10Round u n q r).2

/-- `pt_as_u64_div10`: the new `*u` and `*digit`. -/
def ptAsU64Div10 (u : UInt64) : UInt64 × UInt32 :=
  ((div10Rounds u 64 0 0).1, (div10Rounds u 64 0 0).2.toUInt32)

/-- The loop of `pt_as_append_u64` that fills `tmp` from the low digit up. -/
def ptAsDigits : Nat → UInt64 → List UInt8
  | 0, _ => []
  | size + 1, u =>
      if u > 0 then
        (0x30 + (ptAsU64Div10 u).2.toUInt8) :: ptAsDigits size (ptAsU64Div10 u).1
      else []

/-- The scratch array `tmp` of `pt_as_append_u64`. -/
def ptAsScratch (u : UInt64) : List UInt8 :=
  if u = 0 then [0x30] else ptAsDigits 32 u

/-- `pt_as_append_u64` -/
def ptAsAppendU64 (cap : Nat) (buf : Buffer) (pos : Nat) (u : UInt64) : Buffer × Nat :=
  let (buf, pos) := appendLoop cap (ptAsScratch u).reverse buf pos
  (buf.store pos 0, pos)

/-- The magnitude `u` of `pt_as_append_i64`. -/
def ptAsMagnitude (v : Int64) : UInt64 :=
  if v < 0 then (-(v + 1)).toUInt64 + 1 else v.toUInt64

/-- `pt_as_append_i64` -/
def ptAsAppendI64 (cap : Nat) (buf : Buffer) (pos : Nat) (v : Int64) : Buffer × Nat :=
  let (buf, pos) :=
    if v < 0 ∧ pos + 1 < cap then ((buf.store pos 0x2D).store (pos + 1) 0, pos + 1)
    else (buf, pos)
  ptAsAppendU64 cap buf pos (ptAsMagnitude v)

/-- `digits[n]` -/
def hexDigit (n : Nat) : UInt8 := (Utf8.encode "0123456789ABCDEF".toList).getD n 0

/-- The digit for nibble `i`. -/
def nibbleDigit (u : UInt64) (i : Nat) : UInt8 :=
  hexDigit ((u >>> UInt64.ofNat (i * 4)) &&& 0xF).toNat

/-- The bounds that `pt_as_append_hex` puts on `nibbles`. -/
def clampNibbles (nibbles : Int32) : Nat :=
  if nibbles < 1 then 1 else if nibbles > 16 then 16 else nibbles.toInt.toNat

/-- The loop of `pt_as_append_hex`, from nibble `n - 1` down.  It goes on when
the buffer is full. -/
def hexLoop (cap : Nat) (u : UInt64) : Nat → Buffer → Nat → Buffer × Nat
  | 0, buf, pos => (buf, pos)
  | n + 1, buf, pos =>
      if pos + 1 < cap then hexLoop cap u n (buf.store pos (nibbleDigit u n)) (pos + 1)
      else hexLoop cap u n buf pos

/-- `pt_as_append_hex` -/
def ptAsAppendHex (cap : Nat) (buf : Buffer) (pos : Nat) (u : UInt64) (nibbles : Int32) :
    Buffer × Nat :=
  let (buf, pos) := ptAsAppendStr cap buf pos (some (CStr.lit "0x"))
  let (buf, pos) := hexLoop cap u (clampNibbles nibbles) buf pos
  (buf.store pos 0, pos)

/-- One call of a helper. -/
inductive AsFrag
  | str (s : Option CStr)
  | u64 (u : UInt64)
  | i64 (v : Int64)
  | hex (u : UInt64) (nibbles : Int32)

/-- The call. -/
def AsFrag.append (cap : Nat) (dst : Buffer × Nat) : AsFrag → Buffer × Nat
  | .str s => ptAsAppendStr cap dst.1 dst.2 s
  | .u64 u => ptAsAppendU64 cap dst.1 dst.2 u
  | .i64 v => ptAsAppendI64 cap dst.1 dst.2 v
  | .hex u nibbles => ptAsAppendHex cap dst.1 dst.2 u nibbles

/-- A local buffer of `cap` bytes and a chain of calls on it. -/
def asBuild (cap : Nat) (frags : List AsFrag) : Buffer :=
  (frags.foldl (AsFrag.append cap) (Buffer.alloc cap, 0)).1

/-! ## Texts of the calls -/

/-- The hexadecimal digits of the `n` low nibbles. -/
def hexDigits (u : UInt64) : Nat → List UInt8
  | 0 => []
  | n + 1 => nibbleDigit u n :: hexDigits u n

/-- The text that a call adds to an unbounded buffer. -/
def AsFrag.text : AsFrag → List UInt8
  | .str none => []
  | .str (some s) => s.bytes
  | .u64 u => Decimal.numeral u.toNat
  | .i64 v => intText v.toInt
  | .hex u nibbles => (CStr.lit "0x").bytes ++ hexDigits u (clampNibbles nibbles)

theorem hexDigit_ne_zero {n : Nat} (h : n < 16) : hexDigit n ≠ 0 := by
  have hall : ∀ m : Fin 16, hexDigit m.val ≠ 0 := by decide
  exact hall ⟨n, h⟩

theorem zero_not_mem_hexDigits (u : UInt64) (n : Nat) : 0 ∉ hexDigits u n := by
  induction n with
  | zero => simp [hexDigits]
  | succ n ih =>
      have hnibble : ((u >>> UInt64.ofNat (n * 4)) &&& 0xF).toNat < 16 := by
        rw [UInt64.toNat_and]
        exact Nat.lt_of_le_of_lt Nat.and_le_right (by decide)
      rw [hexDigits, List.mem_cons, not_or]
      exact ⟨(hexDigit_ne_zero hnibble).symm, ih⟩

theorem zero_not_mem_asText (f : AsFrag) : 0 ∉ f.text := by
  rcases f with (_ | s) | u | v | ⟨u, nibbles⟩
  · simp [AsFrag.text]
  · exact s.noNul
  · exact zero_not_mem_numeral u.toNat
  · exact zero_not_mem_intText v.toInt
  · rw [AsFrag.text, List.mem_append, not_or]
    exact ⟨(CStr.lit "0x").noNul, zero_not_mem_hexDigits u _⟩

/-! ## Decimal digits without a division -/

/-- The bit that a round shifts in. -/
theorem shiftedBit_toNat (u : UInt64) {k : Nat} (h : k < 64) :
    ((u >>> UInt64.ofNat k) &&& 1).toNat = LongDivision.bit u.toNat k := by
  have hk : k % 2 ^ 64 = k := Nat.mod_eq_of_lt (Nat.lt_trans h (by decide))
  rw [UInt64.toNat_and, UInt64.toNat_shiftRight, UInt64.toNat_ofNat', hk,
    Nat.mod_eq_of_lt h, LongDivision.bit, Nat.shiftRight_eq_div_pow]
  exact Nat.and_one_is_mod _

/-- The remainder with one bit more. -/
theorem shiftIn_toNat {r b : UInt64} (hr : r.toNat < 10) (hb : b.toNat < 2) :
    ((r <<< 1) ||| b).toNat = 2 * r.toNat + b.toNat := by
  have hshift : (r <<< 1).toNat = 2 ^ 1 * r.toNat := by
    rw [UInt64.toNat_shiftLeft, Nat.shiftLeft_eq]
    have : (1 : UInt64).toNat % 64 = 1 := rfl
    rw [this]
    omega
  rw [UInt64.toNat_or, hshift, ← Nat.two_pow_add_eq_or_of_lt (by omega), Nat.pow_one]

/-- The quotient with bit `k` set, when the bits up to `k` are clear. -/
theorem setBit_toNat {q : UInt64} {k p : Nat} (hk : k < 64)
    (hq : q.toNat = 2 ^ (k + 1) * p) :
    (q ||| (1 <<< UInt64.ofNat k)).toNat = q.toNat + 2 ^ k := by
  have hpow : 2 ^ k < 2 ^ (k + 1) := Nat.pow_lt_pow_right (by decide) (by omega)
  have hle : 2 ^ k < 2 ^ 64 := Nat.pow_lt_pow_right (by decide) hk
  have hone : ((1 : UInt64) <<< UInt64.ofNat k).toNat = 2 ^ k := by
    have hmod : k % 2 ^ 64 = k := Nat.mod_eq_of_lt (Nat.lt_trans hk (by decide))
    rw [UInt64.toNat_shiftLeft, UInt64.toNat_ofNat', hmod, Nat.mod_eq_of_lt hk,
      Nat.shiftLeft_eq, UInt64.toNat_one, Nat.one_mul, Nat.mod_eq_of_lt hle]
  rw [UInt64.toNat_or, hone, hq, ← Nat.two_pow_add_eq_or_of_lt hpow]

/-- A round is a step of the division by ten. -/
theorem div10Round_step {u q r : UInt64} {k : Nat} (hk : k < 64)
    (h : LongDivision.Partial u.toNat 10 (k + 1) q.toNat r.toNat) :
    LongDivision.Partial u.toNat 10 k (div10Round u k q r).1.toNat
      (div10Round u k q r).2.toNat := by
  have hbit := shiftedBit_toNat u hk
  have hlt := LongDivision.bit_lt u.toNat k
  have hr := shiftIn_toNat h.remainder (hbit ▸ hlt)
  rw [hbit] at hr
  have hstep := h.step
  obtain ⟨⟨p, hq, -⟩, hrlt⟩ := h
  have hten : (10 : UInt64).toNat = 10 := rfl
  rw [div10Round]
  by_cases hfits : 10 ≤ 2 * r.toNat + LongDivision.bit u.toNat k
  · rw [if_pos hfits, if_pos hfits] at hstep
    have hle : (10 : UInt64) ≤ (r <<< 1) ||| ((u >>> UInt64.ofNat k) &&& 1) := by
      rw [UInt64.le_iff_toNat_le, hr]
      exact hfits
    rw [if_pos hle, setBit_toNat hk hq, UInt64.toNat_sub_of_le _ _ hle, hr, hten]
    exact hstep
  · rw [if_neg hfits, if_neg hfits] at hstep
    have hlt : ¬ (10 : UInt64) ≤ (r <<< 1) ||| ((u >>> UInt64.ofNat k) &&& 1) := by
      rw [UInt64.le_iff_toNat_le, hr]
      exact hfits
    rw [if_neg hlt, hr]
    exact hstep

theorem div10Rounds_done {u : UInt64} {n : Nat} (hn : n ≤ 64) {q r : UInt64}
    (h : LongDivision.Partial u.toNat 10 n q.toNat r.toNat) :
    LongDivision.Partial u.toNat 10 0 (div10Rounds u n q r).1.toNat
      (div10Rounds u n q r).2.toNat := by
  induction n generalizing q r with
  | zero => exact h
  | succ n ih => exact ih (by omega) (div10Round_step (by omega) h)

/-- The division without a division instruction divides by ten. -/
theorem ptAsU64Div10_spec (u : UInt64) :
    (ptAsU64Div10 u).1.toNat = u.toNat / 10 ∧ (ptAsU64Div10 u).2.toNat = u.toNat % 10 := by
  have hlt : u.toNat < 2 ^ 64 := u.toNat_lt
  obtain ⟨hq, hr⟩ := (div10Rounds_done (q := 0) (r := 0) (Nat.le_refl 64)
    (LongDivision.Partial.start (by decide) hlt)).done
  refine ⟨hq, ?_⟩
  rw [ptAsU64Div10]
  dsimp only
  rw [UInt64.toNat_toUInt32, hr]
  omega

theorem ptAsDigits_eq (size : Nat) (u : UInt64) :
    ptAsDigits size u = Decimal.lowDigits size u.toNat := by
  induction size generalizing u with
  | zero => rfl
  | succ size ih =>
      obtain ⟨hq, hr⟩ := ptAsU64Div10_spec u
      rw [ptAsDigits, Decimal.lowDigits, ih, hq]
      have hpos : u > 0 ↔ 0 < u.toNat := UInt64.lt_iff_toNat_lt
      by_cases hu : 0 < u.toNat
      · rw [if_pos hu, if_pos (hpos.mpr hu)]
        congr 1
        rw [← UInt8.toNat_inj, UInt8.toNat_add, UInt32.toNat_toUInt8, hr,
          UInt8.toNat_ofNat']
        have : (0x30 : UInt8).toNat = 48 := rfl
        omega
      · rw [if_neg hu, if_neg (mt hpos.mp hu)]

theorem ptAsScratch_reverse (u : UInt64) :
    (ptAsScratch u).reverse = Decimal.numeral u.toNat := by
  have hlt := u.toNat_lt
  rw [ptAsScratch]
  split_ifs with h0
  · rw [h0]
    rfl
  · have hpos : 0 < u.toNat :=
      Nat.pos_of_ne_zero fun hz => h0 (UInt64.toNat_inj.mp hz)
    rw [ptAsDigits_eq, Decimal.lowDigits_reverse hpos (by omega)]

/-- A sum that an `int64_t` can hold. -/
theorem toInt_add_of_fits {a b : Int64} (hge : -2 ^ 63 ≤ a.toInt + b.toInt)
    (hlt : a.toInt + b.toInt < 2 ^ 63) : (a + b).toInt = a.toInt + b.toInt := by
  rw [Int64.toInt_add]
  exact Int.bmod_eq_of_le (by omega) (by omega)

/-- The negation of a number other than the least one. -/
theorem toInt_neg_of_fits {a : Int64} (h : a.toInt ≠ -2 ^ 63) : (-a).toInt = -a.toInt := by
  have hge := a.le_toInt
  have hlt := a.toInt_lt
  rw [Int64.toInt_neg]
  exact Int.bmod_eq_of_le (by omega) (by omega)

/-- No step of the negation overflows.  The successor of a negative number has
an opposite, also for the least number, which has none itself. -/
theorem negate_fits {v : Int64} (hneg : v.toInt < 0) :
    (v + 1).toInt = v.toInt + 1 ∧ (-(v + 1)).toInt = -(v.toInt + 1) := by
  have hge := v.le_toInt
  have hone : (1 : Int64).toInt = 1 := rfl
  have hsum : (v + 1).toInt = v.toInt + 1 := by
    rw [toInt_add_of_fits (by omega) (by omega), hone]
  refine ⟨hsum, ?_⟩
  rw [toInt_neg_of_fits (by omega), hsum]

/-- The magnitude avoids the negation of the least number. -/
theorem ptAsMagnitude_toNat (v : Int64) : (ptAsMagnitude v).toNat = v.toInt.natAbs := by
  have hge := v.le_toInt
  have hlt := v.toInt_lt
  have hzero : (0 : Int64).toInt = 0 := rfl
  rw [ptAsMagnitude]
  split_ifs with hneg
  · rw [Int64.lt_iff_toInt_lt, hzero] at hneg
    have hopp := (negate_fits hneg).2
    have hle : 0 ≤ -(v + 1) := by
      rw [Int64.le_iff_toInt_le, hopp, hzero]
      omega
    have habs : (-(v + 1)).toUInt64.toNat = (-(v.toInt + 1)).toNat := by
      rw [Int64.toNat_toUInt64_of_le hle, ← Int64.toNat_toInt, hopp]
    rw [UInt64.toNat_add, habs, UInt64.toNat_one]
    omega
  · rw [Int64.lt_iff_toInt_lt, hzero] at hneg
    have hle : 0 ≤ v := by
      rw [Int64.le_iff_toInt_le, hzero]
      omega
    rw [Int64.toNat_toUInt64_of_le hle, ← Int64.toNat_toInt]
    omega

/-! ## The spec of a helper -/

section Appends

variable {cap : Nat}

theorem ptAsAppendU64_terminated (hcap : 0 < cap) {text : List UInt8} {buf : Buffer}
    {pos : Nat} (h : Holds cap text buf pos) (u : UInt64) :
    Terminated cap (text ++ Decimal.numeral u.toNat) (ptAsAppendU64 cap buf pos u) := by
  have hloop := appendLoop_holds h (ptAsScratch u).reverse
  rw [ptAsScratch_reverse] at hloop
  unfold ptAsAppendU64
  rw [ptAsScratch_reverse]
  exact ⟨(hloop.terminate hcap).1, (hloop.terminate hcap).2⟩

theorem ptAsAppendI64_terminated (hcap : 0 < cap) {text : List UInt8} {buf : Buffer}
    {pos : Nat} (h : Holds cap text buf pos) (v : Int64) :
    Terminated cap (text ++ intText v.toInt) (ptAsAppendI64 cap buf pos v) := by
  have hsign := appendSign_holds hcap h v.toInt
  have hnum := ptAsAppendU64_terminated hcap hsign (ptAsMagnitude v)
  have hneg : v < 0 ↔ v.toInt < 0 := Int64.lt_iff_toInt_lt
  have htext : (text ++ if v.toInt < 0 then [0x2D] else []) ++
      Decimal.numeral v.toInt.natAbs = text ++ intText v.toInt := by
    rw [intText]
    split_ifs <;> simp
  rw [ptAsMagnitude_toNat, htext] at hnum
  unfold ptAsAppendI64
  simp only [hneg]
  exact hnum

theorem hexLoop_holds {text : List UInt8} {buf : Buffer} {pos : Nat}
    (h : Holds cap text buf pos) (u : UInt64) (n : Nat) :
    Holds cap (text ++ hexDigits u n) (hexLoop cap u n buf pos).1
      (hexLoop cap u n buf pos).2 := by
  induction n generalizing text buf pos with
  | zero => simpa [hexDigits, hexLoop] using h
  | succ n ih =>
      rw [hexLoop, hexDigits, List.append_cons]
      split_ifs with hroom
      · exact ih (h.push hroom (nibbleDigit u n))
      · exact ih (h.full hroom [nibbleDigit u n])

theorem ptAsAppendHex_terminated (hcap : 0 < cap) {text : List UInt8} {buf : Buffer}
    {pos : Nat} (h : Holds cap text buf pos) (u : UInt64) (nibbles : Int32) :
    Terminated cap (text ++ (AsFrag.hex u nibbles).text)
      (ptAsAppendHex cap buf pos u nibbles) := by
  have hfront := (appendStr_terminated hcap h (CStr.lit "0x")).holds
  have hloop := hexLoop_holds hfront u (clampNibbles nibbles)
  rw [List.append_assoc] at hloop
  exact ⟨(hloop.terminate hcap).1, (hloop.terminate hcap).2⟩

/-- A call of a helper adds its text. -/
theorem asFrag_appends (hcap : 0 < cap) (f : AsFrag) :
    Appends cap (f.append cap ·) f.text := by
  intro front dst h
  rcases f with (_ | s) | u | v | ⟨u, nibbles⟩
  · simpa [AsFrag.text, AsFrag.append, ptAsAppendStr, appendStr] using h
  · exact appendStr_terminated hcap h.holds s
  · exact ptAsAppendU64_terminated hcap h.holds u
  · exact ptAsAppendI64_terminated hcap h.holds v
  · exact ptAsAppendHex_terminated hcap h.holds u nibbles

end Appends

/-- The string that a chain of helpers builds. -/
theorem asBuild_cstr {cap : Nat} (hcap : 0 < cap) (s : CStr) (frags : List AsFrag) :
    (asBuild cap (.str (some s) :: frags)).cstr.bytes =
        (s.bytes ++ frags.flatMap AsFrag.text).take (cap - 1) ∧
      (asBuild cap (.str (some s) :: frags)).overrun = false := by
  have hfirst := appendStr_terminated hcap (Holds.alloc cap) s
  have hall := Appends.foldl (asFrag_appends hcap) frags hfirst
  rw [List.nil_append] at hall
  refine ⟨hall.holds.cstr_bytes hall.nul fun h => ?_, hall.holds.no_overrun⟩
  rcases List.mem_append.mp h with h | h
  · exact s.noNul h
  · obtain ⟨f, -, hf⟩ := List.mem_flatMap.mp h
    exact zero_not_mem_asText f hf

/-! ## Numbers with room for them -/

/-- The digits and the terminator, over the bytes that were there. -/
theorem ptAsAppendU64_room {cap : Nat} (front : List UInt8) {old back : List UInt8} {x : UInt8}
    {o : Bool} {u : UInt64} (hlen : old.length = (Decimal.numeral u.toNat).length)
    (hroom : front.length + (Decimal.numeral u.toNat).length < cap) :
    ptAsAppendU64 cap ⟨front ++ (old ++ x :: back), o⟩ front.length u =
      (⟨front ++ (Decimal.numeral u.toNat ++ 0 :: back), o⟩,
        front.length + (Decimal.numeral u.toNat).length) := by
  have hnul := Buffer.store_split (front ++ Decimal.numeral u.toNat) back x 0 o
  rw [List.length_append, List.append_assoc, List.append_assoc] at hnul
  unfold ptAsAppendU64
  rw [ptAsScratch_reverse, appendLoop_room front hlen hroom]
  show (Buffer.store _ _ 0, _) = _
  rw [hnul]

/-- The sign and the terminator behind it. -/
theorem storeSign_split (front rest : List UInt8) (a b : UInt8) (o : Bool) :
    ((Buffer.mk (front ++ a :: b :: rest) o).store front.length 0x2D).store
        (front.length + 1) 0 = ⟨(front ++ [0x2D]) ++ 0 :: rest, o⟩ := by
  have hnul := Buffer.store_split (front ++ [0x2D]) rest b 0 o
  rw [List.length_append, List.length_singleton] at hnul
  rw [Buffer.store_split, ← hnul, List.append_assoc]
  rfl

/-- The same behind the sign, whose terminator the first digit replaces. -/
theorem ptAsAppendI64_room {cap : Nat} (front : List UInt8) {old back : List UInt8} {x : UInt8}
    {o : Bool} {v : Int64} (hlen : old.length = (intText v.toInt).length)
    (hroom : front.length + (intText v.toInt).length < cap) :
    ptAsAppendI64 cap ⟨front ++ (old ++ x :: back), o⟩ front.length v =
      (⟨front ++ (intText v.toInt ++ 0 :: back), o⟩,
        front.length + (intText v.toInt).length) := by
  have hneg : v < 0 ↔ v.toInt < 0 := Int64.lt_iff_toInt_lt
  rw [intText] at hlen hroom ⊢
  rw [← ptAsMagnitude_toNat] at hlen hroom ⊢
  unfold ptAsAppendI64
  by_cases hv : v.toInt < 0
  · rw [if_pos hv, List.length_cons] at hlen hroom
    rw [if_pos hv, if_pos ⟨hneg.mpr hv, by omega⟩]
    rcases old with _ | ⟨a, old⟩
    · simp at hlen
    rcases old with _ | ⟨b, old⟩
    · have := List.length_pos_of_ne_nil (Decimal.numeral_ne_nil (ptAsMagnitude v).toNat)
      simp only [List.length_cons, List.length_nil] at hlen
      omega
    have hdigits : ptAsAppendU64 cap ⟨(front ++ [0x2D]) ++ ((0 :: old) ++ x :: back), o⟩
        (front ++ [0x2D]).length (ptAsMagnitude v) = _ :=
      ptAsAppendU64_room (front ++ [0x2D]) (by simpa using hlen)
        (by rw [List.length_append, List.length_singleton]; omega)
    rw [List.length_append, List.length_singleton, List.cons_append] at hdigits
    show ptAsAppendU64 cap ((Buffer.store _ front.length 0x2D).store _ 0) _ _ = _
    rw [List.cons_append, List.cons_append, storeSign_split, hdigits, List.length_cons,
      Nat.add_right_comm, Nat.add_assoc, List.append_assoc]
    rfl
  · rw [if_neg hv] at hlen hroom
    rw [if_neg hv, if_neg fun h => hv (hneg.mp h.1)]
    exact ptAsAppendU64_room front hlen hroom

/-- The array `mem` with `text` and a terminator at `pos`, and the position of
the terminator. -/
def written (mem : List UInt8) (pos : Nat) (text : List UInt8) : Buffer × Nat :=
  (⟨mem.take pos ++ (text ++ 0 :: mem.drop (pos + text.length + 1)), false⟩,
    pos + text.length)

/-- An append that is known on every memory split around its text. -/
theorem written_of_split {call : List UInt8 → Nat → Buffer × Nat} {mem text : List UInt8}
    {pos : Nat} (hroom : pos + text.length < mem.length)
    (hcall : ∀ front old x back, front.length = pos → old.length = text.length →
      call (front ++ (old ++ x :: back)) front.length =
        (⟨front ++ (text ++ 0 :: back), false⟩, front.length + text.length)) :
    call mem pos = written mem pos text := by
  have hfront : (mem.take pos).length = pos := List.length_take_of_le (by omega)
  have hold : ((mem.drop pos).take text.length).length = text.length := by
    rw [List.length_take, List.length_drop]
    omega
  have hsplit : mem.take pos ++ ((mem.drop pos).take text.length ++
      mem[pos + text.length] :: mem.drop (pos + text.length + 1)) = mem := by
    rw [List.getElem_cons_drop, ← List.drop_drop, List.take_append_drop,
      List.take_append_drop]
  have hwrite := hcall _ _ mem[pos + text.length] (mem.drop (pos + text.length + 1))
    hfront hold
  rw [hsplit, hfront] at hwrite
  exact hwrite

theorem ptAsAppendU64_written {mem : List UInt8} {cap pos : Nat} (u : UInt64)
    (hroom : pos + (Decimal.numeral u.toNat).length < cap) (hcap : cap ≤ mem.length) :
    ptAsAppendU64 cap ⟨mem, false⟩ pos u = written mem pos (Decimal.numeral u.toNat) := by
  apply @written_of_split fun mem pos => ptAsAppendU64 cap ⟨mem, false⟩ pos u
  · exact Nat.lt_of_lt_of_le hroom hcap
  · intro front old x back hfront hold
    exact ptAsAppendU64_room front hold (hfront ▸ hroom)

theorem ptAsAppendI64_written {mem : List UInt8} {cap pos : Nat} (v : Int64)
    (hroom : pos + (intText v.toInt).length < cap) (hcap : cap ≤ mem.length) :
    ptAsAppendI64 cap ⟨mem, false⟩ pos v = written mem pos (intText v.toInt) := by
  apply @written_of_split fun mem pos => ptAsAppendI64 cap ⟨mem, false⟩ pos v
  · exact Nat.lt_of_lt_of_le hroom hcap
  · intro front old x back hfront hold
    exact ptAsAppendI64_room front hold (hfront ▸ hroom)

theorem length_ptAsScratch_le (u : UInt64) : (ptAsScratch u).length ≤ 20 := by
  have hlt := u.toNat_lt
  rw [← List.length_reverse, ptAsScratch_reverse]
  exact Decimal.length_numeral_le (by decide) (by omega)

/-- The rendering of 64-bit numbers is exact.  The division gives quotient and
remainder; the digits of any number take no more than twenty of the thirty-two
places of the scratch array; the negation never overflows; and with room for
the text an append writes the canonical numeral, behind one `-` for a negative
number. -/
theorem ptAs_decimal :
    (∀ u, (ptAsU64Div10 u).1.toNat = u.toNat / 10 ∧
      (ptAsU64Div10 u).2.toNat = u.toNat % 10) ∧
    (∀ n s, Decimal.Canonical n s ↔ s = Decimal.numeral n) ∧
    (∀ u, (ptAsScratch u).length ≤ 20 ∧
      (ptAsScratch u).reverse = Decimal.numeral u.toNat) ∧
    (∀ v : Int64, v.toInt < 0 →
      (v + 1).toInt = v.toInt + 1 ∧ (-(v + 1)).toInt = -(v.toInt + 1)) ∧
    (∀ (u : UInt64) (mem : List UInt8) (cap pos : Nat),
      pos + (Decimal.numeral u.toNat).length < cap → cap ≤ mem.length →
      ptAsAppendU64 cap ⟨mem, false⟩ pos u = written mem pos (Decimal.numeral u.toNat)) ∧
    (∀ (v : Int64) (mem : List UInt8) (cap pos : Nat),
      pos + (intText v.toInt).length < cap → cap ≤ mem.length →
      ptAsAppendI64 cap ⟨mem, false⟩ pos v = written mem pos (intText v.toInt)) :=
  ⟨ptAsU64Div10_spec, fun _ _ => Decimal.canonical_iff,
    fun u => ⟨length_ptAsScratch_le u, ptAsScratch_reverse u⟩, fun _ => negate_fits,
    fun u _ _ _ => ptAsAppendU64_written u, fun v _ _ _ => ptAsAppendI64_written v⟩

/-- The least number, which fills all of its room. -/
theorem ptAs_decimal_least :
    ptAsAppendI64 22 ⟨List.replicate 24 9, false⟩ 1 Int64.minValue =
        (⟨9 :: Utf8.encode "-9223372036854775808".toList ++ [0, 9, 9], false⟩, 21) ∧
      (Int64.minValue + 1).toInt = Int64.minValue.toInt + 1 :=
  ⟨(ptAs_decimal.2.2.2.2.2 Int64.minValue (List.replicate 24 9) 22 1 (by decide)
      (by decide)).trans (by decide),
    (ptAs_decimal.2.2.2.1 Int64.minValue (by decide)).1⟩

/-! ## Every chain of calls -/

/-- One call of a helper of the core, with any `long`. -/
inductive LongFrag
  | str (s : Option CStr)
  | i32 (v : Int64)
  | u32 (v : UInt32)

/-- The call. -/
def LongFrag.append (cap : Nat) (dst : Buffer × Nat) : LongFrag → Buffer × Nat
  | .str s => appendStr cap dst.1 dst.2 s
  | .i32 v => appendI32 cap dst.1 dst.2 v.toInt
  | .u32 v => appendU32 cap dst.1 dst.2 v

/-- The text that a call adds to an unbounded buffer. -/
def LongFrag.text : LongFrag → List UInt8
  | .str none => []
  | .str (some s) => s.bytes
  | .i32 v => intText v.toInt
  | .u32 v => Decimal.numeral v.toNat

/-- A chain of calls on the array `mem`, from position 0. -/
def chain {ι : Type} (call : Nat → Buffer × Nat → ι → Buffer × Nat) (mem : List UInt8)
    (calls : List ι) : Buffer × Nat :=
  calls.foldl (call mem.length) (⟨mem, false⟩, 0)

/-- The array holds a string, which is as much of `text` as fits. -/
structure Bounded (cap : Nat) (text : List UInt8) (dst : Buffer × Nat) : Prop where
  no_overrun : dst.1.overrun = false
  length_mem : dst.1.mem.length = cap
  pos_le : dst.2 ≤ cap - 1
  nul : dst.1.mem[dst.2]? = some 0
  cstr_bytes : dst.1.cstr.bytes = text.take (cap - 1)

theorem Terminated.bounded {cap : Nat} {text : List UInt8} {dst : Buffer × Nat}
    (h : Terminated cap text dst) (htext : 0 ∉ text) : Bounded cap text dst where
  no_overrun := h.holds.no_overrun
  length_mem := h.holds.length_mem
  pos_le := by
    rw [h.holds.pos_eq]
    exact Nat.min_le_right _ _
  nul := h.nul
  cstr_bytes := h.holds.cstr_bytes h.nul htext

theorem longFrag_appends {cap : Nat} (hcap : 0 < cap) (f : LongFrag) :
    Appends cap (f.append cap ·) f.text := by
  intro front dst h
  rcases f with (_ | s) | v | v
  · simpa [LongFrag.text, LongFrag.append, appendStr] using h
  · exact appendStr_terminated hcap h.holds s
  · have hge := v.le_toInt
    have hlt := v.toInt_lt
    exact appendI32_terminated hcap h.holds (by omega)
  · exact append_terminated hcap h (.u32 v)

theorem zero_not_mem_longText (f : LongFrag) : 0 ∉ f.text := by
  rcases f with (_ | s) | v | v
  · simp [LongFrag.text]
  · exact s.noNul
  · exact zero_not_mem_intText v.toInt
  · exact zero_not_mem_numeral v.toNat

section Chains

variable {ι : Type} {call : Nat → Buffer × Nat → ι → Buffer × Nat} {text : ι → List UInt8}

/-- A chain whose first call appends a string. -/
theorem chain_bounded {first : ι} {s : CStr} (hcall : ∀ {cap}, 0 < cap → ∀ i,
      Appends cap (call cap · i) (text i))
    (hfirst : ∀ cap dst, call cap dst first = appendStr cap dst.1 dst.2 (some s))
    (htext : ∀ i, 0 ∉ text i) (hs : text first = s.bytes) {mem : List UInt8}
    (hcap : 1 ≤ mem.length) (calls : List ι) :
    Bounded mem.length ((first :: calls).flatMap text) (chain call mem (first :: calls)) := by
  have hstart := appendStr_terminated hcap (Holds.fresh rfl) s
  have hall := Appends.foldl (hcall hcap) calls hstart
  rw [List.nil_append, ← hs] at hall
  refine @Terminated.bounded _ _ (chain call mem (first :: calls)) ?_ fun h => ?_
  · rw [chain, List.foldl_cons, hfirst, List.flatMap_cons]
    exact hall
  · obtain ⟨i, -, hi⟩ := List.mem_flatMap.mp h
    exact htext i hi

/-- A chain on a short array builds the front of what it builds on an array
with room for everything. -/
theorem Bounded.take_of_room {small big : Buffer × Nat} {cap room : Nat} {bytes : List UInt8}
    (h : Bounded cap bytes small) (hbig : Bounded room bytes big)
    (hroom : bytes.length < room) :
    small.1.cstr.bytes = big.1.cstr.bytes.take (cap - 1) := by
  rw [h.cstr_bytes, hbig.cstr_bytes, List.take_of_length_le (show bytes.length ≤ room - 1 by omega)]

end Chains

/-- Message building stays inside its array and only truncates. -/
theorem append_bounded (s : CStr) :
    (∀ (calls : List LongFrag) (mem : List UInt8), 1 ≤ mem.length →
      Bounded mem.length ((.str (some s) :: calls).flatMap LongFrag.text)
        (chain LongFrag.append mem (.str (some s) :: calls))) ∧
    (∀ (calls : List AsFrag) (mem : List UInt8), 1 ≤ mem.length →
      Bounded mem.length ((.str (some s) :: calls).flatMap AsFrag.text)
        (chain AsFrag.append mem (.str (some s) :: calls))) ∧
    (∀ (calls : List LongFrag) (mem big : List UInt8), 1 ≤ mem.length →
      ((.str (some s) :: calls).flatMap LongFrag.text).length < big.length →
      (chain LongFrag.append mem (.str (some s) :: calls)).1.cstr.bytes =
        (chain LongFrag.append big (.str (some s) :: calls)).1.cstr.bytes.take
          (mem.length - 1)) ∧
    (∀ (calls : List AsFrag) (mem big : List UInt8), 1 ≤ mem.length →
      ((.str (some s) :: calls).flatMap AsFrag.text).length < big.length →
      (chain AsFrag.append mem (.str (some s) :: calls)).1.cstr.bytes =
        (chain AsFrag.append big (.str (some s) :: calls)).1.cstr.bytes.take
          (mem.length - 1)) := by
  have hlong : ∀ (calls : List LongFrag) (mem : List UInt8), 1 ≤ mem.length →
      Bounded mem.length ((.str (some s) :: calls).flatMap LongFrag.text)
        (chain LongFrag.append mem (.str (some s) :: calls)) := fun calls mem hcap =>
    chain_bounded longFrag_appends (fun _ _ => rfl) zero_not_mem_longText rfl hcap calls
  have has : ∀ (calls : List AsFrag) (mem : List UInt8), 1 ≤ mem.length →
      Bounded mem.length ((.str (some s) :: calls).flatMap AsFrag.text)
        (chain AsFrag.append mem (.str (some s) :: calls)) := fun calls mem hcap =>
    chain_bounded asFrag_appends (fun _ _ => rfl) zero_not_mem_asText rfl hcap calls
  refine ⟨hlong, has, fun calls mem big hcap hbig => ?_, fun calls mem big hcap hbig => ?_⟩
  · exact (hlong calls mem hcap).take_of_room (hlong calls big (by omega)) hbig
  · exact (has calls mem hcap).take_of_room (has calls big (by omega)) hbig

/-- Five bytes of room for `-128` behind a string. -/
theorem append_bounded_five :
    (chain LongFrag.append [9, 9, 9, 9, 9] [.str (some (CStr.lit "n=")), .i32 (-128)]).1 =
      ⟨[0x6E, 0x3D, 0x2D, 0x31, 0], false⟩ ∧
    (chain LongFrag.append [9, 9, 9, 9, 9]
      [.str (some (CStr.lit "n=")), .i32 (-128)]).1.overrun = false :=
  ⟨by decide +kernel,
    ((append_bounded (CStr.lit "n=")).1 [.i32 (-128)] [9, 9, 9, 9, 9] (by decide)).no_overrun⟩

end PolyOnTest.Harness
