import Mathlib.Data.List.Induction
import Mathlib.Data.Nat.Digits.Defs
import Mathlib.Tactic.IntervalCases
import PolyOnTest.CodeLib.Utf8

/-!
# Decimal numerals

`numeral` is the canonical numeral of a natural number as ASCII bytes.  The
printer that many C libraries carry takes the digits from the low end into a
scratch array of a fixed size and then copies the array backwards; `lowDigits`
is its first loop, and `lowDigits_reverse` says that the copy is the numeral as
soon as the array is large enough.

`Canonical n s` says what makes `s` the numeral of `n`: digits only, the right
value, no leading zero.  Exactly one string does (`canonical_iff`).

`parseBounded` reads a numeral with an overflow check after each digit.  It
takes back the numeral of every number up to the bound
(`parseBounded_toDigits`).
-/

namespace CodeLib.Decimal

open CodeLib.Utf8

/-- The numeral of `n` as bytes. -/
def numeral (n : Nat) : List UInt8 :=
  (Nat.toDigits 10 n).map fun c => UInt8.ofNat c.toNat

/-- The digits of `n` from the low end, at most `size` of them. -/
def lowDigits : Nat → Nat → List UInt8
  | 0, _ => []
  | size + 1, n =>
      if n > 0 then UInt8.ofNat (48 + n % 10) :: lowDigits size (n / 10)
      else []

/-- One digit of a numeral that must stay at or below `bound`. -/
def addDigit (bound acc : Nat) (c : Char) : Option Nat :=
  if c.isDigit then
    if acc * 10 + (c.toNat - 48) ≤ bound then some (acc * 10 + (c.toNat - 48))
    else none
  else none

/-- The value of a non-empty digit string, if it is at or below `bound`. -/
def parseBounded (bound : Nat) (s : List Char) : Option Nat :=
  if s = [] then none else s.foldlM (addDigit bound) 0

theorem digitByte {d : Nat} (h : d < 10) :
    UInt8.ofNat d.digitChar.toNat = UInt8.ofNat (48 + d) := by
  interval_cases d <;> rfl

theorem numeral_of_lt {n : Nat} (h : n < 10) :
    numeral n = [UInt8.ofNat (48 + n)] := by
  rw [numeral, Nat.toDigits_of_lt_base h, List.map_singleton, digitByte h]

theorem numeral_of_ge {n : Nat} (h : 10 ≤ n) :
    numeral n = numeral (n / 10) ++ [UInt8.ofNat (48 + n % 10)] := by
  rw [numeral, Nat.toDigits_of_base_le (by decide) h, List.map_append,
    List.map_singleton, digitByte (Nat.mod_lt n (by decide))]
  rfl

/-- Read backwards, the scratch array holds the numeral. -/
theorem lowDigits_reverse {size n : Nat} (h0 : 0 < n) (h : n < 10 ^ size) :
    (lowDigits size n).reverse = numeral n := by
  induction size generalizing n with
  | zero => omega
  | succ size ih =>
      rw [lowDigits, if_pos h0, List.reverse_cons]
      by_cases hn : n < 10
      · rw [numeral_of_lt hn, show n / 10 = 0 by omega, Nat.mod_eq_of_lt hn]
        cases size <;> rfl
      · rw [numeral_of_ge (by omega),
          ih (by omega) (by rw [Nat.pow_succ] at h; omega)]

theorem toNat_le_of_isDigit {c : Char} (h : c.isDigit = true) :
    c.toNat ≤ 57 := by
  simp only [Char.isDigit, Bool.and_eq_true, decide_eq_true_eq] at h
  exact h.2

/-- A numeral has digits only. -/
theorem mem_numeral {n : Nat} {b : UInt8} (h : b ∈ numeral n) :
    48 ≤ b.toNat ∧ b.toNat ≤ 57 := by
  obtain ⟨c, hc, rfl⟩ := List.mem_map.mp h
  have hdigit := Nat.isDigit_of_mem_toDigits (by decide) (by decide) hc
  have hle := toNat_le_of_isDigit hdigit
  have hge : 48 ≤ c.toNat := by
    simp only [Char.isDigit, Bool.and_eq_true, decide_eq_true_eq] at hdigit
    exact hdigit.1
  rw [UInt8.toNat_ofNat']
  omega

theorem numeral_ne_nil (n : Nat) : numeral n ≠ [] := by
  rw [numeral, ne_eq, List.map_eq_nil_iff]
  exact Nat.toDigits_ne_nil

theorem length_numeral_le {n size : Nat} (h0 : 0 < size) (h : n < 10 ^ size) :
    (numeral n).length ≤ size := by
  rw [numeral, List.length_map]
  exact Nat.toDigits_length 10 n size h0 h

theorem numeral_ascii (n : Nat) : IsAscii (numeral n) := by
  intro b hb
  have := mem_numeral hb
  omega

/-- The text of a numeral. -/
theorem numeral_text (n : Nat) :
    (numeral n).map asciiChar = Nat.toDigits 10 n := by
  rw [numeral, List.map_map]
  refine (List.map_congr_left fun c hc => ?_).trans (List.map_id _)
  have := toNat_le_of_isDigit
    (Nat.isDigit_of_mem_toDigits (by decide) (by decide) hc)
  rw [Function.comp_apply, asciiChar, UInt8.toNat_ofNat',
    Nat.mod_eq_of_lt (by omega), Char.ofNat_toNat]
  rfl

/-! ## Canonical numerals -/

/-- The number that a string of digits denotes. -/
def value (s : List UInt8) : Nat := s.foldl (fun acc b => 10 * acc + (b.toNat - 48)) 0

/-- `s` is a decimal numeral of `n` without leading zeros. -/
structure Canonical (n : Nat) (s : List UInt8) : Prop where
  ne_nil : s ≠ []
  digits : ∀ b ∈ s, 48 ≤ b.toNat ∧ b.toNat ≤ 57
  value_eq : value s = n
  lead : s.head? = some 48 → s = [48]

theorem value_append_one (s : List UInt8) (b : UInt8) :
    value (s ++ [b]) = 10 * value s + (b.toNat - 48) := by
  rw [value, List.foldl_append]
  rfl

theorem digitByte_toNat {d : Nat} (h : d < 10) : (UInt8.ofNat (48 + d)).toNat = 48 + d := by
  rw [UInt8.toNat_ofNat']
  omega

theorem value_numeral (n : Nat) : value (numeral n) = n := by
  induction n using Nat.strongRecOn with
  | ind n ih =>
      by_cases hn : n < 10
      · rw [numeral_of_lt hn, ← List.nil_append [_], value_append_one, digitByte_toNat hn]
        show 10 * 0 + (48 + n - 48) = n
        omega
      · rw [numeral_of_ge (by omega), value_append_one, ih (n / 10) (by omega),
          digitByte_toNat (Nat.mod_lt n (by decide))]
        omega

/-- Only the numeral of zero starts with a zero. -/
theorem numeral_lead {n : Nat} (h : (numeral n).head? = some 48) : n = 0 := by
  induction n using Nat.strongRecOn with
  | ind n ih =>
      by_cases hn : n < 10
      · rw [numeral_of_lt hn, List.head?_cons, Option.some.injEq] at h
        have hbyte := digitByte_toNat hn
        rw [h] at hbyte
        show n = 0
        have : (48 : UInt8).toNat = 48 := rfl
        omega
      · rw [numeral_of_ge (by omega), List.head?_append_of_ne_nil _ (numeral_ne_nil _)] at h
        have := ih (n / 10) (by omega) h
        omega

theorem numeral_canonical (n : Nat) : Canonical n (numeral n) where
  ne_nil := numeral_ne_nil n
  digits := fun _ hb => mem_numeral hb
  value_eq := value_numeral n
  lead := fun h => by
    rw [numeral_lead h]
    rfl

/-- The string is split at its last digit.  The front is canonical again unless
it is empty, because it starts with the same digit. -/
theorem Canonical.eq_numeral {n : Nat} {s : List UInt8} (h : Canonical n s) :
    s = numeral n := by
  induction s using List.reverseRecOn generalizing n with
  | nil => exact absurd rfl h.ne_nil
  | append_singleton front b ih =>
      have hb := h.digits b (by simp)
      have hvalue := h.value_eq
      rw [value_append_one] at hvalue
      have hdigit : b = UInt8.ofNat (48 + n % 10) := by
        rw [← UInt8.toNat_inj, digitByte_toNat (Nat.mod_lt n (by decide))]
        omega
      by_cases hfront : front = []
      · have hzero : value front = 0 := by rw [hfront]; rfl
        have hn : n % 10 = n := by omega
        rw [numeral_of_lt (by omega), hfront, hdigit, hn, List.nil_append]
      · have hhead : (front ++ [b]).head? = front.head? :=
          List.head?_append_of_ne_nil _ hfront
        have hlead : front.head? ≠ some 48 := fun h0 =>
          hfront (List.append_eq_singleton_iff.mp (h.lead (hhead ▸ h0)) |>.elim
            (fun hc => hc.1) fun hc => absurd hc.2 (by simp))
        have hnum := ih (n := n / 10) ⟨hfront, fun x hx => h.digits x (by simp [hx]),
          by omega, fun h0 => absurd h0 hlead⟩
        have hge : 10 ≤ n := by
          by_contra hlt
          rw [show n / 10 = 0 by omega] at hnum
          exact hlead (hnum ▸ rfl)
        rw [numeral_of_ge hge, ← hnum, ← hdigit]

/-- A number has one canonical numeral. -/
theorem canonical_iff {n : Nat} {s : List UInt8} : Canonical n s ↔ s = numeral n :=
  ⟨Canonical.eq_numeral, fun h => h ▸ numeral_canonical n⟩

/-! ## Reading a numeral back -/

theorem le_ofDigitChars (s : List Char) (acc : Nat) :
    acc ≤ Nat.ofDigitChars 10 s acc := by
  induction s generalizing acc with
  | nil => simp
  | cons c s ih =>
      rw [Nat.ofDigitChars_cons]
      exact Nat.le_trans (by omega) (ih _)

/-- The check after each digit is the check of the final value, because the
value only grows. -/
theorem foldlM_addDigit {bound : Nat} {s : List Char}
    (hs : ∀ c ∈ s, c.isDigit = true) (acc : Nat)
    (h : Nat.ofDigitChars 10 s acc ≤ bound) :
    s.foldlM (addDigit bound) acc = some (Nat.ofDigitChars 10 s acc) := by
  induction s generalizing acc with
  | nil => simp
  | cons c s ih =>
      rw [Nat.ofDigitChars_cons] at h ⊢
      have hstep : 10 * acc + (c.toNat - '0'.toNat) = acc * 10 + (c.toNat - 48) := by
        rw [Nat.mul_comm]
        rfl
      rw [hstep] at h ⊢
      have hle := Nat.le_trans (le_ofDigitChars s _) h
      rw [List.foldlM_cons, addDigit, if_pos (hs c (by simp)), if_pos hle]
      exact ih (fun x hx => hs x (by simp [hx])) _ h

theorem toDigits_injective : Function.Injective (Nat.toDigits 10) :=
  Function.LeftInverse.injective fun _ => Nat.ofDigitChars_ten_toDigits

/-- A numeral reads back as its number. -/
theorem parseBounded_toDigits {bound n : Nat} (h : n ≤ bound) :
    parseBounded bound (Nat.toDigits 10 n) = some n := by
  rw [parseBounded, if_neg Nat.toDigits_ne_nil,
    foldlM_addDigit (fun c hc => Nat.isDigit_of_mem_toDigits (by decide)
      (by decide) hc) 0 (by simpa using h), Nat.ofDigitChars_ten_toDigits]

end CodeLib.Decimal
