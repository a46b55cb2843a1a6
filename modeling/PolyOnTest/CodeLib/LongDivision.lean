import Mathlib.Data.Nat.Init
import Mathlib.Tactic.Ring

/-!
# Binary long division

Division by shifts and subtractions, one bit of the numerator after the other
from the high end.  `Partial n d k q r` is the invariant in front of bit
`k - 1`: the bits from `k` on are divided, with the remainder `r`, and their
quotient stands in the high bits of `q`.

`Partial.step` is one round, and `Partial.done` reads the answer when no bit is
left.
-/

namespace CodeLib.LongDivision

/-- Bit `k` of a number. -/
def bit (n k : Nat) : Nat := n / 2 ^ k % 2

/-- The bits of `n` from `k` on are divided by `d`. -/
structure Partial (n d k q r : Nat) : Prop where
  high : ∃ p, q = 2 ^ k * p ∧ n / 2 ^ k = p * d + r
  remainder : r < d

theorem bit_lt (n k : Nat) : bit n k < 2 := Nat.mod_lt _ (by decide)

/-- The high bits with one bit more. -/
theorem div_pow_eq (n k : Nat) : n / 2 ^ k = 2 * (n / 2 ^ (k + 1)) + bit n k := by
  rw [bit, Nat.pow_succ, ← Nat.div_div_eq_div_mul, Nat.div_add_mod]

namespace Partial

variable {n d k q r : Nat}

theorem start (hd : 0 < d) (h : n < 2 ^ k) : Partial n d k 0 0 :=
  ⟨⟨0, by simp, by simp [Nat.div_eq_of_lt h]⟩, hd⟩

/-- One round: the next bit goes into the remainder, and the divisor is
subtracted when it fits. -/
theorem step (h : Partial n d (k + 1) q r) :
    Partial n d k (if d ≤ 2 * r + bit n k then q + 2 ^ k else q)
      (if d ≤ 2 * r + bit n k then 2 * r + bit n k - d else 2 * r + bit n k) := by
  obtain ⟨⟨p, hq, hn⟩, hr⟩ := h
  have hbit := bit_lt n k
  have hnext : n / 2 ^ k = 2 * (p * d) + (2 * r + bit n k) := by
    rw [div_pow_eq, hn]
    omega
  by_cases hfits : d ≤ 2 * r + bit n k
  · rw [if_pos hfits, if_pos hfits]
    refine ⟨⟨2 * p + 1, ?_, ?_⟩, by omega⟩
    · rw [hq]
      ring
    · rw [hnext, show (2 * p + 1) * d = 2 * (p * d) + d from by ring]
      omega
  · rw [if_neg hfits, if_neg hfits]
    refine ⟨⟨2 * p, ?_, ?_⟩, by omega⟩
    · rw [hq]
      ring
    · rw [hnext, Nat.mul_assoc]

/-- Without a bit left the answer is the quotient and the remainder. -/
theorem done (h : Partial n d 0 q r) : q = n / d ∧ r = n % d := by
  obtain ⟨⟨p, hq, hn⟩, hr⟩ := h
  rw [Nat.pow_zero, Nat.one_mul] at hq
  rw [Nat.pow_zero, Nat.div_one] at hn
  subst hq hn
  rw [Nat.mul_comm]
  exact ⟨by rw [Nat.mul_add_div (by omega), Nat.div_eq_of_lt hr, Nat.add_zero],
    by rw [Nat.mul_add_mod, Nat.mod_eq_of_lt hr]⟩

end Partial

end CodeLib.LongDivision
