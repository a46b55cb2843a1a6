import Mathlib.Data.List.Basic
import Mathlib.Logic.Function.Basic
import Mathlib.Tactic.SplitIfs

/-!
# Flat memory

Memory as a function from addresses to cells, for loops that walk over it.

* `HasAt` says what the cells from an address on hold, and `cells` reads a range.
* `copy` is the loop that copies a range cell by cell from the front.  It gives what the
  source held in front of it, if the destination does not start inside of the source
  (`copy_apply`).
* `fill` is the loop that sets a range to one value (`fill_apply`).
-/

namespace CodeLib.FlatMemory

variable {α : Type} {m m' : Nat → α} {a b n : Nat} {vs : List α}

/-! ## Contents -/

/-- The cells from an address on hold these values. -/
def HasAt (m : Nat → α) (a : Nat) : List α → Prop
  | [] => True
  | v :: vs => m a = v ∧ HasAt m (a + 1) vs

/-- The values of some cells. -/
def cells (m : Nat → α) (a : Nat) : Nat → List α
  | 0 => []
  | n + 1 => m a :: cells m (a + 1) n

/-- Values are where they were if their cells are. -/
theorem HasAt.congr (h : HasAt m a vs) (hsame : ∀ x, a ≤ x → x < a + vs.length → m' x = m x) :
    HasAt m' a vs := by
  induction vs generalizing a with
  | nil => exact trivial
  | cons v vs ih =>
      rw [List.length_cons] at hsame
      refine ⟨(hsame a (by omega) (by omega)).trans h.1, ?_⟩
      apply ih h.2
      intro x hle hlt
      exact hsame x (by omega) (by omega)

theorem cells_congr (h : ∀ i < n, m (a + i) = m' (b + i)) : cells m a n = cells m' b n := by
  induction n generalizing a b with
  | zero => rfl
  | succ n ih =>
      have hhead : m a = m' b := h 0 (by omega)
      have htail : cells m (a + 1) n = cells m' (b + 1) n := by
        apply ih
        intro i hi
        have hnext := h (i + 1) (by omega)
        rwa [show a + 1 + i = a + (i + 1) by omega, show b + 1 + i = b + (i + 1) by omega]
      rw [cells, cells, hhead, htail]

/-! ## Loops -/

/-- Copies `n` cells, the first one first. -/
def copy : Nat → Nat → Nat → (Nat → α) → Nat → α
  | 0, _, _, m => m
  | n + 1, src, dst, m => copy n (src + 1) (dst + 1) (Function.update m dst (m src))

/-- Sets `n` cells, the first one first. -/
def fill (v : α) : Nat → Nat → (Nat → α) → Nat → α
  | 0, _, m => m
  | n + 1, dst, m => fill v n (dst + 1) (Function.update m dst v)

/-- By induction on the number of cells: the next trip reads cells that this one has not
written. -/
theorem copy_apply {src dst : Nat} (m : Nat → α) (h : dst ≤ src ∨ src + n ≤ dst) (x : Nat) :
    copy n src dst m x = if dst ≤ x ∧ x < dst + n then m (src + (x - dst)) else m x := by
  induction n generalizing src dst m with
  | zero => rw [copy, if_neg (by omega)]
  | succ n ih =>
      rw [copy, ih _ (by omega)]
      by_cases hx : x = dst
      · subst hx
        rw [if_neg (by omega), if_pos (by omega), Function.update_self, Nat.sub_self,
          Nat.add_zero]
      · by_cases hin : dst + 1 ≤ x ∧ x < dst + 1 + n
        · have hcell : src + 1 + (x - (dst + 1)) = src + (x - dst) := by omega
          have hread : src + (x - dst) ≠ dst := by omega
          rw [if_pos hin, if_pos (by omega), hcell, Function.update_of_ne hread]
        · rw [if_neg hin, if_neg (by omega), Function.update_of_ne hx]

theorem fill_apply {v : α} {dst : Nat} (m : Nat → α) (x : Nat) :
    fill v n dst m x = if dst ≤ x ∧ x < dst + n then v else m x := by
  induction n generalizing dst m with
  | zero => rw [fill, if_neg (by omega)]
  | succ n ih =>
      rw [fill, ih]
      by_cases hx : x = dst
      · subst hx
        rw [if_neg (by omega), if_pos (by omega), Function.update_self]
      · by_cases hin : dst + 1 ≤ x ∧ x < dst + 1 + n
        · rw [if_pos hin, if_pos (by omega)]
        · rw [if_neg hin, if_neg (by omega), Function.update_of_ne hx]

/-- A longer copy is two of them, one behind the other. -/
theorem copy_add (k n src dst : Nat) (m : Nat → α) :
    copy (k + n) src dst m = copy n (src + k) (dst + k) (copy k src dst m) := by
  induction k generalizing src dst m with
  | zero => rw [Nat.zero_add]; rfl
  | succ k ih =>
      rw [show k + 1 + n = k + n + 1 by omega, copy, ih, copy]
      rw [show src + 1 + k = src + (k + 1) by omega, show dst + 1 + k = dst + (k + 1) by omega]

theorem fill_add (v : α) (k n dst : Nat) (m : Nat → α) :
    fill v (k + n) dst m = fill v n (dst + k) (fill v k dst m) := by
  induction k generalizing dst m with
  | zero => rw [Nat.zero_add]; rfl
  | succ k ih =>
      rw [show k + 1 + n = k + n + 1 by omega, fill, ih, fill]
      rw [show dst + 1 + k = dst + (k + 1) by omega]

/-- The destination of a copy holds what the source held. -/
theorem cells_copy {src dst : Nat} (m : Nat → α) (h : dst ≤ src ∨ src + n ≤ dst) :
    cells (copy n src dst m) dst n = cells m src n := by
  apply cells_congr
  intro i hi
  rw [copy_apply m h, if_pos (by omega), Nat.add_sub_cancel_left]

end CodeLib.FlatMemory
