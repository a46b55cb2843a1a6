import Mathlib.Data.List.GetD
import Mathlib.Tactic.SplitIfs

/-!
# Arrays of static size

An array with a size that is known when the program is compiled, over any type.
Like `CMemory.Buffer` it remembers whether some store fell outside, and the
index of a store is any integer, as it is in C.

`store_cells` and `fill_cells` say what the cells are after a store and after
the loop that gives all of them one value.  `recorded` is the other half: the
cells that the first entries of a growing log leave, and `recorded_append` is
the step of the log.
-/

namespace CodeLib

/-- An array of `len` cells.  `overrun` records a store outside of it. -/
structure StaticArray (len : Nat) (A : Type) where
  cells : Fin len → A
  overrun : Bool

namespace StaticArray

variable {len : Nat} {A : Type}

/-- A static array before the program starts. -/
def zeroed [Zero A] : StaticArray len A := ⟨fun _ => 0, false⟩

/-- `arr[i] = a`. -/
def store (arr : StaticArray len A) (i : Int) (a : A) : StaticArray len A :=
  if 0 ≤ i ∧ i < len then
    { arr with cells := fun j => if (j : Int) = i then a else arr.cells j }
  else { arr with overrun := true }

/-- `for (i = 0; i < n; ++i) arr[i] = a`. -/
def storeBelow (a : A) : Nat → StaticArray len A → StaticArray len A
  | 0, arr => arr
  | n + 1, arr => (storeBelow a n arr).store n a

/-- The same loop over the whole array. -/
def fill (arr : StaticArray len A) (a : A) : StaticArray len A := storeBelow a len arr

/-- A store outside changes no cell, and no cell has such an index. -/
theorem store_cells (arr : StaticArray len A) (i : Int) (a : A) (j : Fin len) :
    (arr.store i a).cells j = if (j : Int) = i then a else arr.cells j := by
  unfold store
  split_ifs with hin hj hj
  · exact if_pos hj
  · exact if_neg hj
  · have hlt := j.isLt
    omega
  · rfl

theorem store_overrun {arr : StaticArray len A} {i : Int} (h0 : 0 ≤ i) (hlt : i < len)
    (a : A) : (arr.store i a).overrun = arr.overrun := by
  rw [store, if_pos ⟨h0, hlt⟩]

theorem storeBelow_cells (arr : StaticArray len A) (a : A) (n : Nat) (j : Fin len) :
    (storeBelow a n arr).cells j = if j.val < n then a else arr.cells j := by
  induction n with
  | zero => rfl
  | succ n ih =>
      rw [storeBelow, store_cells, ih]
      split_ifs <;> first | rfl | omega

theorem storeBelow_overrun (arr : StaticArray len A) (a : A) {n : Nat} (h : n ≤ len) :
    (storeBelow a n arr).overrun = arr.overrun := by
  induction n with
  | zero => rfl
  | succ n ih =>
      rw [storeBelow, store_overrun (by omega) (by omega)]
      exact ih (by omega)

@[simp] theorem fill_cells (arr : StaticArray len A) (a : A) (j : Fin len) :
    (arr.fill a).cells j = a := by
  rw [fill, storeBelow_cells, if_pos j.isLt]

@[simp] theorem fill_overrun (arr : StaticArray len A) (a : A) :
    (arr.fill a).overrun = arr.overrun :=
  storeBelow_overrun arr a (Nat.le_refl len)

end StaticArray

/-- The cells that a log leaves in an array of zeros. -/
def recorded {A : Type} [Zero A] (log : List A) (i : Nat) : A := log.getD i 0

/-- The next entry goes to the cell behind the log. -/
theorem recorded_append {A : Type} [Zero A] (log : List A) (a : A) (i : Nat) :
    recorded (log ++ [a]) i = if i = log.length then a else recorded log i := by
  unfold recorded
  rcases Nat.lt_trichotomy i log.length with hi | hi | hi
  · rw [if_neg (by omega), List.getD_append _ _ _ _ hi]
  · rw [if_pos hi, hi]
    simp
  · rw [if_neg (by omega), List.getD_eq_default _ _ (by simp; omega),
      List.getD_eq_default _ _ (by omega)]

end CodeLib
