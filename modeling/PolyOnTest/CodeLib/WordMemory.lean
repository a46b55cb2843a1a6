import Mathlib.Algebra.Group.Nat.Defs
import PolyOnTest.CodeLib.FlatMemory

/-!
# Words in a flat memory

Words of 32 bits, the lowest byte first, in a memory of bytes.

* `word` reads the word at an address and `setWord` stores one.  A word reads as what was
  stored (`word_setWord`), and a store leaves the words apart from it
  (`word_setWord_apart`).
* Two words are `Apart` if they have no byte in common.
* A word that is stored as it was read copies four bytes (`setWord_word`), and a stored zero
  clears four (`setWord_zero`), so that loops over words are loops over bytes.
-/

namespace CodeLib.WordMemory

open CodeLib.FlatMemory

variable {m m' : Nat → UInt8} {a b x : Nat} {w : UInt32}

/-- A byte of a word. -/
def byte (w : UInt32) (i : Nat) : UInt8 := UInt8.ofNat (w.toNat / 256 ^ i)

/-- The word at an address. -/
def word (m : Nat → UInt8) (a : Nat) : UInt32 :=
  UInt32.ofNat ((m a).toNat + 256 * ((m (a + 1)).toNat +
    256 * ((m (a + 2)).toNat + 256 * (m (a + 3)).toNat)))

/-- Stores a word at an address. -/
def setWord (m : Nat → UInt8) (a : Nat) (w : UInt32) : Nat → UInt8 := fun x =>
  if a ≤ x ∧ x < a + 4 then byte w (x - a) else m x

/-- The words at two addresses have no byte in common. -/
def Apart (a b : Nat) : Prop := a + 4 ≤ b ∨ b + 4 ≤ a

theorem word_congr (h : ∀ i < 4, m (a + i) = m' (b + i)) : word m a = word m' b := by
  have h0 : m a = m' b := h 0 (by omega)
  unfold word
  rw [h0, h 1 (by omega), h 2 (by omega), h 3 (by omega)]

/-- The number that four bytes stand for. -/
theorem toNat_word (m : Nat → UInt8) (a : Nat) :
    (word m a).toNat = (m a).toNat + 256 * ((m (a + 1)).toNat +
      256 * ((m (a + 2)).toNat + 256 * (m (a + 3)).toNat)) := by
  have h0 := (m a).toNat_lt
  have h1 := (m (a + 1)).toNat_lt
  have h2 := (m (a + 2)).toNat_lt
  have h3 := (m (a + 3)).toNat_lt
  unfold word
  rw [UInt32.toNat_ofNat', Nat.mod_eq_of_lt (by omega)]

theorem toNat_byte (w : UInt32) (i : Nat) : (byte w i).toNat = w.toNat / 256 ^ i % 256 :=
  UInt8.toNat_ofNat'

/-- The bytes of a word are those that it was read from. -/
theorem byte_word (m : Nat → UInt8) (a : Nat) {i : Nat} (hi : i < 4) :
    byte (word m a) i = m (a + i) := by
  have h0 := (m a).toNat_lt
  have h1 := (m (a + 1)).toNat_lt
  have h2 := (m (a + 2)).toNat_lt
  have h3 := (m (a + 3)).toNat_lt
  apply UInt8.toNat_inj.mp
  rw [toNat_byte, toNat_word]
  match i, hi with
  | 0, _ =>
    show _ = (m a).toNat
    omega
  | 1, _ => omega
  | 2, _ => omega
  | 3, _ => omega

theorem setWord_other (h : x < a ∨ a + 4 ≤ x) : setWord m a w x = m x := by
  unfold setWord
  rw [if_neg (by omega)]

theorem setWord_at (m : Nat → UInt8) (a : Nat) (w : UInt32) {i : Nat} (hi : i < 4) :
    setWord m a w (a + i) = byte w i := by
  unfold setWord
  rw [if_pos (by omega), Nat.add_sub_cancel_left]

theorem word_setWord (m : Nat → UInt8) (a : Nat) (w : UInt32) : word (setWord m a w) a = w := by
  have h0 := setWord_at m a w (show 0 < 4 by decide)
  have h1 := setWord_at m a w (show 1 < 4 by decide)
  have h2 := setWord_at m a w (show 2 < 4 by decide)
  have h3 := setWord_at m a w (show 3 < 4 by decide)
  have hw := w.toNat_lt
  rw [Nat.add_zero] at h0
  apply UInt32.toNat_inj.mp
  rw [toNat_word, h0, h1, h2, h3, toNat_byte, toNat_byte, toNat_byte, toNat_byte]
  omega

theorem word_setWord_apart (h : Apart a b) : word (setWord m a w) b = word m b := by
  apply word_congr
  intro i hi
  apply setWord_other
  unfold Apart at h
  omega

/-! ## Loops over words -/

/-- A word that is stored as it was read. -/
theorem setWord_word {src dst : Nat} (m : Nat → UInt8) (h : dst ≤ src ∨ src + 4 ≤ dst) :
    setWord m dst (word m src) = copy 4 src dst m := by
  funext x
  rw [copy_apply m h]
  unfold setWord
  split_ifs with hx
  · exact byte_word m src (by omega)
  · rfl

theorem setWord_zero (m : Nat → UInt8) (dst : Nat) : setWord m dst 0 = fill 0 4 dst m := by
  funext x
  rw [fill_apply]
  unfold setWord
  split_ifs
  · unfold byte
    rw [show (0 : UInt32).toNat = 0 from rfl, Nat.zero_div]
    rfl
  · rfl

end CodeLib.WordMemory
