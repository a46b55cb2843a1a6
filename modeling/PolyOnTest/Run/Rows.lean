import Mathlib.Data.List.Infix
import PolyOnTest.Harness.Asserts

/-!
# Messages of a parameter row

`pot_fail_at` puts the index of the row behind the message, and it has 192
bytes for both.  `RowSet` is the state between `pot_set_param` and
`pot_clear_param`, and `paramSuffix` is the text that names the row.

The suffix is lost when the message is long.  It begins with a space and has no
other, so the front of the slot cannot hold it across the end of the message
(`infix_take_append_iff`), and `slot_suffix_iff` says exactly when the slot
names the row.
-/

namespace PolyOnTest.Run

open CodeLib CodeLib.CMemory PolyOnTest.Harness

/-! ## Words that begin with a byte of their own -/

section Words

variable {α : Type} {a : α} {word base : List α} {n : Nat}

/-- A word that is cut off at the end of a text is in the front of the text only
if the text in front of it has it. -/
theorem infix_take_append_iff (ha : a ∉ word) (hcut : n < base.length + (a :: word).length) :
    a :: word <:+: (base ++ a :: word).take n ↔ a :: word <:+: base.take n := by
  constructor
  · rintro ⟨front, back, h⟩
    have hlen := congrArg List.length h
    simp only [List.length_append, List.length_cons, List.length_take] at hlen hcut
    have hprefix : front ++ a :: word <+: base ++ a :: word :=
      (List.prefix_append _ back).trans (h ▸ List.take_prefix _ _)
    by_cases hend : (front ++ a :: word).length ≤ base.length
    · have hbase := List.prefix_of_prefix_length_le hprefix (List.prefix_append _ _) hend
      have htake : front ++ a :: word <+: base.take n := by
        refine List.prefix_take_iff.mpr ⟨hbase, ?_⟩
        simp only [List.length_append, List.length_cons]
        omega
      exact (List.suffix_append front _).isInfix.trans htake.isInfix
    · -- the word reaches over the end of `base`, where its first byte stands again
      simp only [List.length_append, List.length_cons] at hend
      have hat : (front ++ a :: word)[base.length]? = some a := by
        have hlt : base.length < (front ++ a :: word).length := by
          simp only [List.length_append, List.length_cons]
          omega
        rw [List.getElem?_eq_getElem hlt, ← List.prefix_iff_getElem?.mp hprefix _ hlt]
        simp
      rw [List.getElem?_append_right (by omega)] at hat
      obtain ⟨k, hk⟩ : ∃ k, base.length - front.length = k + 1 :=
        ⟨base.length - front.length - 1, by omega⟩
      rw [hk, List.getElem?_cons_succ] at hat
      exact absurd (List.mem_of_getElem? hat) ha
  · intro h
    exact h.trans ((List.prefix_append base _).take n).isInfix

end Words

/-! ## The row of a failure -/

/-- A row is set and not yet cleared. -/
structure RowSet (g : Globals) (i : UInt64) : Prop where
  active : g.paramActive = true
  index : g.paramIndex = i

/-- The text that names a row. -/
def paramSuffix (i : UInt64) : List UInt8 :=
  (CStr.lit " [param=").bytes ++ Decimal.numeral i.toNat ++ (CStr.lit "]").bytes

/-- The message that `pot_fail_at` works with. -/
def failBase (message : Option CStr) : CStr := message.getD (CStr.lit "fail")

/-- `pot_set_param` sets a row. -/
theorem RowSet.set (g : Globals) (i : UInt64) (param : Option Nat) :
    RowSet ((Call.setParam i param).effect g) i :=
  ⟨rfl, rfl⟩

/-- Every call but `pot_set_param` and `pot_clear_param` keeps the row. -/
theorem RowSet.calls {g : Globals} {i : UInt64} (h : RowSet g i) {cs : List Call}
    (hset : ∀ j param, .setParam j param ∉ cs) (hclear : .clearParam ∉ cs) :
    RowSet (cs.foldl Call.effect g) i := by
  induction cs generalizing g with
  | nil => exact h
  | cons c cs ih =>
      have hc : RowSet (c.effect g) i := by
        cases c with
        | setParam j param => exact absurd List.mem_cons_self (hset j param)
        | clearParam => exact absurd List.mem_cons_self hclear
        | _ => exact ⟨h.active, h.index⟩
      exact ih hc (fun j param hj => hset j param (List.mem_cons_of_mem _ hj))
        fun hm => hclear (List.mem_cons_of_mem _ hm)

/-- The suffix is a space and bytes other than a space. -/
theorem paramSuffix_eq (i : UInt64) :
    ∃ word, paramSuffix i = 0x20 :: word ∧ 0x20 ∉ word := by
  have hopen : (CStr.lit " [param=").bytes = [0x20, 0x5B, 0x70, 0x61, 0x72, 0x61, 0x6D, 0x3D] := by
    decide
  have hclose : (CStr.lit "]").bytes = [0x5D] := by decide
  refine ⟨[0x5B, 0x70, 0x61, 0x72, 0x61, 0x6D, 0x3D] ++ Decimal.numeral i.toNat ++ [0x5D],
    by rw [paramSuffix, hopen, hclose]; rfl, fun h => ?_⟩
  rcases List.mem_append.mp h with h | h
  · rcases List.mem_append.mp h with h | h
    · exact absurd h (by decide)
    · exact absurd (Decimal.mem_numeral h).1 (by decide)
  · exact absurd h (by decide)

/-- The slot holds as much of the message and the suffix as fits. -/
theorem messageWithParam_row {g : Globals} {i : UInt64} (h : RowSet g i)
    (hi : i.toNat < 2 ^ 31) (message : Option CStr) :
    (messageWithParam g message).bytes =
      ((failBase message).bytes ++ paramSuffix i).take 191 := by
  have hindex : i.toUInt32.toNat = i.toNat := by
    rw [UInt64.toNat_toUInt32]
    omega
  rw [messageWithParam, if_pos h.active, h.index]
  refine (build_cstr (show 0 < 192 by decide) (failBase message) _).1.trans ?_
  simp [lineText, litFrag, Frag.text, paramSuffix, hindex]

/-- The slot of a failure names its row when the message and the suffix fit, or
when the front of the message has the suffix by itself, and only then. -/
theorem slot_suffix_iff {g : Globals} {i : UInt64} (h : RowSet g i) (hi : i.toNat < 2 ^ 31)
    (file : Option CStr) (line : Int32) (message : Option CStr) :
    ∃ slot, (Call.failAt file line message).msgs g = [.assertFail g.cur file line slot] ∧
      (paramSuffix i <:+: slot.bytes ↔
        (failBase message).bytes.length + (paramSuffix i).length ≤ 191 ∨
          paramSuffix i <:+: (failBase message).bytes.take 191) := by
  refine ⟨messageWithParam g message, rfl, ?_⟩
  obtain ⟨word, hword, hspace⟩ := paramSuffix_eq i
  rw [messageWithParam_row h hi]
  by_cases hfits : (failBase message).bytes.length + (paramSuffix i).length ≤ 191
  · rw [List.take_of_length_le (by rw [List.length_append]; exact hfits)]
    exact iff_of_true (List.suffix_append _ _).isInfix (.inl hfits)
  · have hcut := @infix_take_append_iff _ 0x20 word (failBase message).bytes 191 hspace
      (by rw [← hword]; exact Nat.lt_of_not_le hfits)
    rw [← hword] at hcut
    rw [hcut]
    exact ⟨.inr, fun h => h.resolve_left hfits⟩

/-- The state in a body that has set the row 3. -/
def inRowThree : Globals := (Call.setParam 3 (some 64)).effect Globals.init

/-- A short message. -/
theorem slot_suffix_boom :
    ∃ slot, (Call.failAt none 7 (some (CStr.lit "boom"))).msgs inRowThree =
        [.assertFail inRowThree.cur none 7 slot] ∧
      (paramSuffix 3 <:+: slot.bytes ↔
        (failBase (some (CStr.lit "boom"))).bytes.length + (paramSuffix 3).length ≤ 191 ∨
          paramSuffix 3 <:+: (failBase (some (CStr.lit "boom"))).bytes.take 191) :=
  slot_suffix_iff (RowSet.set Globals.init 3 (some 64)) (by decide) none 7 (some (CStr.lit "boom"))

/-- A string of 200 letters. -/
def longWord : CStr :=
  ⟨List.replicate 200 0x61, fun h => absurd (List.eq_of_mem_replicate h) (by decide)⟩

/-- The failure of `pot_assert_string` on a long string does not name the row. -/
theorem slot_without_suffix :
    RowSet inRowThree 3 ∧
    ∃ slot, (potAssertString (some longWord) (some (CStr.lit "b")) none none 7).flatMap
        (Call.msgs inRowThree) = [.assertFail inRowThree.cur none 7 slot] ∧
      ¬ paramSuffix 3 <:+: slot.bytes :=
  ⟨RowSet.set Globals.init 3 (some 64), _, rfl, by decide +kernel⟩

end PolyOnTest.Run
