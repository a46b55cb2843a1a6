import PolyOnTest.Harness.Asserts

/-!
# What an assertion says

`Check.Holds` is the relation between the arguments of an assertion that its name stands
for, in terms of numbers, of lists and of the bits of a word.  `Check.InRange` is what the
functions take for granted: arrays have the elements that are compared, and
`pot_assert_int_within` gets two numbers whose distance is an `int64_t`.  The two assertions
on floating-point numbers compare a rounded difference and are left out.

`Assertion.calls_eq_nil` says that an assertion is silent exactly when its relation holds.
-/

namespace PolyOnTest.Harness

open CodeLib CodeLib.CMemory

/-- Both pointers are NULL, or both lead to something and the contents are related. -/
def Related {α : Type} (rel : α → α → Prop) : Option α → Option α → Prop
  | none, none => True
  | some a, some b => rel a b
  | _, _ => False

/-- The first `len` elements of two lists are the same. -/
def SameFront {α : Type} (len : Nat) (a b : List α) : Prop := ∀ i < len, a[i]? = b[i]?

/-- The relation that the assertion is about.  None is stated for floating-point numbers. -/
def Check.Holds : Check → Prop
  | .true cond _ => cond ≠ 0
  | .false cond _ => cond = 0
  | .null ptr => ptr = none
  | .notNull ptr => ptr ≠ none
  | .int e x _ _ => e.toInt = x.toInt
  | .uint e x _ _ => e.toNat = x.toNat
  | .notEqualInt e x => e.toInt ≠ x.toInt
  | .greaterThan t x => t.toInt < x.toInt
  | .lessThan t x => x.toInt < t.toInt
  | .intWithin delta e x => |x.toInt - e.toInt| ≤ delta.toInt
  | .floatWithin _ => False
  | .doubleWithin _ => False
  | .string e x => e = x
  | .stringLen e x len => Related (fun a b => SameFront len a.bytes b.bytes) e x
  | .memory e x len => len = 0 ∨ Related (SameFront len) e x
  | .intArray e x num => ∃ a b, e = some a ∧ x = some b ∧ SameFront num a b
  | .uint8Array e x num => ∃ a b, e = some a ∧ x = some b ∧ SameFront num a b
  | .bits mask e x => ∀ i, mask.toNat.testBit i → e.toNat.testBit i = x.toNat.testBit i
  | .bitsHigh mask x => ∀ i, mask.toNat.testBit i → x.toNat.testBit i
  | .bitsLow mask x => ∀ i, mask.toNat.testBit i → ¬ x.toNat.testBit i

/-- Two arrays that have the elements. -/
def HasElements {α : Type} (num : Nat) (e x : Option (List α)) : Prop :=
  ∀ a b, e = some a → x = some b → num ≤ a.length ∧ num ≤ b.length

/-- What the function takes for granted.  Floating-point numbers are out of range. -/
def Check.InRange : Check → Prop
  | .floatWithin _ => False
  | .doubleWithin _ => False
  | .intWithin _ e x => distance e x < 2 ^ 63
  | .intArray e x num => HasElements num e x
  | .uint8Array e x num => HasElements num e x
  | _ => True

/-! ## The comparisons -/

theorem sameContent_iff {α : Type} {same : α → α → Bool} {rel : α → α → Prop}
    (h : ∀ a b, same a b = true ↔ rel a b) (e x : Option α) :
    sameContent same e x = true ↔ Related rel e x := by
  cases e with
  | none => cases x <;> simp [sameContent, Related]
  | some a =>
    cases x with
    | none => simp [sameContent, Related]
    | some b => exact h a b

theorem related_eq {α : Type} (e x : Option α) : Related (· = ·) e x ↔ e = x := by
  cases e <;> cases x <;> simp [Related]

theorem take_eq_iff {α : Type} (len : Nat) (a b : List α) :
    a.take len = b.take len ↔ SameFront len a b := by
  rw [List.ext_getElem?_iff]
  constructor
  · intro h i hi
    have hget := h i
    rwa [List.getElem?_take_of_lt hi, List.getElem?_take_of_lt hi] at hget
  · intro h i
    by_cases hi : i < len
    · rw [List.getElem?_take_of_lt hi, List.getElem?_take_of_lt hi]
      exact h i hi
    · rw [List.getElem?_eq_none (by simp; omega), List.getElem?_eq_none (by simp; omega)]

/-- The bytes in front of the terminator. -/
theorem takeWhile_terminated (s : CStr) (len : Nat) :
    ((s.bytes ++ [0]).take len).takeWhile (· ≠ 0) = s.bytes.take len := by
  have hall : ∀ b ∈ s.bytes.take len, decide (b ≠ 0) = true := by
    intro b hb
    exact decide_eq_true fun h0 => s.noNul (h0 ▸ List.mem_of_mem_take hb)
  rw [List.take_append, List.takeWhile_append_of_pos hall]
  cases len - s.bytes.length with
  | zero => simp
  | succ n => simp

/-- `strncmp` compares the strings in front of their terminators. -/
theorem strncmpEq_iff (len : Nat) (a b : CStr) :
    strncmpEq len a b = true ↔ SameFront len a.bytes b.bytes := by
  unfold strncmpEq
  rw [decide_eq_true_iff, ← take_eq_iff]
  constructor
  · intro h
    rw [← takeWhile_terminated a, h, takeWhile_terminated]
  · intro h
    by_cases hlen : len ≤ a.bytes.length
    · have hb : len ≤ b.bytes.length := by
        have hlength := congrArg List.length h
        simp only [List.length_take] at hlength
        omega
      rw [List.take_append_of_le_length hlen, List.take_append_of_le_length hb, h]
    · -- one string ends in front of `len`, so the strings are the same
      have hb : b.bytes.length < len := by
        have hlength := congrArg List.length h
        simp only [List.length_take] at hlength
        omega
      have hsame : a.bytes = b.bytes := by
        rwa [List.take_of_length_le (by omega), List.take_of_length_le (by omega)] at h
      rw [hsame]

/-- The loop over two arrays finds no index exactly when the elements agree. -/
theorem firstDifference_eq_none {α : Type} [DecidableEq α] (i : Nat) (pairs : List (α × α)) :
    firstDifference i pairs = none ↔ ∀ pair ∈ pairs, pair.1 = pair.2 := by
  induction pairs generalizing i with
  | nil => simp [firstDifference]
  | cons pair pairs ih =>
      obtain ⟨e, a⟩ := pair
      rw [firstDifference, List.forall_mem_cons, ← ih (i + 1)]
      by_cases h : e = a
      · rw [if_neg (not_not.mpr h)]
        exact (and_iff_right h).symm
      · rw [if_pos h]
        exact iff_of_false (Option.some_ne_none _) fun hall => h hall.1

theorem firstDifference_zip {α : Type} [DecidableEq α] {num : Nat} {a b : List α}
    (ha : num ≤ a.length) (hb : num ≤ b.length) :
    firstDifference 0 ((a.zip b).take num) = none ↔ SameFront num a b := by
  rw [firstDifference_eq_none, ← take_eq_iff]
  have hlength : (a.take num).length = (b.take num).length := by
    rw [List.length_take_of_le ha, List.length_take_of_le hb]
  have hzip : (a.zip b).take num = (a.take num).zip (b.take num) := List.take_zipWith
  rw [hzip]
  generalize a.take num = xs at hlength
  generalize b.take num = ys at hlength
  induction xs generalizing ys with
  | nil => simp [List.length_eq_zero_iff.mp hlength.symm]
  | cons x xs ih =>
      cases ys with
      | nil => cases hlength
      | cons y ys =>
        rw [List.zip_cons_cons, List.forall_mem_cons, List.cons.injEq]
        exact and_congr Iff.rfl (ih ys (by simpa using hlength))

/-! ## The bits of a word -/

theorem masked_eq_iff (mask e x : UInt32) :
    mask &&& e = mask &&& x ↔
      ∀ i, mask.toNat.testBit i → e.toNat.testBit i = x.toNat.testBit i := by
  rw [← UInt32.toNat_inj, UInt32.toNat_and, UInt32.toNat_and]
  constructor
  · intro h i hi
    have hbit := congrArg (fun n => n.testBit i) h
    simpa [Nat.testBit_and, hi] using hbit
  · intro h
    apply Nat.eq_of_testBit_eq
    intro i
    rw [Nat.testBit_and, Nat.testBit_and]
    cases hi : mask.toNat.testBit i with
    | false => rfl
    | true => rw [h i hi]

theorem masked_high_iff (mask x : UInt32) :
    mask &&& x = mask ↔ ∀ i, mask.toNat.testBit i → x.toNat.testBit i := by
  have hself := masked_eq_iff mask x mask
  rw [UInt32.and_self] at hself
  rw [hself]
  exact forall_congr' fun i => imp_congr_right fun hi => by rw [hi]

theorem masked_low_iff (mask x : UInt32) :
    mask &&& x = 0 ↔ ∀ i, mask.toNat.testBit i → ¬ x.toNat.testBit i := by
  have hzero := masked_eq_iff mask x 0
  rw [UInt32.and_zero] at hzero
  rw [hzero]
  refine forall_congr' fun i => imp_congr_right fun _ => ?_
  rw [UInt32.toNat_zero, Nat.zero_testBit, Bool.not_eq_true]

/-! ## The verdict of an assertion -/

theorem ite_nil_iff {p : Prop} [Decidable p] {cs : List Call} (h : cs ≠ []) :
    (if p then [] else cs) = [] ↔ p := by
  by_cases hp : p
  · rw [if_pos hp]
    exact iff_of_true rfl hp
  · rw [if_neg hp]
    exact iff_of_false h hp

theorem failWith_ne_nil {cap : Nat} {frags : List AsFrag} {msg file : Option CStr}
    {line : Int32} : failWith cap frags msg file line ≠ [] := List.cons_ne_nil _ _

theorem failText_ne_nil {text : String} {msg file : Option CStr} {line : Int32} :
    failText text msg file line ≠ [] := List.cons_ne_nil _ _

/-- An assertion on arrays, from what its branches do. -/
theorem array_nil_iff {α : Type} [DecidableEq α] {num : Nat} {e x : Option (List α)}
    (hrange : HasElements num e x) {cs : List Call} (hnull : e = none ∨ x = none → cs ≠ [])
    (hsame : ∀ a b, e = some a → x = some b →
      (cs = [] ↔ firstDifference 0 ((a.zip b).take num) = none)) :
    cs = [] ↔ ∃ a b, e = some a ∧ x = some b ∧ SameFront num a b := by
  cases e with
  | none => exact iff_of_false (hnull (.inl rfl)) (by simp)
  | some a =>
    cases x with
    | none => exact iff_of_false (hnull (.inr rfl)) (by simp)
    | some b =>
      obtain ⟨ha, hb⟩ := hrange a b rfl rfl
      rw [hsame a b rfl rfl, firstDifference_zip ha hb]
      simp

theorem potAssertIntArray_eq_nil {e x : Option (List Int32)} {num : Nat}
    (h : HasElements num e x) (msg file : Option CStr) (line : Int32) :
    potAssertIntArray e x num msg file line = [] ↔
      ∃ a b, e = some a ∧ x = some b ∧ SameFront num a b := by
  apply array_nil_iff h
  · rintro (rfl | rfl)
    · exact failText_ne_nil
    · cases e <;> exact failText_ne_nil
  · rintro a b rfl rfl
    unfold potAssertIntArray
    dsimp only
    cases firstDifference 0 ((a.zip b).take num) with
    | none => simp
    | some y => exact iff_of_false failWith_ne_nil (Option.some_ne_none y)

theorem potAssertUint8Array_eq_nil {e x : Option (List UInt8)} {num : Nat}
    (h : HasElements num e x) (msg file : Option CStr) (line : Int32) :
    potAssertUint8Array e x num msg file line = [] ↔
      ∃ a b, e = some a ∧ x = some b ∧ SameFront num a b := by
  apply array_nil_iff h
  · rintro (rfl | rfl)
    · exact failText_ne_nil
    · cases e <;> exact failText_ne_nil
  · rintro a b rfl rfl
    unfold potAssertUint8Array
    dsimp only
    cases firstDifference 0 ((a.zip b).take num) with
    | none => simp
    | some y => exact iff_of_false failWith_ne_nil (Option.some_ne_none y)

/-- An assertion is silent exactly when its relation holds. -/
theorem Assertion.calls_eq_nil (a : Assertion) (h : a.check.InRange) :
    a.calls = [] ↔ a.check.Holds := by
  obtain ⟨check, msg, file, line⟩ := a
  unfold calls
  cases check with
  | true cond expr => exact ite_nil_iff failWith_ne_nil
  | false cond expr => exact ite_nil_iff failWith_ne_nil
  | null ptr => exact ite_nil_iff failText_ne_nil
  | notNull ptr => exact ite_nil_iff failText_ne_nil
  | int e x size isHex =>
    exact (ite_nil_iff failWith_ne_nil).trans Int64.toInt_inj.symm
  | uint e x size isHex =>
    exact (ite_nil_iff failWith_ne_nil).trans UInt64.toNat_inj.symm
  | notEqualInt e x =>
    exact (ite_nil_iff failWith_ne_nil).trans (not_congr Int64.toInt_inj.symm)
  | greaterThan t x => exact (ite_nil_iff failWith_ne_nil).trans Int64.lt_iff_toInt_lt
  | lessThan t x => exact (ite_nil_iff failWith_ne_nil).trans Int64.lt_iff_toInt_lt
  | intWithin delta e x =>
    refine (ite_nil_iff failWith_ne_nil).trans ?_
    show _ ↔ |x.toInt - e.toInt| ≤ delta.toInt
    rw [Int64.le_iff_toInt_le, withinDiff_of_fits h, distance, Int.natCast_natAbs]
  | floatWithin within => exact h.elim
  | doubleWithin within => exact h.elim
  | string e x =>
    refine (ite_nil_iff failWith_ne_nil).trans ?_
    refine (sameContent_iff (fun a b => ?_) e x).trans (related_eq e x)
    rw [decide_eq_true_iff]
    exact (@strCmp_eq_iff (some a) (some b)).trans Option.some_inj
  | stringLen e x len =>
    exact (ite_nil_iff failText_ne_nil).trans (sameContent_iff (strncmpEq_iff len) e x)
  | memory e x len =>
    refine (ite_nil_iff failText_ne_nil).trans (or_congr Iff.rfl ?_)
    apply sameContent_iff
    intro a b
    rw [decide_eq_true_iff]
    exact take_eq_iff len a b
  | intArray e x num => exact potAssertIntArray_eq_nil h msg file line
  | uint8Array e x num => exact potAssertUint8Array_eq_nil h msg file line
  | bits mask e x => exact (ite_nil_iff failWith_ne_nil).trans (masked_eq_iff mask e x)
  | bitsHigh mask x => exact (ite_nil_iff failText_ne_nil).trans (masked_high_iff mask x)
  | bitsLow mask x => exact (ite_nil_iff failText_ne_nil).trans (masked_low_iff mask x)

end PolyOnTest.Harness
