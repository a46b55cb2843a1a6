import PolyOnTest.CodeLib.FlatMemory
import PolyOnTest.CodeLib.Fuel
import PolyOnTest.Harness.Asserts

/-!
# The C library of the freestanding target

`syscalls.c` of the QEMU example brings the functions of the C library that a freestanding
build of the harness calls.  The model of the harness takes them for what the standard says
of them: `CStr.strlen`, `CStr.strcmp` in `str_cmp`, `strncmpEq`, the comparison of two byte
lists, and `Buffer.storeAll`.

Here they are the loops of the source over the bytes of the memory, and
`freestanding_library` says that they do what the model takes them for.  The two loops that
look for a terminator have fuel.
-/

namespace PolyOnTest.Target

open CodeLib CodeLib.CMemory CodeLib.FlatMemory CodeLib.Fuel

/-- The memory of the target, by bytes. -/
abbrev Memory := Nat → UInt8

/-! ## The source -/

/-- `memcpy`: the memory behind it, and what it returns. -/
def memcpy (m : Memory) (dst src n : Nat) : Memory × Nat := (copy n src dst m, dst)

/-- `memset` -/
def memset (m : Memory) (dst : Nat) (c : Int32) (n : Nat) : Memory × Nat :=
  (fill c.toUInt32.toUInt8 n dst m, dst)

/-- The loop of `strlen`, behind `n` trips. -/
def strlenLoop (m : Memory) (s : Nat) : Nat → Nat → Option Nat
  | 0, _ => none
  | fuel + 1, n => if m (s + n) ≠ 0 then strlenLoop m s fuel (n + 1) else some n

/-- `strlen` -/
def strlen (m : Memory) (s fuel : Nat) : Option Nat := strlenLoop m s fuel 0

/-- The difference of two bytes as `unsigned char`. -/
def byteDifference (x y : UInt8) : Int := (x.toNat : Int) - y.toNat

/-- `strcmp` -/
def strcmp (m : Memory) : Nat → Nat → Nat → Option Int
  | _, _, 0 => none
  | a, b, fuel + 1 =>
      if m a ≠ 0 ∧ m a = m b then strcmp m (a + 1) (b + 1) fuel
      else some (byteDifference (m a) (m b))

/-- `strncmp` -/
def strncmp (m : Memory) : Nat → Nat → Nat → Int
  | _, _, 0 => 0
  | a, b, n + 1 =>
      if m a ≠ 0 ∧ m a = m b then strncmp m (a + 1) (b + 1) n
      else byteDifference (m a) (m b)

/-- `memcmp` -/
def memcmp (m : Memory) : Nat → Nat → Nat → Int
  | _, _, 0 => 0
  | a, b, n + 1 =>
      if m a ≠ m b then byteDifference (m a) (m b) else memcmp m (a + 1) (b + 1) n

/-- `str_cmp` of the harness, on two pointers. -/
def strCmp (m : Memory) (a b fuel : Nat) : Option Int :=
  if a = 0 ∧ b = 0 then some 0
  else if a = 0 then some (-1)
  else if b = 0 then some 1
  else strcmp m a b fuel

/-! ## What the pointers lead to -/

/-- The string at an address. -/
def HasStr (m : Memory) (a : Nat) (s : CStr) : Prop := HasAt m a (s.bytes ++ [0])

/-- A pointer that may be NULL. -/
def Names (m : Memory) (a : Nat) : Option CStr → Prop
  | none => a = 0
  | some s => a ≠ 0 ∧ HasStr m a s

variable {m : Memory} {a b : Nat}

/-! ## The loops -/

theorem strlenLoop_ends {bytes : List UInt8} (hnul : 0 ∉ bytes) {n : Nat}
    (h : HasAt m (a + n) (bytes ++ [0])) :
    Ends (fun fuel => strlenLoop m a fuel n) (n + bytes.length) := by
  induction bytes generalizing n with
  | nil =>
      apply Ends.of_succ
      have hstop : m (a + n) = 0 := h.1
      simp only [strlenLoop, hstop]
      exact Ends.pure n
  | cons x bytes ih =>
      rw [List.mem_cons, not_or] at hnul
      apply Ends.of_succ
      have hx : m (a + n) ≠ 0 := by
        rw [h.1]
        exact Ne.symm hnul.1
      have hnext : HasAt m (a + (n + 1)) (bytes ++ [0]) := h.2
      simp only [strlenLoop, if_pos hx]
      rw [List.length_cons, show n + (bytes.length + 1) = n + 1 + bytes.length by omega]
      exact ih hnul.2 hnext

/-- The difference has the sign of the comparison. -/
theorem compare_byteDifference (x y : UInt8) : compare (byteDifference x y) 0 = compare x y := by
  unfold byteDifference
  cases hxy : compare x y with
  | lt =>
    have hlt : x.toNat < y.toNat := UInt8.lt_iff_toNat_lt.mp (Std.compare_eq_lt.mp hxy)
    apply Std.compare_eq_lt.mpr
    omega
  | eq =>
    rw [Std.compare_eq_iff_eq.mp hxy, Int.sub_self]
    rfl
  | gt =>
    have hgt : y.toNat < x.toNat := UInt8.lt_iff_toNat_lt.mp (Std.compare_eq_gt.mp hxy)
    apply Std.compare_eq_gt.mpr
    omega

theorem byteDifference_eq_zero {x y : UInt8} : byteDifference x y = 0 ↔ x = y := by
  rw [← Std.compare_eq_iff_eq (a := byteDifference x y), compare_byteDifference,
    Std.compare_eq_iff_eq]

/-- The order of two strings is the order of their first bytes, or that of the rest. -/
theorem compare_cons (x y : UInt8) (xs ys : List UInt8) :
    compare (x :: xs) (y :: ys) = (compare x y).then (compare xs ys) := by
  rw [List.compare_eq_compareLex, List.compareLex_cons_cons]

/-- The first byte of a string: its terminator, or a byte in front of the rest. -/
theorem first_byte {xs : List UInt8} (hx : 0 ∉ xs) (h : HasAt m a (xs ++ [0])) :
    (m a = 0 ∧ xs = []) ∨
      ∃ rest, m a ≠ 0 ∧ xs = m a :: rest ∧ 0 ∉ rest ∧ HasAt m (a + 1) (rest ++ [0]) := by
  cases xs with
  | nil => exact .inl ⟨h.1, rfl⟩
  | cons x xs =>
    rw [List.mem_cons, not_or] at hx
    have hhead : m a = x := h.1
    exact .inr ⟨xs, hhead ▸ Ne.symm hx.1, by rw [hhead], hx.2, h.2⟩

theorem strcmp_stop (h : ¬ (m a ≠ 0 ∧ m a = m b)) :
    Ends (strcmp m a b) (byteDifference (m a) (m b)) := by
  apply Ends.of_succ
  simp only [strcmp, if_neg h]
  exact Ends.pure _

theorem strcmp_trip {r : Int} (h : m a ≠ 0 ∧ m a = m b) (hr : Ends (strcmp m (a + 1) (b + 1)) r) :
    Ends (strcmp m a b) r := by
  apply Ends.of_succ
  simp only [strcmp, if_pos h]
  exact hr

/-- `strcmp` ends at the first difference or at the terminators, by induction on the first
string. -/
theorem strcmp_ends {xs ys : List UInt8} (hx : 0 ∉ xs) (hy : 0 ∉ ys)
    (ha : HasAt m a (xs ++ [0])) (hb : HasAt m b (ys ++ [0])) :
    ∃ r, Ends (strcmp m a b) r ∧ compare r 0 = compare xs ys := by
  induction xs generalizing a b ys with
  | nil =>
      have hend : m a = 0 := ha.1
      refine ⟨_, strcmp_stop fun h => h.1 hend, ?_⟩
      rw [compare_byteDifference, hend]
      rcases first_byte hy hb with ⟨hend', rfl⟩ | ⟨rest, hne, rfl, -, -⟩
      · rw [hend']
        rfl
      · have hlt : compare 0 (m b) = .lt :=
          Std.compare_eq_lt.mpr (UInt8.pos_iff_ne_zero.mpr hne)
        rw [hlt]
        rfl
  | cons x xs ih =>
      rw [List.mem_cons, not_or] at hx
      obtain rfl : m a = x := ha.1
      rcases first_byte hy hb with ⟨hend, rfl⟩ | ⟨rest, -, rfl, hrest, hb'⟩
      · have hne : m a ≠ 0 := Ne.symm hx.1
        have hgt : compare (m a) 0 = .gt := Std.compare_eq_gt.mpr (UInt8.pos_iff_ne_zero.mpr hne)
        refine ⟨_, strcmp_stop fun h => hne (h.2.trans hend), ?_⟩
        rw [compare_byteDifference, hend, hgt]
        rfl
      · rw [compare_cons]
        by_cases hsame : m a = m b
        · obtain ⟨r, hr, hsign⟩ := ih hx.2 hrest ha.2 hb'
          have heq : compare (m a) (m b) = .eq := Std.compare_eq_iff_eq.mpr hsame
          refine ⟨r, strcmp_trip ⟨Ne.symm hx.1, hsame⟩ hr, ?_⟩
          rw [hsign, heq]
          rfl
        · refine ⟨_, strcmp_stop fun h => hsame h.2, ?_⟩
          rw [compare_byteDifference]
          cases hxy : compare (m a) (m b) with
          | lt => rfl
          | eq => exact absurd (Std.compare_eq_iff_eq.mp hxy) hsame
          | gt => rfl

/-- `strncmp` compares the strings with their terminators, by induction on the bound. -/
theorem strncmp_eq_zero {xs ys : List UInt8} (hx : 0 ∉ xs) (hy : 0 ∉ ys)
    (ha : HasAt m a (xs ++ [0])) (hb : HasAt m b (ys ++ [0])) (n : Nat) :
    strncmp m a b n = 0 ↔ (xs ++ [0]).take n = (ys ++ [0]).take n := by
  induction n generalizing a b xs ys with
  | zero => simp [strncmp]
  | succ n ih =>
      rw [strncmp]
      rcases first_byte hx ha with ⟨hend, rfl⟩ | ⟨xs, hne, rfl, hxs, ha'⟩
      · -- the first string has ended
        rw [if_neg fun h => h.1 hend, byteDifference_eq_zero, hend]
        rcases first_byte hy hb with ⟨hend', rfl⟩ | ⟨ys, hne', rfl, -, -⟩
        · simp [hend']
        · simp [Ne.symm hne']
      · rcases first_byte hy hb with ⟨hend', rfl⟩ | ⟨ys, -, rfl, hys, hb'⟩
        · rw [if_neg fun h => hne (h.2.trans hend'), byteDifference_eq_zero, hend']
          simp [hne]
        · by_cases hsame : m a = m b
          · rw [if_pos ⟨hne, hsame⟩, ih hxs hys ha' hb', List.cons_append, List.cons_append,
              List.take_succ_cons, List.take_succ_cons, hsame, List.cons.injEq]
            exact (and_iff_right rfl).symm
          · rw [if_neg fun h => hsame h.2, byteDifference_eq_zero]
            simp [hsame]

theorem memcmp_eq_zero (m : Memory) (a b n : Nat) :
    memcmp m a b n = 0 ↔ cells m a n = cells m b n := by
  induction n generalizing a b with
  | zero => simp [memcmp, cells]
  | succ n ih =>
      rw [memcmp, cells, cells, List.cons.injEq]
      split_ifs with h
      · rw [byteDifference_eq_zero]
        exact ⟨fun heq => absurd heq h, fun heq => heq.1⟩
      · rw [ih]
        exact ⟨fun heq => ⟨not_not.mp h, heq⟩, fun heq => heq.2⟩

/-! ## The library -/

theorem strlen_ends {s : CStr} (h : HasStr m a s) : Ends (strlen m a) s.strlen := by
  have hloop := strlenLoop_ends (n := 0) s.noNul h
  rwa [Nat.zero_add] at hloop

/-- `str_cmp` on two pointers has the sign of the comparison of the names. -/
theorem strCmp_ends {x y : Option CStr} (ha : Names m a x) (hb : Names m b y) :
    ∃ r, Ends (strCmp m a b) r ∧ compare r 0 = Harness.strCmp x y := by
  unfold strCmp
  cases x with
  | none =>
    have ha : a = 0 := ha
    cases y with
    | none =>
      have hb : b = 0 := hb
      simp only [ha, hb, and_self, if_true]
      exact ⟨0, Ends.pure 0, rfl⟩
    | some y =>
      simp only [ha, hb.1, and_false, if_false, if_true]
      exact ⟨-1, Ends.pure (-1), rfl⟩
  | some x =>
    cases y with
    | none =>
      have hb : b = 0 := hb
      simp only [ha.1, hb, false_and, if_false, if_true]
      exact ⟨1, Ends.pure 1, rfl⟩
    | some y =>
      simp only [ha.1, hb.1, false_and, if_false]
      exact strcmp_ends x.noNul y.noNul ha.2 hb.2

/-- The loops of `syscalls.c` do what the model of the harness takes the library for. -/
theorem freestanding_library (m : Memory) :
    (∀ a s, HasStr m a s → Ends (strlen m a) s.strlen) ∧
    (∀ a b x y, Names m a x → Names m b y →
      ∃ r, Ends (strCmp m a b) r ∧ compare r 0 = Harness.strCmp x y) ∧
    (∀ a b n s t, HasStr m a s → HasStr m b t →
      (strncmp m a b n = 0 ↔ Harness.strncmpEq n s t = true)) ∧
    (∀ a b n, memcmp m a b n = 0 ↔ cells m a n = cells m b n) ∧
    (∀ dst src n, src + n ≤ dst ∨ dst + n ≤ src →
      cells (memcpy m dst src n).1 dst n = cells m src n ∧
        ∀ x, x < dst ∨ dst + n ≤ x → (memcpy m dst src n).1 x = m x) ∧
    ∀ dst c n x, (memset m dst c n).1 x =
      if dst ≤ x ∧ x < dst + n then c.toUInt32.toUInt8 else m x := by
  refine ⟨fun a s h => strlen_ends h, fun a b x y ha hb => strCmp_ends ha hb, ?_,
    memcmp_eq_zero m, ?_, fun dst c n x => fill_apply m x⟩
  · intro a b n s t ha hb
    rw [strncmp_eq_zero s.noNul t.noNul ha hb n, Harness.strncmpEq, decide_eq_true_iff]
  · intro dst src n hapart
    refine ⟨cells_copy m (by omega), fun x hx => ?_⟩
    show copy n src dst m x = m x
    rw [copy_apply m (by omega), if_neg (by omega)]

end PolyOnTest.Target
