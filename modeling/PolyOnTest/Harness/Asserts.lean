import PolyOnTest.Harness.AssertFormat
import PolyOnTest.Harness.Runner

/-!
# The assertions

The functions of `polytest_assert.c`.  Each of them compares its arguments and,
when they do not match, builds a message and passes it to `pot_fail_at`.  An
assertion is modelled by the calls of the core that it makes: none or one.

The last three arguments are the same everywhere: the message of the user,
which comes behind the own text of the assertion, and the place
(`Assertion.calls_eq`).

The rest is about one of them: `pot_assert_int_within` subtracts in two's
complement, and `potAssertIntWithin_exact_iff` says when it is exact.
-/

namespace PolyOnTest.Harness

open CodeLib CodeLib.CMemory

/-! ## Reports -/

/-- `pt_as_append_str` of a literal. -/
def asLit (s : String) : AsFrag := .str (some (CStr.lit s))

/-- `pt_as_fail_msg` -/
def ptAsFailMsg (file : Option CStr) (line : Int32) (base extra : Option CStr) : Call :=
  .failAt file line (some (asBuild 256
    (.str (some (base.getD (CStr.lit "assert"))) ::
      match nonEmpty extra with
      | some extra => [asLit ": ", .str (some extra)]
      | none => [])).cstr)

/-- An assertion that fails with a fixed text. -/
def failText (text : String) (msg file : Option CStr) (line : Int32) : List Call :=
  [ptAsFailMsg file line (some (CStr.lit text)) msg]

/-- An assertion that fails with a text built in a buffer of `cap` bytes. -/
def failWith (cap : Nat) (frags : List AsFrag) (msg file : Option CStr) (line : Int32) :
    List Call :=
  [ptAsFailMsg file line (some (asBuild cap frags).cstr) msg]

/-! ## Conditions and pointers -/

/-- `pot_assert_true` -/
def potAssertTrue (cond : Int32) (expr msg file : Option CStr) (line : Int32) : List Call :=
  if cond ≠ 0 then []
  else
    failWith 192 [asLit "Expected TRUE was FALSE: ", .str (some (expr.getD (CStr.lit "?")))]
      msg file line

/-- `pot_assert_false` -/
def potAssertFalse (cond : Int32) (expr msg file : Option CStr) (line : Int32) : List Call :=
  if cond = 0 then []
  else
    failWith 192 [asLit "Expected FALSE was TRUE: ", .str (some (expr.getD (CStr.lit "?")))]
      msg file line

/-- `pot_assert_null`.  A pointer that is not NULL is an address. -/
def potAssertNull (ptr : Option Nat) (msg file : Option CStr) (line : Int32) : List Call :=
  if ptr = none then [] else failText "Expected NULL" msg file line

/-- `pot_assert_not_null` -/
def potAssertNotNull (ptr : Option Nat) (msg file : Option CStr) (line : Int32) : List Call :=
  if ptr ≠ none then [] else failText "Expected Not-NULL" msg file line

/-! ## Integers -/

/-- The number of nibbles for a size in bytes. -/
def nibblesOf (size : Int32) : Int32 := if size ≤ 0 then 8 else size * 2

/-- `pot_assert_int` -/
def potAssertInt (expected actual : Int64) (size isHex : Int32) (msg file : Option CStr)
    (line : Int32) : List Call :=
  let number (v : Int64) : AsFrag :=
    if isHex ≠ 0 then .hex v.toUInt64 (nibblesOf size) else .i64 v
  if expected = actual then []
  else
    failWith 192 [asLit "Expected ", number expected, asLit " Was ", number actual]
      msg file line

/-- `pot_assert_uint` -/
def potAssertUint (expected actual : UInt64) (size isHex : Int32) (msg file : Option CStr)
    (line : Int32) : List Call :=
  let number (u : UInt64) : AsFrag :=
    if isHex ≠ 0 then .hex u (nibblesOf size) else .u64 u
  if expected = actual then []
  else
    failWith 192 [asLit "Expected ", number expected, asLit " Was ", number actual]
      msg file line

/-- `pot_assert_not_equal_int` -/
def potAssertNotEqualInt (expected actual : Int64) (msg file : Option CStr) (line : Int32) :
    List Call :=
  if expected ≠ actual then []
  else failWith 128 [asLit "Not Expected ", .i64 expected] msg file line

/-- `pot_assert_greater_than` -/
def potAssertGreaterThan (threshold actual : Int64) (msg file : Option CStr) (line : Int32) :
    List Call :=
  if actual > threshold then []
  else
    failWith 160 [asLit "Expected ", .i64 actual, asLit " > ", .i64 threshold] msg file line

/-- `pot_assert_less_than` -/
def potAssertLessThan (threshold actual : Int64) (msg file : Option CStr) (line : Int32) :
    List Call :=
  if actual < threshold then []
  else
    failWith 160 [asLit "Expected ", .i64 actual, asLit " < ", .i64 threshold] msg file line

/-- The local `diff` of `pot_assert_int_within`, in two's complement. -/
def withinDiff (expected actual : Int64) : Int64 :=
  if actual > expected then actual - expected else expected - actual

/-- `pot_assert_int_within` -/
def potAssertIntWithin (delta expected actual : Int64) (msg file : Option CStr)
    (line : Int32) : List Call :=
  if withinDiff expected actual ≤ delta then []
  else
    failWith 192 [asLit "Expected ", .i64 actual, asLit " within ", .i64 delta,
      asLit " of ", .i64 expected] msg file line

/-- `pot_assert_float_within`.  The comparison of floats is an argument. -/
def potAssertFloatWithin (within : Bool) (msg file : Option CStr) (line : Int32) :
    List Call :=
  if within then [] else failText "Float value not within delta" msg file line

/-- `pot_assert_double_within` -/
def potAssertDoubleWithin (within : Bool) (msg file : Option CStr) (line : Int32) :
    List Call :=
  if within then [] else failText "Double value not within delta" msg file line

/-! ## Strings, memory and arrays -/

/-- The test in front of a comparison by content: the pointers are equal, or
neither is NULL and the contents agree.  Equal pointers have equal contents. -/
def sameContent {α : Type} (same : α → α → Bool) : Option α → Option α → Bool
  | none, none => true
  | some a, some b => same a b
  | _, _ => false

/-- `pot_assert_string` -/
def potAssertString (expected actual : Option CStr) (msg file : Option CStr)
    (line : Int32) : List Call :=
  if sameContent (fun a b => CStr.strcmp a b = .eq) expected actual then []
  else
    failWith 192 [asLit "Expected '", .str (some (expected.getD (CStr.lit "(null)"))),
      asLit "' Was '", .str (some (actual.getD (CStr.lit "(null)"))), asLit "'"]
      msg file line

/-- `strncmp(a, b, len) == 0`: the strings with their terminators agree in the
first `len` bytes. -/
def strncmpEq (len : Nat) (a b : CStr) : Bool :=
  (a.bytes ++ [0]).take len = (b.bytes ++ [0]).take len

/-- `pot_assert_string_len` -/
def potAssertStringLen (expected actual : Option CStr) (len : Nat) (msg file : Option CStr)
    (line : Int32) : List Call :=
  if sameContent (strncmpEq len) expected actual then []
  else failText "String length compare failed" msg file line

/-- `pot_assert_memory`, with the bytes that the pointers lead to. -/
def potAssertMemory (expected actual : Option (List UInt8)) (len : Nat)
    (msg file : Option CStr) (line : Int32) : List Call :=
  if len = 0 ∨ sameContent (fun a b => a.take len = b.take len) expected actual then []
  else failText "Memory compare failed" msg file line

/-- The loops of `pot_assert_int_array` and `pot_assert_uint8_array`: the first
index from `i` on with different elements. -/
def firstDifference {α : Type} [DecidableEq α] (i : Nat) : List (α × α) → Option (Nat × α × α)
  | [] => none
  | (e, a) :: pairs => if e ≠ a then some (i, e, a) else firstDifference (i + 1) pairs

/-- `pot_assert_int_array` -/
def potAssertIntArray (expected actual : Option (List Int32)) (num : Nat)
    (msg file : Option CStr) (line : Int32) : List Call :=
  match expected, actual with
  | some expected, some actual =>
      match firstDifference 0 ((expected.zip actual).take num) with
      | none => []
      | some (i, e, a) =>
          failWith 160 [asLit "INT array element ", .u64 (UInt64.ofNat i),
            asLit " Expected ", .i64 e.toInt64, asLit " Was ", .i64 a.toInt64] msg file line
  | _, _ => failText "INT array NULL pointer" msg file line

/-- `pot_assert_uint8_array` -/
def potAssertUint8Array (expected actual : Option (List UInt8)) (num : Nat)
    (msg file : Option CStr) (line : Int32) : List Call :=
  match expected, actual with
  | some expected, some actual =>
      match firstDifference 0 ((expected.zip actual).take num) with
      | none => []
      | some (i, e, a) =>
          failWith 160 [asLit "UINT8 array element ", .u64 (UInt64.ofNat i),
            asLit " Expected ", .hex e.toUInt64 2, asLit " Was ", .hex a.toUInt64 2]
            msg file line
  | _, _ => failText "UINT8 array NULL pointer" msg file line

/-! ## Bits -/

/-- `pot_assert_bits` -/
def potAssertBits (mask expected actual : UInt32) (msg file : Option CStr) (line : Int32) :
    List Call :=
  if mask &&& expected = mask &&& actual then []
  else
    failWith 160 [asLit "Bits Expected ", .hex (mask &&& expected).toUInt64 8,
      asLit " Was ", .hex (mask &&& actual).toUInt64 8] msg file line

/-- `pot_assert_bits_high` -/
def potAssertBitsHigh (mask actual : UInt32) (msg file : Option CStr) (line : Int32) :
    List Call :=
  if mask &&& actual = mask then [] else failText "Expected bits high" msg file line

/-- `pot_assert_bits_low` -/
def potAssertBitsLow (mask actual : UInt32) (msg file : Option CStr) (line : Int32) :
    List Call :=
  if mask &&& actual = 0 then [] else failText "Expected bits low" msg file line

/-! ## Any assertion -/

/-- The public functions with the arguments that they compare. -/
inductive Check
  | true (cond : Int32) (expr : Option CStr)
  | false (cond : Int32) (expr : Option CStr)
  | null (ptr : Option Nat)
  | notNull (ptr : Option Nat)
  | int (expected actual : Int64) (size isHex : Int32)
  | uint (expected actual : UInt64) (size isHex : Int32)
  | notEqualInt (expected actual : Int64)
  | greaterThan (threshold actual : Int64)
  | lessThan (threshold actual : Int64)
  | intWithin (delta expected actual : Int64)
  | floatWithin (within : Bool)
  | doubleWithin (within : Bool)
  | string (expected actual : Option CStr)
  | stringLen (expected actual : Option CStr) (len : Nat)
  | memory (expected actual : Option (List UInt8)) (len : Nat)
  | intArray (expected actual : Option (List Int32)) (num : Nat)
  | uint8Array (expected actual : Option (List UInt8)) (num : Nat)
  | bits (mask expected actual : UInt32)
  | bitsHigh (mask actual : UInt32)
  | bitsLow (mask actual : UInt32)

/-- An assertion with all of its arguments. -/
structure Assertion where
  check : Check
  msg : Option CStr
  file : Option CStr
  line : Int32

/-- The calls of the core that the assertion makes. -/
def Assertion.calls (a : Assertion) : List Call :=
  match a.check with
  | .true cond expr => potAssertTrue cond expr a.msg a.file a.line
  | .false cond expr => potAssertFalse cond expr a.msg a.file a.line
  | .null ptr => potAssertNull ptr a.msg a.file a.line
  | .notNull ptr => potAssertNotNull ptr a.msg a.file a.line
  | .int e x size isHex => potAssertInt e x size isHex a.msg a.file a.line
  | .uint e x size isHex => potAssertUint e x size isHex a.msg a.file a.line
  | .notEqualInt e x => potAssertNotEqualInt e x a.msg a.file a.line
  | .greaterThan t x => potAssertGreaterThan t x a.msg a.file a.line
  | .lessThan t x => potAssertLessThan t x a.msg a.file a.line
  | .intWithin delta e x => potAssertIntWithin delta e x a.msg a.file a.line
  | .floatWithin within => potAssertFloatWithin within a.msg a.file a.line
  | .doubleWithin within => potAssertDoubleWithin within a.msg a.file a.line
  | .string e x => potAssertString e x a.msg a.file a.line
  | .stringLen e x len => potAssertStringLen e x len a.msg a.file a.line
  | .memory e x len => potAssertMemory e x len a.msg a.file a.line
  | .intArray e x num => potAssertIntArray e x num a.msg a.file a.line
  | .uint8Array e x num => potAssertUint8Array e x num a.msg a.file a.line
  | .bits mask e x => potAssertBits mask e x a.msg a.file a.line
  | .bitsHigh mask x => potAssertBitsHigh mask x a.msg a.file a.line
  | .bitsLow mask x => potAssertBitsLow mask x a.msg a.file a.line

/-- What the message of the user adds. -/
def extraText (msg : Option CStr) : List UInt8 :=
  match nonEmpty msg with
  | some extra => 0x3A :: 0x20 :: extra.bytes
  | none => []

/-- The report is cut at the buffer of `pt_as_fail_msg`. -/
theorem ptAsFailMsg_eq (file : Option CStr) (line : Int32) (base : CStr) (msg : Option CStr) :
    ∃ message, ptAsFailMsg file line (some base) msg = .failAt file line (some message) ∧
      message.bytes = (base.bytes ++ extraText msg).take 255 := by
  refine ⟨_, rfl, ?_⟩
  have hcolon : (asLit ": ").text = [0x3A, 0x20] := by decide
  have hextra : extraText msg =
      (match nonEmpty msg with
        | some extra => [asLit ": ", .str (some extra)]
        | none => []).flatMap AsFrag.text := by
    unfold extraText
    cases nonEmpty msg with
    | none => rfl
    | some extra =>
      rw [List.flatMap_cons, hcolon, List.flatMap_singleton]
      rfl
  rw [hextra]
  exact (asBuild_cstr (by decide) base _).1

/-- No call, or one report. -/
def Reports (msg file : Option CStr) (line : Int32) (cs : List Call) : Prop :=
  cs = [] ∨ ∃ base, cs = [ptAsFailMsg file line (some base) msg]

section Reports

variable {msg file : Option CStr} {line : Int32}

theorem Reports.nil : Reports msg file line [] := .inl rfl

theorem Reports.failText (text : String) :
    Reports msg file line (failText text msg file line) :=
  .inr ⟨_, rfl⟩

theorem Reports.failWith (cap : Nat) (frags : List AsFrag) :
    Reports msg file line (failWith cap frags msg file line) :=
  .inr ⟨_, rfl⟩

theorem Reports.unless {p : Prop} [Decidable p] {cs : List Call}
    (h : Reports msg file line cs) : Reports msg file line (if p then [] else cs) := by
  split_ifs
  · exact .nil
  · exact h

theorem Reports.intArray (expected actual : Option (List Int32)) (num : Nat) :
    Reports msg file line (potAssertIntArray expected actual num msg file line) := by
  unfold potAssertIntArray
  split
  · split
    · exact .nil
    · exact .failWith ..
  · exact .failText ..

theorem Reports.uint8Array (expected actual : Option (List UInt8)) (num : Nat) :
    Reports msg file line (potAssertUint8Array expected actual num msg file line) := by
  unfold potAssertUint8Array
  split
  · split
    · exact .nil
    · exact .failWith ..
  · exact .failText ..

end Reports

theorem Assertion.reports (a : Assertion) : Reports a.msg a.file a.line a.calls := by
  unfold calls
  cases a.check with
  | true cond expr => exact (Reports.failWith ..).unless
  | false cond expr => exact (Reports.failWith ..).unless
  | null ptr => exact (Reports.failText ..).unless
  | notNull ptr => exact (Reports.failText ..).unless
  | int e x size isHex => exact (Reports.failWith ..).unless
  | uint e x size isHex => exact (Reports.failWith ..).unless
  | notEqualInt e x => exact (Reports.failWith ..).unless
  | greaterThan t x => exact (Reports.failWith ..).unless
  | lessThan t x => exact (Reports.failWith ..).unless
  | intWithin delta e x => exact (Reports.failWith ..).unless
  | floatWithin within => exact (Reports.failText ..).unless
  | doubleWithin within => exact (Reports.failText ..).unless
  | string e x => exact (Reports.failWith ..).unless
  | stringLen e x len => exact (Reports.failText ..).unless
  | memory e x len => exact (Reports.failText ..).unless
  | intArray e x num => exact Reports.intArray e x num
  | uint8Array e x num => exact Reports.uint8Array e x num
  | bits mask e x => exact (Reports.failWith ..).unless
  | bitsHigh mask x => exact (Reports.failText ..).unless
  | bitsLow mask x => exact (Reports.failText ..).unless

/-- An assertion makes no call, or it reports one failure at its own place: a text of its
own, and behind it the message of the user. -/
theorem Assertion.calls_eq (a : Assertion) :
    a.calls = [] ∨ ∃ (base message : CStr),
      a.calls = [.failAt a.file a.line (some message)] ∧
        message.bytes = (base.bytes ++ extraText a.msg).take 255 := by
  rcases a.reports with hnone | ⟨base, hone⟩
  · exact .inl hnone
  · obtain ⟨message, heq, hbytes⟩ := ptAsFailMsg_eq a.file a.line base a.msg
    exact .inr ⟨base, message, by rw [hone, heq], hbytes⟩

/-! ## The distance of two integers -/

/-- The distance that `pot_assert_int_within` is about. -/
def distance (expected actual : Int64) : Nat := (actual.toInt - expected.toInt).natAbs

/-- `a - b` does not overflow. -/
def SubFits (a b : Int64) : Prop :=
  -2 ^ 63 ≤ a.toInt - b.toInt ∧ a.toInt - b.toInt < 2 ^ 63

/-- The subtraction that `pot_assert_int_within` makes does not overflow. -/
def DiffFits (expected actual : Int64) : Prop :=
  if actual > expected then SubFits actual expected else SubFits expected actual

instance (a b : Int64) : Decidable (SubFits a b) := inferInstanceAs (Decidable (_ ∧ _))

instance (expected actual : Int64) : Decidable (DiffFits expected actual) :=
  inferInstanceAs (Decidable (ite _ _ _))

theorem diff_eq_distance (expected actual : Int64) :
    (if actual > expected then actual.toInt - expected.toInt
      else expected.toInt - actual.toInt) = distance expected actual := by
  have hgt : actual > expected ↔ expected.toInt < actual.toInt := Int64.lt_iff_toInt_lt
  rw [distance]
  split_ifs with h
  · rw [hgt] at h
    omega
  · rw [hgt] at h
    omega

theorem diffFits_iff (expected actual : Int64) :
    DiffFits expected actual ↔ distance expected actual < 2 ^ 63 := by
  have hgt : actual > expected ↔ expected.toInt < actual.toInt := Int64.lt_iff_toInt_lt
  rw [DiffFits, distance]
  split_ifs with h
  · rw [hgt] at h
    rw [SubFits]
    omega
  · rw [hgt] at h
    rw [SubFits]
    omega

/-- The difference of the code is the distance, wrapped. -/
theorem withinDiff_toInt (expected actual : Int64) :
    (withinDiff expected actual).toInt = (distance expected actual : Int).bmod (2 ^ 64) := by
  rw [← diff_eq_distance, withinDiff]
  split_ifs with h
  · exact Int64.toInt_sub actual expected
  · exact Int64.toInt_sub expected actual

theorem distance_lt (expected actual : Int64) : distance expected actual < 2 ^ 64 := by
  have := expected.le_toInt
  have := expected.toInt_lt
  have := actual.le_toInt
  have := actual.toInt_lt
  rw [distance]
  omega

/-- A distance beyond the largest `int64_t` wraps to a negative difference. -/
theorem withinDiff_neg {expected actual : Int64} (h : 2 ^ 63 ≤ distance expected actual) :
    (withinDiff expected actual).toInt < 0 := by
  have hlt := distance_lt expected actual
  rw [withinDiff_toInt, Int.bmod_def]
  omega

theorem withinDiff_of_fits {expected actual : Int64} (h : distance expected actual < 2 ^ 63) :
    (withinDiff expected actual).toInt = distance expected actual := by
  rw [withinDiff_toInt]
  exact Int.bmod_eq_of_le (by omega) (by omega)

theorem potAssertIntWithin_ne_nil (delta expected actual : Int64) (msg file : Option CStr)
    (line : Int32) :
    potAssertIntWithin delta expected actual msg file line ≠ [] ↔
      delta.toInt < (withinDiff expected actual).toInt := by
  rw [potAssertIntWithin]
  split_ifs with h
  · rw [Int64.le_iff_toInt_le] at h
    simpa using h
  · rw [Int64.le_iff_toInt_le] at h
    simpa [failWith] using h

/-- The assertion is exact as long as the distance fits, and so is its verdict
alone: a larger distance passes. -/
theorem potAssertIntWithin_exact_iff {delta : Int64} (hdelta : 0 ≤ delta)
    (expected actual : Int64) (msg file : Option CStr) (line : Int32) :
    ((DiffFits expected actual ∧
      (potAssertIntWithin delta expected actual msg file line ≠ [] ↔
        delta.toInt < distance expected actual)) ↔
      distance expected actual ≤ 2 ^ 63 - 1) ∧
    ((potAssertIntWithin delta expected actual msg file line ≠ [] ↔
        delta.toInt < distance expected actual) ↔
      distance expected actual ≤ 2 ^ 63 - 1) := by
  have hzero : (0 : Int64).toInt = 0 := rfl
  rw [Int64.le_iff_toInt_le, hzero] at hdelta
  have hlt := delta.toInt_lt
  rw [diffFits_iff, potAssertIntWithin_ne_nil]
  by_cases hfits : distance expected actual < 2 ^ 63
  · rw [withinDiff_of_fits hfits]
    have hle : distance expected actual ≤ 2 ^ 63 - 1 := by omega
    exact ⟨iff_of_true ⟨hfits, Iff.rfl⟩ hle, iff_of_true Iff.rfl hle⟩
  · have hneg := withinDiff_neg (Nat.le_of_not_lt hfits)
    have hgt : ¬ distance expected actual ≤ 2 ^ 63 - 1 := by omega
    have hwrong : ¬ (delta.toInt < (withinDiff expected actual).toInt ↔
        delta.toInt < distance expected actual) := fun h => by
      have := h.mpr (by omega)
      omega
    exact ⟨iff_of_false (fun h => hwrong h.2) hgt, iff_of_false hwrong hgt⟩

/-- Two numbers at the distance 3. -/
theorem potAssertIntWithin_exact_three :
    DiffFits (-1) 2 ∧
      (potAssertIntWithin 2 (-1) 2 none none 0 ≠ [] ↔ (2 : Int64).toInt < distance (-1) 2) :=
  (potAssertIntWithin_exact_iff (by decide) (-1) 2 none none 0).1.mpr (by decide)

/-- The largest number passes as `-1`, with no tolerance at all. -/
theorem potAssertIntWithin_wraps :
    ¬ (DiffFits (-1) Int64.maxValue ∧
      (potAssertIntWithin 0 (-1) Int64.maxValue none none 0 ≠ [] ↔
        (0 : Int64).toInt < distance (-1) Int64.maxValue)) ∧
    potAssertIntWithin 0 (-1) Int64.maxValue none none 0 = [] := by
  decide

end PolyOnTest.Harness
