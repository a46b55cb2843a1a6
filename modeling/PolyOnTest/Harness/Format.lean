import PolyOnTest.CodeLib.CMemory
import PolyOnTest.CodeLib.Decimal

/-!
# Lines of the harness

The bounded formatting of `polytest_core.c`.  Every line of the text output,
every case leaf and every message with a parameter row is built the same way: a
local buffer, a position, and a chain of calls of `append_str`, `append_i32`
and `append_u32`.  `Frag` is one such call and `build` is the chain.

`build_cstr` is the spec of all of them: the buffer ends as a string with the
first `cap - 1` bytes of the concatenated fragments, and no store falls outside.
-/

namespace PolyOnTest.Harness

open CodeLib CodeLib.CMemory

/-! ## Appending -/

/-- The copying loop that `append_str` and `append_i32` share. -/
def appendLoop (cap : Nat) : List UInt8 → Buffer → Nat → Buffer × Nat
  | [], buf, pos => (buf, pos)
  | b :: bytes, buf, pos =>
      if pos + 1 < cap then appendLoop cap bytes (buf.store pos b) (pos + 1)
      else (buf, pos)

/-- `append_str`. -/
def appendStr (cap : Nat) (buf : Buffer) (pos : Nat) (s : Option CStr) :
    Buffer × Nat :=
  match s with
  | none => (buf, pos)
  | some s =>
      if pos ≥ cap then (buf, pos)
      else
        let (buf, pos) := appendLoop cap s.bytes buf pos
        (buf.store pos 0, pos)

/-- The minus sign of `append_i32`. -/
def appendSign (cap : Nat) (buf : Buffer) (pos : Nat) (v : Int) : Buffer × Nat :=
  if v < 0 ∧ pos + 1 < cap then ((buf.store pos 0x2D).store (pos + 1) 0, pos + 1)
  else (buf, pos)

/-- The magnitude `u` of `append_i32`, which avoids the negation of the least
number. -/
def magnitude (v : Int) : Nat := if v < 0 then (-(v + 1)).toNat + 1 else v.toNat

/-- The scratch array `tmp` of `append_i32`, from the low digit up. -/
def scratch (u : Nat) : List UInt8 :=
  if u = 0 then [0x30] else Decimal.lowDigits 24 u

/-- `append_i32`. -/
def appendI32 (cap : Nat) (buf : Buffer) (pos : Nat) (v : Int) : Buffer × Nat :=
  let (buf, pos) := appendSign cap buf pos v
  let (buf, pos) := appendLoop cap (scratch (magnitude v)).reverse buf pos
  (buf.store pos 0, pos)

/-- `append_u32`, where `long` has 64 bits. -/
def appendU32 (cap : Nat) (buf : Buffer) (pos : Nat) (v : UInt32) : Buffer × Nat :=
  appendI32 cap buf pos v.toNat

/-- One call of an append function. -/
inductive Frag
  | str (s : Option CStr)
  | i32 (v : Int32)
  | u32 (v : UInt32)

/-- The call. -/
def Frag.append (cap : Nat) (dst : Buffer × Nat) : Frag → Buffer × Nat
  | .str s => appendStr cap dst.1 dst.2 s
  | .i32 v => appendI32 cap dst.1 dst.2 v.toInt
  | .u32 v => appendU32 cap dst.1 dst.2 v

/-- A local buffer of `cap` bytes and a chain of calls on it. -/
def build (cap : Nat) (frags : List Frag) : Buffer :=
  (frags.foldl (Frag.append cap) (Buffer.alloc cap, 0)).1

/-! ## Texts of the fragments -/

/-- The decimal form of an integer. -/
def intText (v : Int) : List UInt8 :=
  if v < 0 then 0x2D :: Decimal.numeral v.natAbs else Decimal.numeral v.natAbs

/-- The text that a call adds to an unbounded buffer. -/
def Frag.text : Frag → List UInt8
  | .str none => []
  | .str (some s) => s.bytes
  | .i32 v => intText v.toInt
  | .u32 v => Decimal.numeral v.toNat

/-- The text of a chain. -/
def lineText (frags : List Frag) : List UInt8 := frags.flatMap Frag.text

theorem zero_not_mem_numeral (n : Nat) : 0 ∉ Decimal.numeral n := by
  intro h
  have hdigit := Decimal.mem_numeral h
  exact absurd hdigit.1 (by decide)

theorem zero_not_mem_intText (v : Int) : 0 ∉ intText v := by
  have h := zero_not_mem_numeral v.natAbs
  unfold intText
  split_ifs
  · simpa using h
  · exact h

theorem zero_not_mem_text (f : Frag) : 0 ∉ f.text := by
  rcases f with (_ | s) | v | v
  · simp [Frag.text]
  · exact s.noNul
  · exact zero_not_mem_intText v.toInt
  · exact zero_not_mem_numeral v.toNat

theorem zero_not_mem_lineText (frags : List Frag) : 0 ∉ lineText frags := by
  intro h
  obtain ⟨f, -, hf⟩ := List.mem_flatMap.mp h
  exact zero_not_mem_text f hf

/-! ## The spec of an append -/

/-- The buffer holds the text and ends with a terminator. -/
structure Terminated (cap : Nat) (text : List UInt8) (dst : Buffer × Nat) :
    Prop where
  holds : Holds cap text dst.1 dst.2
  nul : dst.1.mem[dst.2]? = some 0

section Appends

variable {cap pos : Nat} {text : List UInt8} {buf : Buffer}

theorem appendLoop_holds (h : Holds cap text buf pos) (bytes : List UInt8) :
    Holds cap (text ++ bytes) (appendLoop cap bytes buf pos).1
      (appendLoop cap bytes buf pos).2 := by
  induction bytes generalizing text buf pos with
  | nil => simpa [appendLoop] using h
  | cons b bytes ih =>
      rw [appendLoop]
      split_ifs with hroom
      · simpa using ih (h.push hroom b)
      · exact h.full hroom (b :: bytes)

/-- With room for all of it the loop is a copy. -/
theorem appendLoop_room (front : List UInt8) {old bytes back : List UInt8} {o : Bool}
    (hlen : old.length = bytes.length) (hroom : front.length + bytes.length < cap) :
    appendLoop cap bytes ⟨front ++ (old ++ back), o⟩ front.length =
      (⟨front ++ (bytes ++ back), o⟩, front.length + bytes.length) := by
  induction bytes generalizing front old with
  | nil =>
      rw [List.length_eq_zero_iff.mp hlen]
      rfl
  | cons b bytes ih =>
      rcases old with _ | ⟨x, old⟩
      · simp at hlen
      · rw [List.length_cons] at hroom
        have hnext := ih (front ++ [b]) (by simpa using hlen)
          (by rw [List.length_append, List.length_singleton]; omega)
        rw [appendLoop, if_pos (by omega), List.cons_append, Buffer.store_split]
        simp only [List.append_assoc, List.singleton_append, List.length_append,
          List.length_singleton] at hnext
        rw [hnext, List.length_cons, Nat.add_right_comm, Nat.add_assoc]
        rfl

theorem appendStr_terminated (hcap : 0 < cap) (h : Holds cap text buf pos)
    (s : CStr) :
    Terminated cap (text ++ s.bytes) (appendStr cap buf pos (some s)) := by
  have hpos := h.pos_lt hcap
  have hloop := appendLoop_holds h s.bytes
  unfold appendStr
  dsimp only
  rw [if_neg (by omega)]
  exact ⟨(hloop.terminate hcap).1, (hloop.terminate hcap).2⟩

theorem appendSign_holds (hcap : 0 < cap) (h : Holds cap text buf pos) (v : Int) :
    Holds cap (text ++ if v < 0 then [0x2D] else []) (appendSign cap buf pos v).1
      (appendSign cap buf pos v).2 := by
  unfold appendSign
  by_cases hv : v < 0
  · rw [if_pos hv]
    by_cases hroom : pos + 1 < cap
    · rw [if_pos ⟨hv, hroom⟩]
      exact ((h.push hroom 0x2D).terminate hcap).1
    · rw [if_neg fun hc => hroom hc.2]
      exact h.full hroom _
  · rw [if_neg hv, if_neg fun hc => hv hc.1, List.append_nil]
    exact h

theorem magnitude_eq (v : Int) : magnitude v = v.natAbs := by
  unfold magnitude
  split_ifs <;> omega

theorem scratch_reverse {u : Nat} (h : u < 10 ^ 24) :
    (scratch u).reverse = Decimal.numeral u := by
  unfold scratch
  split_ifs with h0
  · rw [h0]
    rfl
  · exact Decimal.lowDigits_reverse (Nat.pos_of_ne_zero h0) h

theorem appendI32_terminated (hcap : 0 < cap) (h : Holds cap text buf pos)
    {v : Int} (hv : v.natAbs < 10 ^ 24) :
    Terminated cap (text ++ intText v) (appendI32 cap buf pos v) := by
  have hsign := appendSign_holds hcap h v
  have hloop := appendLoop_holds hsign (scratch (magnitude v)).reverse
  have htext : (text ++ if v < 0 then [0x2D] else []) ++
      (scratch (magnitude v)).reverse = text ++ intText v := by
    rw [magnitude_eq, scratch_reverse hv, intText]
    split_ifs <;> simp
  rw [htext] at hloop
  exact ⟨(hloop.terminate hcap).1, (hloop.terminate hcap).2⟩

/-- A call keeps a terminated buffer terminated. -/
theorem append_terminated (hcap : 0 < cap) {dst : Buffer × Nat}
    (h : Terminated cap text dst) (f : Frag) :
    Terminated cap (text ++ f.text) (f.append cap dst) := by
  rcases f with (_ | s) | v | v
  · simpa [Frag.text, Frag.append, appendStr] using h
  · exact appendStr_terminated hcap h.holds s
  · have hle := v.toInt_lt
    have hge := v.le_toInt
    exact appendI32_terminated hcap h.holds (by omega)
  · have hlt := v.toNat_lt
    have hnum := appendI32_terminated hcap h.holds (v := (v.toNat : Int))
      (by omega)
    have htext : intText (v.toNat : Int) = Decimal.numeral v.toNat := by
      rw [intText, if_neg (by omega), Int.natAbs_natCast]
    rw [htext] at hnum
    exact hnum

end Appends

/-- A call that adds `text` to a terminated buffer. -/
def Appends (cap : Nat) (call : Buffer × Nat → Buffer × Nat) (text : List UInt8) :
    Prop :=
  ∀ ⦃front dst⦄, Terminated cap front dst → Terminated cap (front ++ text) (call dst)

/-- A chain of such calls, by induction on the calls. -/
theorem Appends.foldl {ι : Type} {cap : Nat} {call : Buffer × Nat → ι → Buffer × Nat}
    {text : ι → List UInt8} (h : ∀ i, Appends cap (call · i) (text i)) (is : List ι) :
    Appends cap (is.foldl call ·) (is.flatMap text) := by
  induction is with
  | nil =>
      intro front dst hdst
      simpa using hdst
  | cons i is ih =>
      intro front dst hdst
      have hstep := ih (h i hdst)
      rw [List.append_assoc] at hstep
      exact hstep

theorem foldl_append_terminated {cap : Nat} (hcap : 0 < cap) (frags : List Frag)
    {text : List UInt8} {dst : Buffer × Nat} (h : Terminated cap text dst) :
    Terminated cap (text ++ lineText frags) (frags.foldl (Frag.append cap) dst) :=
  Appends.foldl (fun f _ _ hdst => append_terminated hcap hdst f) frags h

/-- The string that a chain of calls builds. -/
theorem build_cstr {cap : Nat} (hcap : 0 < cap) (s : CStr) (frags : List Frag) :
    (build cap (.str (some s) :: frags)).cstr.bytes =
        (lineText (.str (some s) :: frags)).take (cap - 1) ∧
      (build cap (.str (some s) :: frags)).overrun = false := by
  have hfirst := appendStr_terminated hcap (Holds.alloc cap) s
  have hall := foldl_append_terminated hcap frags hfirst
  have htext : [] ++ s.bytes ++ lineText frags =
      lineText (.str (some s) :: frags) := rfl
  rw [htext] at hall
  exact ⟨hall.holds.cstr_bytes hall.nul (zero_not_mem_lineText _),
    hall.holds.no_overrun⟩

end PolyOnTest.Harness
