import Mathlib.Data.List.TakeWhile
import PolyOnTest.CodeLib.Utf8

/-!
# C strings and fixed buffers

`CStr` is the content of a NUL-terminated string: the bytes in front of the
terminator, with the fact that none of them is NUL.  `Buffer` is a byte array
on the stack.  It remembers whether some store fell outside of it, so a proof
that a function does not overrun its buffer is a proof about a value.

`Holds cap text buf pos` is the invariant of code that appends to a buffer of
`cap` bytes and threads a position: the buffer holds as much of `text` as fits
in front of a terminator, and `pos` is the end of that part.  An append at the
end of the buffer keeps the invariant by doing nothing (`Holds.full`).

`Filled size bytes buf pos` is the invariant of code that fills a buffer from
the front with binary data and checks the room itself.
-/

namespace CodeLib.CMemory

/-- The content of a NUL-terminated string. -/
structure CStr where
  bytes : List UInt8
  noNul : 0 ∉ bytes
  deriving DecidableEq

namespace CStr

@[ext] theorem ext {a b : CStr} (h : a.bytes = b.bytes) : a = b := by
  cases a; cases b; cases h; rfl

/-- The string that memory holds from some address on. -/
def ofBytes (mem : List UInt8) : CStr where
  bytes := mem.takeWhile (· ≠ 0)
  noNul := fun h => by simpa using List.mem_takeWhile_imp h

/-- A string literal. -/
def lit (s : String) : CStr := ofBytes (Utf8.encode s.toList)

/-- `strlen`. -/
def strlen (s : CStr) : Nat := s.bytes.length

/-- The sign of `strcmp`: the order of the first byte that differs. -/
def strcmp (a b : CStr) : Ordering := compare a.bytes b.bytes

theorem ofBytes_bytes {mem : List UInt8} (h : 0 ∉ mem) :
    (ofBytes mem).bytes = mem := by
  refine List.takeWhile_eq_self_iff.mpr fun b hb => ?_
  simp only [decide_eq_true_eq]
  exact fun h0 => h (h0 ▸ hb)

end CStr

/-- An array of bytes.  `overrun` records a store outside of it. -/
structure Buffer where
  mem : List UInt8
  overrun : Bool
  deriving DecidableEq, Repr

namespace Buffer

/-- An array of `cap` bytes. -/
def alloc (cap : Nat) : Buffer := ⟨List.replicate cap 0, false⟩

/-- `buf[i] = v`. -/
def store (buf : Buffer) (i : Nat) (v : UInt8) : Buffer :=
  if i < buf.mem.length then { buf with mem := buf.mem.set i v }
  else { buf with overrun := true }

/-- `memcpy(buf + i, vs, n)` with `n` the length of `vs`. -/
def storeAll (buf : Buffer) (i : Nat) : List UInt8 → Buffer
  | [] => buf
  | v :: vs => (buf.store i v).storeAll (i + 1) vs

/-- The C string at the front of the array. -/
def cstr (buf : Buffer) : CStr := CStr.ofBytes buf.mem

@[simp] theorem alloc_length (cap : Nat) : (alloc cap).mem.length = cap := by
  simp [alloc]

@[simp] theorem store_length (buf : Buffer) (i : Nat) (v : UInt8) :
    (buf.store i v).mem.length = buf.mem.length := by
  rw [store]
  split_ifs <;> simp

theorem store_of_lt {buf : Buffer} {i : Nat} (h : i < buf.mem.length)
    (v : UInt8) : buf.store i v = { buf with mem := buf.mem.set i v } := by
  rw [store, if_pos h]

/-- A store at a known place of the memory. -/
theorem store_split (front back : List UInt8) (x v : UInt8) (o : Bool) :
    store ⟨front ++ x :: back, o⟩ front.length v = ⟨front ++ v :: back, o⟩ := by
  rw [store_of_lt (by simp), List.set_append_right _ _ (Nat.le_refl _)]
  simp

/-- A copy over bytes at a known place of the memory. -/
theorem storeAll_split (front back : List UInt8) {old vs : List UInt8} (o : Bool)
    (h : old.length = vs.length) :
    storeAll ⟨front ++ (old ++ back), o⟩ front.length vs =
      ⟨front ++ (vs ++ back), o⟩ := by
  induction vs generalizing front old with
  | nil => rw [List.length_eq_zero_iff.mp h, storeAll]
  | cons v vs ih =>
      rcases old with _ | ⟨x, old⟩
      · simp at h
      · have hlen : old.length = vs.length := by simpa using h
        have hnext := ih (front ++ [v]) hlen
        rw [storeAll, List.cons_append, store_split]
        simpa using hnext

end Buffer

/-- The front of a buffer of `size` bytes holds `bytes`, and `pos` is the
position behind them. -/
structure Filled (size : Nat) (bytes : List UInt8) (buf : Buffer) (pos : Nat) :
    Prop where
  length_mem : buf.mem.length = size
  no_overrun : buf.overrun = false
  pos_eq : pos = bytes.length
  prefix_mem : bytes <+: buf.mem

namespace Filled

variable {size pos : Nat} {bytes : List UInt8} {buf : Buffer}

theorem alloc (size : Nat) : Filled size [] (Buffer.alloc size) 0 where
  length_mem := by simp
  no_overrun := rfl
  pos_eq := rfl
  prefix_mem := List.nil_prefix

/-- A copy to the end of what is there. -/
theorem append (h : Filled size bytes buf pos) (vs : List UInt8)
    (hroom : pos + vs.length ≤ size) :
    Filled size (bytes ++ vs) (buf.storeAll pos vs) (pos + vs.length) := by
  obtain ⟨mem, o⟩ := buf
  obtain ⟨hlen, hover, hpos, back, hback⟩ := h
  simp only at hlen hover hback
  subst hback hpos
  have hold : vs.length ≤ back.length := by
    simp only [List.length_append] at hlen
    omega
  have hsplit := Buffer.storeAll_split bytes (back.drop vs.length) o
    (List.length_take_of_le hold)
  rw [List.take_append_drop] at hsplit
  rw [hsplit]
  refine ⟨?_, hover, by simp, by simp [← List.append_assoc]⟩
  simp only [List.length_append, List.length_drop] at hlen ⊢
  omega

/-- What is read back from the front of the buffer. -/
theorem take_mem (h : Filled size bytes buf pos) : buf.mem.take pos = bytes := by
  rw [h.pos_eq]
  exact (List.prefix_iff_eq_take.mp h.prefix_mem).symm

end Filled

/-- The invariant of code that appends to a buffer of `cap` bytes. -/
structure Holds (cap : Nat) (text : List UInt8) (buf : Buffer) (pos : Nat) :
    Prop where
  length_mem : buf.mem.length = cap
  no_overrun : buf.overrun = false
  pos_eq : pos = min text.length (cap - 1)
  take_mem : buf.mem.take pos = text.take (cap - 1)

namespace Holds

variable {cap pos : Nat} {text : List UInt8} {buf : Buffer}

/-- An array that nobody wrote to holds nothing, whatever is in it. -/
theorem fresh {mem : List UInt8} (h : mem.length = cap) : Holds cap [] ⟨mem, false⟩ 0 where
  length_mem := h
  no_overrun := rfl
  pos_eq := by simp
  take_mem := by simp

/-- A fresh array holds nothing. -/
theorem alloc (cap : Nat) : Holds cap [] (Buffer.alloc cap) 0 :=
  fresh (Buffer.alloc_length cap)

theorem pos_lt (h : Holds cap text buf pos) (hcap : 0 < cap) : pos < cap := by
  have := h.pos_eq
  omega

/-- A byte appended with room left for the terminator. -/
theorem push (h : Holds cap text buf pos) (hroom : pos + 1 < cap) (v : UInt8) :
    Holds cap (text ++ [v]) (buf.store pos v) (pos + 1) := by
  have hlen : text.length = pos := by
    have := h.pos_eq
    omega
  have hlt : pos < buf.mem.length := by
    rw [h.length_mem]
    omega
  have htext : text.take (cap - 1) = text := List.take_of_length_le (by omega)
  refine ⟨by simp [h.length_mem], ?_, by simp; omega, ?_⟩
  · rw [Buffer.store_of_lt hlt]
    exact h.no_overrun
  · rw [Buffer.store_of_lt hlt]
    dsimp only
    rw [List.take_add_one, List.take_set_of_le (Nat.le_refl pos), h.take_mem,
      htext, List.take_of_length_le (by simp; omega)]
    simp [hlt]

/-- Bytes behind a full buffer are lost. -/
theorem full (h : Holds cap text buf pos) (hfull : ¬ pos + 1 < cap)
    (more : List UInt8) : Holds cap (text ++ more) buf pos := by
  have hlen : cap - 1 ≤ text.length := by
    have := h.pos_eq
    omega
  refine ⟨h.length_mem, h.no_overrun, ?_, ?_⟩
  · rw [h.pos_eq, List.length_append]
    omega
  · rw [h.take_mem, List.take_append_of_le_length hlen]

/-- The terminator does not touch the text. -/
theorem terminate (h : Holds cap text buf pos) (hcap : 0 < cap) :
    Holds cap text (buf.store pos 0) pos ∧
      (buf.store pos 0).mem[pos]? = some 0 := by
  have hlt : pos < buf.mem.length := by
    rw [h.length_mem]
    exact h.pos_lt hcap
  rw [Buffer.store_of_lt hlt]
  refine ⟨⟨by simp [h.length_mem], h.no_overrun, h.pos_eq, ?_⟩, by simp [hlt]⟩
  dsimp only
  rw [List.take_set_of_le (Nat.le_refl pos), h.take_mem]

/-- What a reader of the terminated buffer sees. -/
theorem cstr_bytes (h : Holds cap text buf pos) (hnul : buf.mem[pos]? = some 0)
    (htext : 0 ∉ text) : buf.cstr.bytes = text.take (cap - 1) := by
  have hlt : pos < buf.mem.length := (List.getElem?_eq_some_iff.mp hnul).1
  have hsplit : buf.mem = text.take (cap - 1) ++ 0 :: buf.mem.drop (pos + 1) := by
    rw [← h.take_mem, ← (List.getElem?_eq_some_iff.mp hnul).2,
      List.getElem_cons_drop, List.take_append_drop]
  have hfree : ∀ b ∈ text.take (cap - 1), b ≠ 0 := fun b hb h0 =>
    htext (h0 ▸ List.mem_of_mem_take hb)
  rw [Buffer.cstr, CStr.ofBytes]
  dsimp only
  rw [hsplit, List.takeWhile_append_of_pos (by simpa using hfree)]
  simp

end Holds

end CodeLib.CMemory
