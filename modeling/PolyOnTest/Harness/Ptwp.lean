import PolyOnTest.CodeLib.CMemory
import PolyOnTest.CodeLib.Cobs
import PolyOnTest.Protocol

/-!
# Binary messages of the harness

The binary half of the emission code in `polytest_core.c`: `emit_msg` lays a
message out in a buffer of 384 bytes, and `emit_frame` stuffs it into a buffer
of 512 bytes and hands the result to `emit_raw`.  A call of the writer is a
byte list, so an emission is the list of the calls that it makes.

`cobsEncode_spec` says what the stuffing loop does for every size of the output
buffer: it stays inside, and it writes the abstract frame exactly when the
frame fits.
-/

namespace PolyOnTest.Harness

open CodeLib CodeLib.CMemory

/-! ## Byte stuffing into a buffer -/

/-- The locals of `cobs_encode` between two bytes. -/
structure Stuffer where
  out : Buffer
  writeIndex : Nat
  codeIndex : Nat
  code : UInt8

/-- The loop of `cobs_encode` and the statements behind it.  The answer is the
output buffer with the value that the function returns, zero for a buffer that
is too small. -/
def cobsEncodeLoop (outMax : Nat) : List UInt8 → Stuffer → Buffer × Nat
  | [], s =>
      let out := s.out.store s.codeIndex s.code
      if s.writeIndex ≥ outMax then (out, 0)
      else (out.store s.writeIndex 0, s.writeIndex + 1)
  | b :: input, s =>
      if b = 0 then
        let out := s.out.store s.codeIndex s.code
        if s.writeIndex + 1 ≥ outMax then (out, 0)
        else
          cobsEncodeLoop outMax input
            { out := out
              writeIndex := s.writeIndex + 1
              codeIndex := s.writeIndex
              code := 1 }
      else if s.writeIndex ≥ outMax then (s.out, 0)
      else
        let out := s.out.store s.writeIndex b
        if s.code + 1 = 0xFF then
          let out := out.store s.codeIndex (s.code + 1)
          if s.writeIndex + 2 ≥ outMax then (out, 0)
          else
            cobsEncodeLoop outMax input
              { out := out
                writeIndex := s.writeIndex + 2
                codeIndex := s.writeIndex + 1
                code := 1 }
        else
          cobsEncodeLoop outMax input
            { out := out
              writeIndex := s.writeIndex + 1
              codeIndex := s.codeIndex
              code := s.code + 1 }

/-- `cobs_encode`. -/
def cobsEncode (input : List UInt8) (out : Buffer) (outMax : Nat) : Buffer × Nat :=
  if outMax < 2 then (out, 0)
  else
    cobsEncodeLoop outMax input
      { out := out.store 0 0, writeIndex := 1, codeIndex := 0, code := 1 }

/-- The state of the loop between two bytes: whole blocks in `front`, the place
of the next code byte, the bytes of the open block, and unused room. -/
structure Stuffer.At (outMax : Nat) (front run : List UInt8) (s : Stuffer) :
    Prop where
  mem_eq : ∃ x room, s.out.mem = front ++ x :: (run ++ room)
  length_mem : s.out.mem.length = outMax
  no_overrun : s.out.overrun = false
  codeIndex_eq : s.codeIndex = front.length
  writeIndex_eq : s.writeIndex = front.length + 1 + run.length
  code_eq : s.code = Cobs.codeOf run
  length_run : run.length ≤ 253

/-- What `cobs_encode` promises about its answer for the frame `frame`. -/
structure Encoded (outMax : Nat) (frame : List UInt8) (answer : Buffer × Nat) :
    Prop where
  length_mem : answer.1.mem.length = outMax
  no_overrun : answer.1.overrun = false
  fits : frame.length ≤ outMax →
    answer.2 = frame.length ∧ answer.1.mem.take frame.length = frame
  small : outMax < frame.length → answer.2 = 0

namespace Stuffer.At

variable {outMax : Nat} {front run : List UInt8} {s : Stuffer}

/-- The code byte of the open block goes to its place. -/
theorem store_code (h : s.At outMax front run) (v : UInt8) :
    ∃ room, s.out.store s.codeIndex v =
      ⟨front ++ v :: (run ++ room), false⟩ ∧
      front.length + 1 + run.length + room.length = outMax := by
  obtain ⟨x, room, hmem⟩ := h.mem_eq
  have hout : s.out = ⟨front ++ x :: (run ++ room), false⟩ := by
    rw [← hmem, ← h.no_overrun]
  have hlen := h.length_mem
  refine ⟨room, ?_, ?_⟩
  · rw [hout, h.codeIndex_eq, Buffer.store_split]
  · rw [hmem] at hlen
    simp only [List.length_append, List.length_cons] at hlen
    omega

/-- A data byte goes behind the open block. -/
theorem store_data (h : s.At outMax front run) (hroom : s.writeIndex < outMax)
    (v : UInt8) :
    ∃ x room, s.out.store s.writeIndex v =
      ⟨front ++ x :: (run ++ v :: room), false⟩ ∧
      front.length + 2 + run.length + room.length = outMax := by
  obtain ⟨x, room, hmem⟩ := h.mem_eq
  have hlen := h.length_mem
  have hwrite := h.writeIndex_eq
  rcases room with _ | ⟨y, room⟩
  · rw [hmem] at hlen
    simp at hlen
    omega
  · have hout : s.out = ⟨(front ++ x :: run) ++ y :: room, false⟩ := by
      rw [← h.no_overrun]
      cases hs : s.out
      simp_all
    have hpos : s.writeIndex = (front ++ x :: run).length := by
      simp only [List.length_append, List.length_cons]
      omega
    refine ⟨x, room, ?_, ?_⟩
    · rw [hout, hpos, Buffer.store_split]
      simp
    · rw [hmem] at hlen
      simp only [List.length_append, List.length_cons] at hlen
      omega

/-- The code byte shows whether one more byte fills the open block. -/
theorem code_full_iff (h : s.At outMax front run) :
    s.code + 1 = 0xFF ↔ run.length = 253 := by
  have hrun := h.length_run
  constructor
  · intro hcode
    by_contra hshort
    rw [h.code_eq, ← Cobs.codeOf_append_singleton run 0] at hcode
    exact Cobs.codeOf_ne_full (by simp; omega) hcode
  · intro hfull
    rw [h.code_eq, Cobs.codeOf, hfull]
    rfl

/-- A zero byte closes the open block. -/
theorem push_zero (h : s.At outMax front run) (hroom : s.writeIndex + 1 < outMax) :
    Stuffer.At outMax (front ++ Cobs.codeOf run :: run) []
      { out := s.out.store s.codeIndex s.code
        writeIndex := s.writeIndex + 1
        codeIndex := s.writeIndex
        code := 1 } := by
  obtain ⟨room, hstore, hlen⟩ := h.store_code s.code
  have hwrite := h.writeIndex_eq
  rcases room with _ | ⟨x, room⟩
  · simp at hlen
    omega
  · rw [hstore, h.code_eq]
    refine ⟨⟨x, room, by simp⟩, ?_, rfl, ?_, ?_, rfl, by simp⟩ <;>
      simp only [List.length_append, List.length_cons, List.length_nil] at hlen ⊢ <;>
      omega

/-- The 254th byte of a block closes it. -/
theorem push_full (h : s.At outMax front run) {b : UInt8}
    (hfull : run.length = 253) (hroom : s.writeIndex + 2 < outMax) :
    Stuffer.At outMax (front ++ 0xFF :: (run ++ [b])) []
      { out := (s.out.store s.writeIndex b).store s.codeIndex (s.code + 1)
        writeIndex := s.writeIndex + 2
        codeIndex := s.writeIndex + 1
        code := 1 } := by
  obtain ⟨x, room, hstore, hlen⟩ := h.store_data (by omega) b
  have hwrite := h.writeIndex_eq
  have hcode : s.code + 1 = 0xFF := h.code_full_iff.mpr hfull
  rcases room with _ | ⟨y, room⟩
  · simp at hlen
    omega
  · rw [hstore, hcode, h.codeIndex_eq, Buffer.store_split]
    refine ⟨⟨y, room, by simp⟩, ?_, rfl, ?_, ?_, rfl, by simp⟩ <;>
      simp only [List.length_append, List.length_cons, List.length_nil] at hlen ⊢ <;>
      omega

/-- Any other byte extends the open block. -/
theorem push_other (h : s.At outMax front run) {b : UInt8}
    (hshort : run.length ≠ 253) (hroom : s.writeIndex < outMax) :
    Stuffer.At outMax front (run ++ [b])
      { out := s.out.store s.writeIndex b
        writeIndex := s.writeIndex + 1
        codeIndex := s.codeIndex
        code := s.code + 1 } := by
  obtain ⟨x, room, hstore, hlen⟩ := h.store_data hroom b
  have hwrite := h.writeIndex_eq
  have hrun := h.length_run
  have hcode : s.code + 1 = Cobs.codeOf (run ++ [b]) := by
    rw [h.code_eq, Cobs.codeOf_append_singleton]
  rw [hstore]
  refine ⟨⟨x, room, by simp⟩, ?_, rfl, h.codeIndex_eq, ?_, hcode, ?_⟩ <;>
    simp only [List.length_append, List.length_cons, List.length_nil] <;>
    omega

/-- A step that returns for lack of room. -/
theorem encoded_small {frame : List UInt8} {out : Buffer}
    (hlen : out.mem.length = outMax) (hover : out.overrun = false)
    (hsmall : outMax < frame.length) : Encoded outMax frame (out, 0) :=
  ⟨hlen, hover, fun hfits => absurd hfits (by omega), fun _ => rfl⟩

/-- The end of the loop closes the open block and writes the delimiter. -/
theorem encodeLoop_nil (h : s.At outMax front run) :
    Encoded outMax (front ++ Cobs.codeOf run :: run ++ [0])
      (cobsEncodeLoop outMax [] s) := by
  obtain ⟨room, hstore, hlen⟩ := h.store_code s.code
  have hwrite := h.writeIndex_eq
  simp only [cobsEncodeLoop]
  rw [hstore]
  split_ifs with hroom
  · apply encoded_small
    · simp; omega
    · rfl
    · simp; omega
  · rcases room with _ | ⟨x, room⟩
    · simp at hlen
      omega
    · have hsplit : front ++ s.code :: (run ++ x :: room) =
          (front ++ s.code :: run) ++ x :: room := by simp
      have hpos : s.writeIndex = (front ++ s.code :: run).length := by
        simp only [List.length_append, List.length_cons]
        omega
      have hend : s.writeIndex + 1 =
          (front ++ Cobs.codeOf run :: run ++ [0]).length := by
        rw [hpos]
        simp [Nat.add_assoc]
      rw [hsplit, hpos, Buffer.store_split, ← hpos]
      refine ⟨?_, rfl, fun _ => ⟨hend, ?_⟩, fun hsmall => ?_⟩
      · simp only [List.length_append, List.length_cons] at hlen ⊢
        omega
      · rw [h.code_eq, List.append_cons _ 0 room, List.take_left]
      · exfalso
        simp only [List.length_append, List.length_cons, List.length_nil]
          at hsmall hlen
        omega

/-- What the rest of the loop does, by induction on the bytes that are left. -/
theorem encodeLoop (h : s.At outMax front run) (input : List UInt8) :
    Encoded outMax (front ++ Cobs.encodeFrom run input ++ [0])
      (cobsEncodeLoop outMax input s) := by
  induction input generalizing front run s with
  | nil => exact h.encodeLoop_nil
  | cons b input ih =>
      have hwrite := h.writeIndex_eq
      have hrest : 0 < (Cobs.encodeFrom [] input).length :=
        List.length_pos_iff.mpr (Cobs.encodeFrom_ne_nil [] input)
      rw [cobsEncodeLoop, Cobs.encodeFrom]
      by_cases hb : b = 0
      · rw [if_pos hb, if_pos hb]
        dsimp only
        split_ifs with hroom
        · obtain ⟨room, hstore, hlen⟩ := h.store_code s.code
          rw [hstore]
          apply encoded_small
          · simp; omega
          · rfl
          · simp; omega
        · have hnext := ih (h.push_zero (by omega))
          simpa using hnext
      · rw [if_neg hb, if_neg hb]
        by_cases hroom : s.writeIndex ≥ outMax
        · rw [if_pos hroom]
          apply encoded_small h.length_mem h.no_overrun
          have hlong := Cobs.length_encodeFrom_ge run (b :: input)
          rw [Cobs.encodeFrom, if_neg hb] at hlong
          simp only [List.length_append, List.length_cons, List.length_nil]
            at hlong ⊢
          omega
        · rw [if_neg hroom]
          dsimp only
          by_cases hfull : run.length = 253
          · rw [if_pos (h.code_full_iff.mpr hfull), if_pos hfull]
            split_ifs with hroom2
            · obtain ⟨x, room, hstore, hlen⟩ := h.store_data (by omega) b
              rw [hstore, h.codeIndex_eq, Buffer.store_split]
              apply encoded_small
              · simp; omega
              · rfl
              · simp; omega
            · have hnext := ih (h.push_full (b := b) hfull (by omega))
              simpa using hnext
          · rw [if_neg (h.code_full_iff.not.mpr hfull), if_neg hfull]
            exact ih (h.push_other hfull (by omega))

end Stuffer.At

/-- `cobs_encode` stays inside its buffer and writes the frame of its input
whenever the frame fits. -/
theorem cobsEncode_spec (input : List UInt8) (out : Buffer)
    (hover : out.overrun = false) :
    Encoded out.mem.length (Cobs.encode input ++ [0])
      (cobsEncode input out out.mem.length) := by
  have hpos : 0 < (Cobs.encode input).length :=
    List.length_pos_iff.mpr (Cobs.encodeFrom_ne_nil [] input)
  rw [cobsEncode]
  split_ifs with hsmall
  · exact ⟨rfl, hover, fun hfits => absurd hfits (by simp; omega), fun _ => rfl⟩
  · obtain ⟨mem, o⟩ := out
    rcases mem with _ | ⟨x, mem⟩
    · simp at hsmall
    · have hstore := Buffer.store_split [] mem x 0 o
      simp only [List.nil_append, List.length_nil] at hstore
      rw [hstore]
      have hat : Stuffer.At (x :: mem).length [] []
          ⟨⟨0 :: mem, o⟩, 1, 0, 1⟩ :=
        ⟨⟨0, mem, rfl⟩, rfl, hover, rfl, rfl, rfl, by simp⟩
      exact hat.encodeLoop input

/-! ## Messages -/

/-- `emit_frame`: the calls of the writer for one payload. -/
def emitFrame (payload : List UInt8) : List (List UInt8) :=
  let (encoded, n) := cobsEncode payload (Buffer.alloc 512) 512
  if n > 0 then [encoded.mem.take n] else []

/-- `put_str`: the buffer and the position behind the string.  A string that
does not fit is left out together with its length byte. -/
def putStr (buf : Buffer) (max pos : Nat) (s : Option CStr) : Buffer × Nat :=
  let n := min (match s with | some s => s.strlen | none => 0) 255
  if pos + 1 + n > max then (buf, pos)
  else
    let buf := buf.store pos (UInt8.ofNat n)
    match s with
    | some s =>
        if n ≠ 0 then (buf.storeAll (pos + 1) (s.bytes.take n), pos + 1 + n)
        else (buf, pos + 1)
    | none => (buf, pos + 1)

/-- The four stores of `emit_msg` for one number. -/
def leBytes (u : UInt32) : List UInt8 :=
  [u.toUInt8, (u >>> 8).toUInt8, (u >>> 16).toUInt8, (u >>> 24).toUInt8]

/-- `PT_MSG_SUITE_START` to `PT_MSG_DONE`. -/
def ptMsg : MsgType → UInt8
  | .suiteStart => 1
  | .caseStart => 2
  | .assertFail => 3
  | .caseEnd => 4
  | .suiteEnd => 5
  | .log => 6
  | .done => 7

/-- `emit_msg`. -/
def emitMsg (msg : MsgType) (a b c : Option CStr) (u0 u1 u2 : UInt32) :
    List (List UInt8) :=
  let buf := (Buffer.alloc 384).storeAll 0 [0x50, 0x54, 1, ptMsg msg]
  let (buf, pos) := putStr buf 384 4 a
  let (buf, pos) := putStr buf 384 pos b
  let (buf, pos) := putStr buf 384 pos c
  if pos + 12 > 384 then []
  else
    let buf := buf.storeAll pos (leBytes u0 ++ leBytes u1 ++ leBytes u2)
    emitFrame (buf.mem.take (pos + 12))

/-- `PT_STATUS_PASSED`, `PT_STATUS_FAILED` and `PT_STATUS_SKIPPED`. -/
def ptStatus : TestStatus → UInt32
  | .passed => 0
  | .failed => 1
  | .skipped => 2

/-- The message of `open_suite_emit`. -/
def emitSuiteStart (name : Option CStr) : List (List UInt8) :=
  emitMsg .suiteStart name none none 0 0 0

/-- The message of `run_filtered` in front of a case. -/
def emitCaseStart (suite : Option CStr) (leaf : CStr) : List (List UInt8) :=
  emitMsg .caseStart suite (some leaf) none 0 0 0

/-- The message of `pot_fail_at`. -/
def emitAssertFail (suite : Option CStr) (leaf message : CStr) (line : UInt32) :
    List (List UInt8) :=
  emitMsg .assertFail suite (some leaf) (some message) line 0 0

/-- The message of `run_filtered` behind a case. -/
def emitCaseEnd (suite : Option CStr) (leaf : CStr) (status : TestStatus) :
    List (List UInt8) :=
  emitMsg .caseEnd suite (some leaf) none (ptStatus status) 0 0

/-- The message of `close_suite`. -/
def emitSuiteEnd (name : Option CStr) (passed failed skipped : UInt32) :
    List (List UInt8) :=
  emitMsg .suiteEnd name none none passed failed skipped

/-- The last message of `run_filtered`. -/
def emitDone (passed failed skipped : UInt32) : List (List UInt8) :=
  emitMsg .done none none none passed failed skipped

end PolyOnTest.Harness
