import Mathlib.Data.List.Basic

/-!
# Consistent overhead byte stuffing

The block structure of COBS as functions on byte lists.  A block is one code
byte `n` followed by `n - 1` bytes.  A block with a code below `0xFF` stands
for its bytes and one zero byte, except at the end of the frame.  A block with
the code `0xFF` stands for its 254 bytes and no zero.

`encodeFrom` is the encoder with the bytes of the open block as its first
argument, so an encoder that patches the code byte of the open block after the
fact is the same function.  `decode` reads the blocks of a frame.

The results are the inversion `decode_encode`, its converse `encode_decode`
for the frames that `decode` accepts, the fact that lets a zero byte end a
frame, `zero_not_mem_encode`, and the size bound `length_encode_le`.
-/

namespace CodeLib.Cobs

/-- The code byte of a block that holds `run`. -/
def codeOf (run : List UInt8) : UInt8 := UInt8.ofNat (run.length + 1)

/-- The encoding of `run ++ input`, where `run` is in the open block. -/
def encodeFrom : List UInt8 → List UInt8 → List UInt8
  | run, [] => codeOf run :: run
  | run, b :: input =>
      if b = 0 then codeOf run :: (run ++ encodeFrom [] input)
      else if run.length = 253 then 0xFF :: (run ++ b :: encodeFrom [] input)
      else encodeFrom (run ++ [b]) input

/-- The encoding of one frame, without the delimiter. -/
def encode (input : List UInt8) : List UInt8 := encodeFrom [] input

/-- Why a frame is not a sequence of blocks. -/
inductive DecodeError
  | zeroCode
  | overrun
  deriving DecidableEq, Repr

/-- The bytes that the blocks of a frame stand for. -/
def decode : List UInt8 → Except DecodeError (List UInt8)
  | [] => .ok []
  | code :: rest =>
      if code = 0 then .error .zeroCode
      else if rest.length < code.toNat - 1 then .error .overrun
      else
        (decode (rest.drop (code.toNat - 1))).map fun tail =>
          if code ≠ 0xFF ∧ rest.drop (code.toNat - 1) ≠ [] then
            rest.take (code.toNat - 1) ++ 0 :: tail
          else rest.take (code.toNat - 1) ++ tail
termination_by frame => frame.length
decreasing_by
  rw [List.length_drop, List.length_cons]
  exact Nat.lt_succ_of_le (Nat.sub_le ..)

@[simp] theorem decode_nil : decode [] = .ok [] := by rw [decode]

theorem encodeFrom_ne_nil (run input : List UInt8) :
    encodeFrom run input ≠ [] := by
  induction input generalizing run with
  | nil => simp [encodeFrom]
  | cons b input ih =>
      rw [encodeFrom]
      split_ifs
      · simp
      · simp
      · exact ih _

theorem codeOf_toNat {run : List UInt8} (h : run.length ≤ 254) :
    (codeOf run).toNat = run.length + 1 := by
  rw [codeOf, UInt8.toNat_ofNat']
  omega

theorem codeOf_append_singleton (run : List UInt8) (b : UInt8) :
    codeOf (run ++ [b]) = codeOf run + 1 := by
  rw [codeOf, codeOf, List.length_append, List.length_singleton,
    UInt8.ofNat_add]
  rfl

theorem codeOf_ne_zero {run : List UInt8} (h : run.length ≤ 254) :
    codeOf run ≠ 0 := by
  intro h0
  have := congrArg UInt8.toNat h0
  rw [codeOf_toNat h] at this
  simp at this

theorem codeOf_ne_full {run : List UInt8} (h : run.length ≤ 253) :
    codeOf run ≠ 0xFF := by
  intro h0
  have := congrArg UInt8.toNat h0
  rw [codeOf_toNat (by omega)] at this
  simp at this
  omega

theorem codeOf_full {run : List UInt8} (h : run.length = 254) :
    codeOf run = 0xFF := by
  rw [codeOf, h]
  rfl

/-! ## Inversion -/

/-- The last block of a frame adds no zero. -/
theorem decode_lastBlock {run : List UInt8} (h : run.length ≤ 254) :
    decode (codeOf run :: run) = .ok run := by
  rw [decode, if_neg (codeOf_ne_zero h), codeOf_toNat h, if_neg (by omega)]
  simp [Except.map]

/-- A short block with more blocks behind it ends in a zero. -/
theorem decode_shortBlock {run rest : List UInt8} (h : run.length ≤ 253)
    (hrest : rest ≠ []) :
    decode (codeOf run :: (run ++ rest)) =
      (decode rest).map (fun tail => run ++ 0 :: tail) := by
  rw [decode, if_neg (codeOf_ne_zero (by omega)), codeOf_toNat (by omega),
    if_neg (by simp)]
  simp [codeOf_ne_full h, hrest]

/-- A full block adds no zero. -/
theorem decode_fullBlock {run rest : List UInt8} (h : run.length = 254) :
    decode (0xFF :: (run ++ rest)) =
      (decode rest).map (fun tail => run ++ tail) := by
  have hcode : (0xFF : UInt8).toNat - 1 = run.length := by rw [h]; rfl
  rw [decode, if_neg (by decide), hcode, if_neg (by simp)]
  simp

theorem decode_encodeFrom {run : List UInt8} (h : run.length ≤ 253)
    (input : List UInt8) :
    decode (encodeFrom run input) = .ok (run ++ input) := by
  induction input generalizing run with
  | nil =>
      rw [encodeFrom, decode_lastBlock (by omega), List.append_nil]
  | cons b input ih =>
      rw [encodeFrom]
      split_ifs with hb hfull
      · rw [decode_shortBlock h (encodeFrom_ne_nil _ _), ih (by simp), hb]
        rfl
      · rw [show run ++ b :: encodeFrom [] input =
            (run ++ [b]) ++ encodeFrom [] input from by simp,
          decode_fullBlock (by simp [hfull]), ih (by simp)]
        simp [Except.map]
      · rw [ih (by simp; omega)]
        simp

/-- The decoder inverts the encoder. -/
theorem decode_encode (input : List UInt8) :
    decode (encode input) = .ok input :=
  decode_encodeFrom (by simp) input

/-! ## The frames of one payload -/

/-- The code of the last block of a frame, in the walk of `decode`. -/
def lastCode : List UInt8 → Option UInt8
  | [] => none
  | code :: rest =>
      if rest.drop (code.toNat - 1) = [] then some code
      else lastCode (rest.drop (code.toNat - 1))
termination_by frame => frame.length
decreasing_by
  rw [List.length_drop, List.length_cons]
  exact Nat.lt_succ_of_le (Nat.sub_le ..)

/-- Bytes other than zero go into the open block while it has room. -/
theorem encodeFrom_append {run bytes : List UInt8}
    (h : run.length + bytes.length ≤ 253) (h0 : 0 ∉ bytes) (input : List UInt8) :
    encodeFrom run (bytes ++ input) = encodeFrom (run ++ bytes) input := by
  induction bytes generalizing run with
  | nil => simp
  | cons b bytes ih =>
      rw [List.mem_cons, not_or] at h0
      rw [List.length_cons] at h
      rw [List.cons_append, encodeFrom, if_neg (Ne.symm h0.1), if_neg (by omega),
        ih (by simp; omega) h0.2]
      simp

/-- The encoding of a short run that a zero byte ends. -/
theorem encode_shortBlock {run : List UInt8} (h : run.length ≤ 253)
    (h0 : 0 ∉ run) (input : List UInt8) :
    encode (run ++ 0 :: input) = codeOf run :: (run ++ encode input) := by
  rw [encode, encodeFrom_append (by simpa using h) h0, List.nil_append, encodeFrom,
    if_pos rfl, encode]

/-- The encoding of a run that fills a block. -/
theorem encode_fullBlock {run : List UInt8} (h : run.length = 254)
    (h0 : 0 ∉ run) (input : List UInt8) :
    encode (run ++ input) = 0xFF :: (run ++ encode input) := by
  have hne : run ≠ [] := List.ne_nil_of_length_pos (by omega)
  obtain ⟨front, b, rfl⟩ : ∃ front b, run = front ++ [b] :=
    ⟨run.dropLast, run.getLast hne, (List.dropLast_concat_getLast hne).symm⟩
  rw [List.length_append, List.length_singleton] at h
  simp only [List.mem_append, List.mem_singleton, not_or] at h0
  rw [encode, List.append_assoc, encodeFrom_append (by simp; omega) h0.1,
    List.nil_append, List.singleton_append, encodeFrom, if_neg (Ne.symm h0.2),
    if_pos (by omega), encode]
  simp

/-- The encoding of a short run at the end of the input. -/
theorem encode_lastBlock {run : List UInt8} (h : run.length ≤ 253)
    (h0 : 0 ∉ run) : encode run = codeOf run :: run := by
  have := @encodeFrom_append [] run (by simpa using h) h0 []
  rw [List.append_nil, List.nil_append, encodeFrom] at this
  exact this

/-- A block that the decoder does not refuse is a run with its code in front. -/
theorem exists_block {code : UInt8} {rest : List UInt8} (hcode : code ≠ 0)
    (hroom : ¬rest.length < code.toNat - 1) :
    ∃ run after, rest = run ++ after ∧ code = codeOf run ∧ run.length ≤ 254 := by
  have hpos : 0 < code.toNat := by
    rw [Nat.pos_iff_ne_zero]
    exact fun hz => hcode (UInt8.toNat_inj.mp hz)
  have hbyte := UInt8.toNat_lt code
  have hlen : (rest.take (code.toNat - 1)).length = code.toNat - 1 := by
    rw [List.length_take]
    omega
  refine ⟨rest.take (code.toNat - 1), rest.drop (code.toNat - 1),
    (List.take_append_drop ..).symm, ?_, by omega⟩
  rw [codeOf, hlen, Nat.sub_add_cancel hpos, UInt8.ofNat_toNat]

theorem exists_of_map_eq_ok {α β : Type} {f : α → β} {e : Except DecodeError α} {b : β}
    (h : e.map f = .ok b) : ∃ a, e = .ok a ∧ b = f a := by
  cases e with
  | error err => cases h
  | ok a => exact ⟨a, rfl, (Except.ok.inj h).symm⟩

/-- Induction over the blocks of an accepted frame. -/
theorem accepted_induction {motive : List UInt8 → List UInt8 → Prop}
    (last : ∀ run, run.length ≤ 254 → motive (codeOf run :: run) run)
    (short : ∀ run rest tail, run.length ≤ 253 → rest ≠ [] → motive rest tail →
      motive (codeOf run :: (run ++ rest)) (run ++ 0 :: tail))
    (full : ∀ run rest tail, run.length = 254 → rest ≠ [] → motive rest tail →
      motive (codeOf run :: (run ++ rest)) (run ++ tail))
    {frame x : List UInt8} (hne : frame ≠ []) (h : decode frame = .ok x) :
    motive frame x := by
  induction frame using decode.induct generalizing x with
  | case1 => exact absurd rfl hne
  | case2 rest =>
      rw [decode, if_pos rfl] at h
      cases h
  | case3 code rest hcode hlt =>
      rw [decode, if_neg hcode, if_pos hlt] at h
      cases h
  | case4 code rest hcode hroom ih =>
      obtain ⟨run, after, rfl, rfl, hlen⟩ := exists_block hcode hroom
      rw [codeOf_toNat hlen, Nat.add_sub_cancel, List.drop_left] at ih
      by_cases hlast : after = []
      · subst hlast
        rw [List.append_nil] at h ⊢
        rw [decode_lastBlock hlen] at h
        rw [← Except.ok.inj h]
        exact last run hlen
      · by_cases hfull : run.length = 254
        · rw [codeOf_full hfull, decode_fullBlock hfull] at h
          obtain ⟨tail, htail, rfl⟩ := exists_of_map_eq_ok h
          exact full run after tail hfull hlast (ih hlast htail)
        · rw [decode_shortBlock (by omega) hlast] at h
          obtain ⟨tail, htail, rfl⟩ := exists_of_map_eq_ok h
          exact short run after tail (by omega) hlast (ih hlast htail)

theorem lastCode_lastBlock {run : List UInt8} (h : run.length ≤ 254) :
    lastCode (codeOf run :: run) = some (codeOf run) := by
  rw [lastCode, codeOf_toNat h, Nat.add_sub_cancel, List.drop_length, if_pos rfl]

theorem lastCode_block {run rest : List UInt8} (h : run.length ≤ 254) (hrest : rest ≠ []) :
    lastCode (codeOf run :: (run ++ rest)) = lastCode rest := by
  rw [lastCode, codeOf_toNat h, Nat.add_sub_cancel, List.drop_left, if_neg hrest]

/-- The encoder gives back every accepted frame without zero bytes, but for
the empty block that it adds behind a full one. -/
theorem encode_decode {frame x : List UInt8} (hne : frame ≠ []) (h0 : 0 ∉ frame)
    (h : decode frame = .ok x) :
    encode x = if lastCode frame = some 0xFF then frame ++ [1] else frame := by
  revert h0
  refine accepted_induction (motive := fun frame x => 0 ∉ frame → encode x =
    if lastCode frame = some 0xFF then frame ++ [1] else frame) ?_ ?_ ?_ hne h
  · intro run hlen h0
    rw [List.mem_cons, not_or] at h0
    rw [lastCode_lastBlock hlen]
    by_cases hfull : run.length = 254
    · -- a full block at the end: the encoder opens an empty block
      have hencode := encode_fullBlock hfull h0.2 []
      rw [List.append_nil] at hencode
      rw [hencode, codeOf_full hfull, if_pos rfl]
      simp [encode, encodeFrom, codeOf]
    · have hcode := @codeOf_ne_full run (by omega)
      rw [encode_lastBlock (by omega) h0.2, if_neg (by simpa using hcode)]
  · intro run rest tail hlen hrest ih h0
    simp only [List.mem_cons, List.mem_append, not_or] at h0
    rw [encode_shortBlock hlen h0.2.1, ih h0.2.2, lastCode_block (by omega) hrest]
    split_ifs <;> simp
  · intro run rest tail hlen hrest ih h0
    simp only [List.mem_cons, List.mem_append, not_or] at h0
    rw [encode_fullBlock hlen h0.2.1, ih h0.2.2, lastCode_block (by omega) hrest,
      codeOf_full hlen]
    split_ifs <;> simp

/-- Two frames stand for the same bytes only if one is the other with an empty
block behind its full last block. -/
theorem decode_eq_decode {f g x : List UInt8} (hf : f ≠ []) (hg : g ≠ [])
    (hf0 : 0 ∉ f) (hg0 : 0 ∉ g) (hdf : decode f = .ok x) (hdg : decode g = .ok x)
    (hne : f ≠ g) :
    (lastCode f = some 0xFF ∧ g = f ++ [1]) ∨ (lastCode g = some 0xFF ∧ f = g ++ [1]) := by
  have h := (encode_decode hf hf0 hdf).symm.trans (encode_decode hg hg0 hdg)
  split_ifs at h with hff hgf hgf
  · exact absurd (List.append_cancel_right h) hne
  · exact .inl ⟨hff, h.symm⟩
  · exact .inr ⟨hgf, h⟩
  · exact absurd h hne

/-! ## Zero bytes and size -/

theorem zero_not_mem_encodeFrom {run : List UInt8} (h : run.length ≤ 253)
    (hrun : 0 ∉ run) (input : List UInt8) : 0 ∉ encodeFrom run input := by
  induction input generalizing run with
  | nil =>
      rw [encodeFrom, List.mem_cons, not_or]
      exact ⟨(codeOf_ne_zero (by omega)).symm, hrun⟩
  | cons b input ih =>
      rw [encodeFrom]
      have hnil := @ih [] (by simp) (by simp)
      split_ifs with hb hfull
      · simp only [List.mem_cons, List.mem_append, not_or]
        exact ⟨(codeOf_ne_zero (by omega)).symm, hrun, hnil⟩
      · simp only [List.mem_cons, List.mem_append, not_or]
        exact ⟨by decide, hrun, Ne.symm hb, hnil⟩
      · refine ih (by simp; omega) ?_
        simp only [List.mem_append, List.mem_singleton, not_or]
        exact ⟨hrun, Ne.symm hb⟩

/-- An encoded frame holds no zero byte. -/
theorem zero_not_mem_encode (input : List UInt8) : 0 ∉ encode input :=
  zero_not_mem_encodeFrom (by simp) (by simp) input

theorem length_encodeFrom_ge (run input : List UInt8) :
    run.length + input.length + 1 ≤ (encodeFrom run input).length := by
  induction input generalizing run with
  | nil => simp [encodeFrom]
  | cons b input ih =>
      have hnil := ih []
      have hopen := ih (run ++ [b])
      rw [encodeFrom]
      split_ifs <;>
        simp only [List.length_cons, List.length_append, List.length_nil]
          at hnil hopen ⊢ <;>
        omega

theorem length_encodeFrom_le {run : List UInt8} (h : run.length ≤ 253)
    (input : List UInt8) :
    (encodeFrom run input).length ≤
      run.length + input.length + 1 + (run.length + input.length) / 254 := by
  induction input generalizing run with
  | nil =>
      rw [encodeFrom]
      simp
  | cons b input ih =>
      rw [encodeFrom]
      have hnil := @ih [] (by simp)
      simp only [List.length_nil, Nat.zero_add] at hnil
      split_ifs with hb hfull
      · simp only [List.length_cons, List.length_append]
        omega
      · simp only [List.length_cons, List.length_append]
        omega
      · have := @ih (run ++ [b]) (by simp; omega)
        simp only [List.length_cons, List.length_append, List.length_nil] at this ⊢
        omega

/-- A frame grows by one byte and one byte more for each full block. -/
theorem length_encode_le (input : List UInt8) :
    (encode input).length ≤ input.length + 1 + input.length / 254 := by
  have := @length_encodeFrom_le [] (by simp) input
  simpa [encode] using this

end CodeLib.Cobs
