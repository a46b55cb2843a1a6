import Mathlib.Data.List.DropRight
import PolyOnTest.Builtins.CobsCodec
import PolyOnTest.CodeLib.Checked
import PolyOnTest.CodeLib.Resync

/-!
# The index arithmetic of the COBS decoder

`CobsCodec` reads `cobs_decode`, `decode_payload` and `decode_feed` as
functions on the bytes that are still to come.  The source walks positions in a
slice, and each index, each slice, each subtraction and the `unwrap` in
`read_u32` may panic.  The functions below are the source with these positions
and checks, in `CodeLib.Checked`, under the names of the source.

Each of them has one equation, which says that it runs to its end and gives
what the function of `CobsCodec` gives.  `CobsCodec.decodeFeed_safe` puts them
together with what `decode_feed` leaves in the buffer.
-/

namespace PolyOnTest.Builtins

open CodeLib

namespace Checked

open CodeLib.Checked

/-! ## The source -/

/-- `read_str` -/
def readStr (data : List UInt8) (pos : Nat) : Fallible PluginError (Str × Nat) := do
  if data.length ≤ pos then throw (.codec "truncated")
  let n ← check (index data pos)
  let pos := pos + 1
  if data.length < pos + n.toNat then throw (.codec "truncated str")
  let bytes ← check (slice data pos (pos + n.toNat))
  return (Utf8.lossy bytes, pos + n.toNat)

/-- `read_u32` -/
def readU32 (data : List UInt8) (pos : Nat) : Fallible PluginError (UInt32 × Nat) := do
  if data.length < pos + 4 then throw (.codec "truncated u32")
  let bytes ← check (slice data pos (pos + 4))
  let bytes ← check (array 4 bytes)
  return (fromLeBytes bytes, pos + 4)

/-- `decode_payload` -/
def decodePayload (data : List UInt8) : Fallible PluginError (Option Event) := do
  if data.length < 4 then return none
  if (← check (slice data 0 2)) ≠ ptwpMagic then return none
  if (← check (index data 2)) ≠ ptwpVersion then return none
  let code ← check (index data 3)
  match MsgType.fromU8 code with
  | none => throw (.codec ("unknown msg type " ++ toString code.toNat))
  | some msg =>
      let (a, pos) ← readStr data 4
      let (b, pos) ← readStr data pos
      let (c, pos) ← readStr data pos
      let (u0, pos) ← readU32 data pos
      let (u1, pos) ← readU32 data pos
      let (u2, _) ← readU32 data pos
      return some (eventOf msg a b c u0 u1 u2)

/-- One trip of the loop of `cobs_decode`, with the position and `out`. -/
def cobsDecodeBody (input : List UInt8) :
    Nat × List UInt8 → Checked ((Nat × List UInt8) ⊕ Except String (List UInt8))
  | (i, out) => do
    if i < input.length then
      let code ← index input i
      if code = 0 then return .inr (.error "zero code")
      let i := i + 1
      let stop ← sub (i + code.toNat) 1
      if input.length < stop then return .inr (.error "overrun")
      let block ← slice input i stop
      let zero := if code ≠ 0xFF ∧ stop < input.length then [0] else []
      return .inl (stop, out ++ block ++ zero)
    else return .inr (.ok out)

/-- `cobs_decode` with `n` units of fuel. -/
def cobsDecode (n : Nat) (input : List UInt8) : Checked (Except String (List UInt8)) :=
  loop (cobsDecodeBody input) n (0, [])

/-- One trip of the loop of `decode_feed`, with the buffer and `out`. -/
def decodeFeedBody (n : Nat) : List UInt8 × List Event →
    Checked ((List UInt8 × List Event) ⊕ (List UInt8 × Except PluginError (List Event)))
  | (buf, out) => do
    match buf.findIdx? (· = 0) with
    | none => return .inr (buf, .ok out)
    | some pos =>
      let frame ← slice buf 0 pos
      let buf ← drain buf (pos + 1)
      if frame = [] then return .inl (buf, out)
      match ← cobsDecode n frame with
      | .error e => return .inr (buf, .error (.codec e))
      | .ok decoded =>
        match ← (decodePayload decoded).run with
        | .error e => return .inr (buf, .error e)
        | .ok event => return .inl (buf, out ++ event.toList)

/-- `CobsCodec::decode_feed` with `n` units of fuel for each loop. -/
def decodeFeed (n : Nat) (codec : CobsCodec) (data : List UInt8) :
    Checked (CobsCodec × Except PluginError (List Event)) := do
  let (buf, result) ← loop (decodeFeedBody n) n (codec.buf ++ data, [])
  return (⟨buf⟩, result)

/-! ## Every check passes -/

theorem readStr_eq (data : List UInt8) (pos : Nat) :
    readStr data pos = ran (Builtins.readStr data pos) := by
  rw [readStr, Builtins.readStr]
  by_cases hpos : data.length ≤ pos
  · rw [if_pos hpos, if_pos hpos]
    rfl
  · rw [if_neg hpos, if_neg hpos, index_getD (Nat.lt_of_not_le hpos) 0]
    simp only [check_ok_bind]
    generalize (data.getD pos 0).toNat = n
    by_cases hn : data.length < pos + 1 + n
    · rw [if_pos hn, if_pos hn]
      rfl
    · rw [if_neg hn, if_neg hn, slice_of_le (by omega) (by omega), Nat.add_sub_cancel_left]
      rfl

theorem readU32_eq (data : List UInt8) (pos : Nat) :
    readU32 data pos = ran (Builtins.readU32 data pos) := by
  rw [readU32, Builtins.readU32]
  by_cases hpos : data.length < pos + 4
  · rw [if_pos hpos, if_pos hpos]
    rfl
  · rw [if_neg hpos, if_neg hpos, slice_of_le (by omega) (by omega), Nat.add_sub_cancel_left]
    have hlen : ((data.drop pos).take 4).length = 4 := by
      rw [List.length_take, List.length_drop]
      omega
    simp only [check_ok_bind, array_of_length hlen]
    rfl

theorem decodePayload_eq (data : List UInt8) :
    decodePayload data = ran (Builtins.decodePayload data) := by
  rw [decodePayload, Builtins.decodePayload]
  by_cases hlen : data.length < 4
  · rw [if_pos hlen, if_pos (.inl hlen)]
    rfl
  rw [if_neg hlen, slice_of_le (by omega) (by omega), index_getD (i := 2) (by omega) 0,
    index_getD (i := 3) (by omega) 0, List.drop_zero, Nat.sub_zero]
  simp only [check_ok_bind]
  by_cases hmagic : data.take 2 ≠ ptwpMagic
  · rw [if_pos hmagic, if_pos (.inr (.inl hmagic))]
    rfl
  by_cases hversion : data.getD 2 0 ≠ ptwpVersion
  · rw [if_neg hmagic, if_pos hversion, if_pos (.inr (.inr hversion))]
    rfl
  rw [if_neg hmagic, if_neg hversion, if_neg (by tauto)]
  cases MsgType.fromU8 (data.getD 3 0) with
  | none => rfl
  | some msg =>
    dsimp only
    simp only [readStr_eq, readU32_eq]
    refine ran_bind _ fun _ => ran_bind _ fun _ => ran_bind _ fun _ => ran_bind _ fun _ =>
      ran_bind _ fun _ => ran_bind _ fun _ => rfl

/-- A trip of the loop of `cobs_decode` moves on, and the loop gives what the
walk over the bytes behind the position gives. -/
theorem cobsDecodeBody_spec (input : List UInt8) (s : Nat × List UInt8) :
    cobsDecodeBody input s = .ok (.inr (cobsDecodeLoop (input.drop s.1) s.2)) ∨
      ∃ s', cobsDecodeBody input s = .ok (.inl s') ∧ True ∧
        input.length - s'.1 < input.length - s.1 ∧
        cobsDecodeLoop (input.drop s'.1) s'.2 = cobsDecodeLoop (input.drop s.1) s.2 := by
  obtain ⟨i, out⟩ := s
  dsimp only [cobsDecodeBody]
  by_cases hi : i < input.length
  · rw [if_pos hi, index_getD hi 0, ok_bind, List.drop_eq_getElem_cons hi,
      List.getD_eq_getElem?_getD, List.getElem?_eq_getElem hi, Option.getD_some,
      cobsDecodeLoop]
    generalize input[i] = code
    by_cases hcode : code = 0
    · rw [if_pos hcode, if_pos hcode]
      exact .inl rfl
    rw [if_neg hcode, if_neg hcode, sub_of_le (by omega), ok_bind, List.length_drop,
      List.drop_drop]
    have hpos : 0 < code.toNat :=
      Nat.pos_iff_ne_zero.mpr fun hz => hcode (UInt8.toNat_inj.mp hz)
    have hstop : i + 1 + (code.toNat - 1) = i + 1 + code.toNat - 1 := by omega
    rw [hstop]
    generalize hs : i + 1 + code.toNat - 1 = stop at hstop
    by_cases hover : input.length < stop
    · rw [if_pos hover, if_pos (by omega)]
      exact .inl rfl
    · have hroom : ¬ input.length - (i + 1) < code.toNat - 1 := by omega
      rw [if_neg hover, if_neg hroom, slice_of_le (by omega) (by omega), ok_bind,
        blockZero, ← hstop, Nat.add_sub_cancel_left, hstop]
      refine .inr ⟨_, rfl, trivial, by dsimp only; omega, ?_⟩
      have hrest : input.drop stop ≠ [] ↔ stop < input.length := by
        rw [ne_eq, List.drop_eq_nil_iff, Nat.not_le]
      dsimp only
      simp only [hrest]
  · rw [if_neg hi, List.drop_eq_nil_of_le (Nat.le_of_not_lt hi), cobsDecodeLoop]
    exact .inl rfl

theorem cobsDecode_eq {n : Nat} {input : List UInt8} (hn : input.length < n) :
    cobsDecode n input = .ok (Builtins.cobsDecode input) :=
  loop_eq (fun s _ => cobsDecodeBody_spec input s) trivial hn

/-- The first zero byte cuts the first frame off. -/
theorem findIdx?_zero {buf : List UInt8} {pos : Nat} (h : buf.findIdx? (· = 0) = some pos) :
    pos < buf.length ∧ 0 ∉ buf.take pos ∧ buf = buf.take pos ++ 0 :: buf.drop (pos + 1) := by
  obtain ⟨hpos, hzero, hbefore⟩ := List.findIdx?_eq_some_iff_getElem.mp h
  refine ⟨hpos, fun hmem => ?_, ?_⟩
  · obtain ⟨j, hj, hbyte⟩ := List.mem_take_iff_getElem.mp hmem
    exact hbefore j (by omega) (by simpa using hbyte)
  · rw [← of_decide_eq_true hzero, ← List.drop_eq_getElem_cons hpos, List.take_append_drop]

/-- A trip of the loop of `decode_feed` takes one frame off the buffer, and the
loop gives what the pass over the buffer gives. -/
theorem decodeFeedBody_spec {n : Nat} (s : List UInt8 × List Event) (hs : s.1.length < n) :
    decodeFeedBody n s =
        .ok (.inr (Delimited.drain 0 CobsCodec.decodeFrame [] s.1 s.2)) ∨
      ∃ s', decodeFeedBody n s = .ok (.inl s') ∧ s'.1.length < n ∧
        s'.1.length < s.1.length ∧
        Delimited.drain 0 CobsCodec.decodeFrame [] s'.1 s'.2 =
          Delimited.drain 0 CobsCodec.decodeFrame [] s.1 s.2 := by
  obtain ⟨buf, out⟩ := s
  dsimp only [decodeFeedBody] at hs ⊢
  cases hfind : buf.findIdx? (· = 0) with
  | none =>
    have hfree : (0 : UInt8) ∉ buf := fun hmem => by
      have := List.findIdx?_eq_none_iff.mp hfind 0 hmem
      simp at this
    have hpass := Delimited.drain_free 0 CobsCodec.decodeFrame hfree [] [] out
    rw [List.append_nil, List.nil_append, Delimited.drain_nil] at hpass
    rw [hpass]
    exact .inl rfl
  | some pos =>
    obtain ⟨hpos, hfree, hbuf⟩ := findIdx?_zero hfind
    have hpass := Delimited.drain_frame 0 CobsCodec.decodeFrame hfree
      (buf.drop (pos + 1)) out
    rw [← hbuf] at hpass
    have hrest : (buf.drop (pos + 1)).length < buf.length := by
      rw [List.length_drop]
      omega
    have hframe : (buf.take pos).length < n := by
      rw [List.length_take]
      omega
    dsimp only
    rw [slice_of_le (Nat.zero_le _) (Nat.le_of_lt hpos), ok_bind, drain_of_le hpos, ok_bind,
      List.drop_zero, Nat.sub_zero, hpass, CobsCodec.decodeFrame]
    by_cases hnil : buf.take pos = []
    · rw [if_pos hnil, if_pos hnil]
      refine .inr ⟨_, rfl, Nat.lt_trans hrest hs, hrest, ?_⟩
      dsimp only
      rw [List.append_nil]
    rw [if_neg hnil, if_neg hnil, cobsDecode_eq hframe, ok_bind]
    cases Builtins.cobsDecode (buf.take pos) with
    | error e => exact .inl rfl
    | ok decoded =>
      dsimp only
      rw [decodePayload_eq]
      cases Builtins.decodePayload decoded with
      | error e => exact .inl rfl
      | ok event => exact .inr ⟨_, rfl, Nat.lt_trans hrest hs, hrest, rfl⟩

theorem decodeFeed_eq {n : Nat} {codec : CobsCodec} {data : List UInt8}
    (hn : (codec.buf ++ data).length < n) :
    decodeFeed n codec data = .ok (codec.decodeFeed data) := by
  rw [decodeFeed, loop_eq decodeFeedBody_spec hn hn]
  rfl

end Checked

/-! ## What stays in the buffer -/

/-- The bytes behind the last zero byte of a run of closed frames. -/
theorem rtakeWhile_closed (frames : List (List UInt8)) {rest : List UInt8} (h : 0 ∉ rest) :
    (frames.flatMap (· ++ [0]) ++ rest).rtakeWhile (· ≠ 0) = rest := by
  have hrest : ∀ b ∈ rest.reverse, decide (b ≠ 0) = true := by
    intro b hb
    exact decide_eq_true fun h0 => h (h0 ▸ List.mem_reverse.mp hb)
  have hclosed : (frames.flatMap (· ++ [0])).reverse.takeWhile (· ≠ 0) = [] := by
    rcases List.eq_nil_or_concat frames with rfl | ⟨front, last, rfl⟩
    · rfl
    · simp
  rw [List.rtakeWhile, List.reverse_append, List.takeWhile_append_of_pos hrest, hclosed,
    List.append_nil, List.reverse_reverse]

/-- `decode_feed` passes every check for any buffer and any bytes, and a
failure leaves what is behind the frame that failed. -/
theorem CobsCodec.decodeFeed_safe (codec : CobsCodec) (data : List UInt8) :
    (∀ n, (codec.buf ++ data).length < n →
      Checked.decodeFeed n codec data = .ok (codec.decodeFeed data)) ∧
    (∀ events, (codec.decodeFeed data).2 = .ok events →
      (codec.decodeFeed data).1.buf = (codec.buf ++ data).rtakeWhile (· ≠ 0) ∧
        0 ∉ (codec.decodeFeed data).1.buf) ∧
    (∀ e, (codec.decodeFeed data).2 = .error e →
      ∃ (frames : List (List UInt8)) (bad : List UInt8),
        (∀ f ∈ frames, 0 ∉ f ∧ ∃ events, decodeFrame f = .ok events) ∧
        0 ∉ bad ∧ decodeFrame bad = .error e ∧
        codec.buf ++ data =
          frames.flatMap (· ++ [0]) ++ (bad ++ 0 :: (codec.decodeFeed data).1.buf)) := by
  refine ⟨fun n hn => Checked.decodeFeed_eq hn, ?_⟩
  obtain ⟨frames, hframes, hpass⟩ := @Delimited.drain_segments _ _ _ _ 0 decodeFrame []
    List.not_mem_nil (codec.buf ++ data) []
  rw [List.nil_append] at hpass
  rw [CobsCodec.decodeFeed]
  generalize Delimited.drain 0 decodeFrame [] (codec.buf ++ data) [] = answer at hpass
  rcases answer with ⟨rest, e | events⟩
  · obtain ⟨bad, hfree, hbad, hbytes⟩ := hpass
    refine ⟨fun _ h => (nomatch h), fun e' he => ?_⟩
    obtain rfl : e = e' := by injection he
    exact ⟨frames, bad, hframes, hfree, hbad, hbytes⟩
  · obtain ⟨hfree, hbytes⟩ := hpass
    refine ⟨fun _ _ => ⟨?_, hfree⟩, fun _ h => (nomatch h)⟩
    rw [hbytes, rtakeWhile_closed frames hfree]

/-- A frame that announces more bytes than it has, in two reads. -/
theorem CobsCodec.decodeFeed_safe_overrun :
    Checked.decodeFeed 4 ⟨[5]⟩ [0, 7] = .ok (⟨[7]⟩, .error (.codec "overrun")) := by
  have hfeed : CobsCodec.decodeFeed ⟨[5]⟩ [0, 7] = (⟨[7]⟩, .error (.codec "overrun")) := by
    simp [decodeFeed, Delimited.drain, decodeFrame, cobsDecode, cobsDecodeLoop]
  rw [(CobsCodec.decodeFeed_safe ⟨[5]⟩ [0, 7]).1 4 (by decide), hfeed]

end PolyOnTest.Builtins
