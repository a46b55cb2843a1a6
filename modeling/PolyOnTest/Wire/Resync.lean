import PolyOnTest.CodeLib.Resync
import PolyOnTest.Wire.RoundTrip

/-!
# Decoding on after a bad frame

A caller that does not stop at an error of the binary codec: it feeds the next
chunk, and at the end it calls with empty input until no error comes back.  The
codec allows it, because `decode_feed` takes a frame out of its buffer before it
decodes it.

`decode_feed` leaves its loop by `?`, and the events of the frames in front of
the bad one are then dropped.  `keepDecoding_iff` says which chunks avoid this.
-/

namespace PolyOnTest.Wire

open CodeLib PolyOnTest.Builtins

/-- The calls of `decode_feed` with empty input until one returns no error, at
most `n` of them. -/
def decodeUntilOk : Nat → CobsCodec → List Event → Option (CobsCodec × List Event)
  | 0, _, _ => none
  | n + 1, codec, out =>
      match codec.decodeFeed [] with
      | (codec, .ok events) => some (codec, out ++ events)
      | (codec, .error _) => decodeUntilOk n codec out

/-- A caller that keeps calling `decode_feed` after an error, with the events
collected in `out`.  A call that returns an error takes a byte from the buffer
at least, which bounds the calls at the end. -/
def keepDecoding : CobsCodec → List (List UInt8) → List Event →
    Option (CobsCodec × List Event)
  | codec, [], out => decodeUntilOk (codec.buf.length + 1) codec out
  | codec, chunk :: chunks, out =>
      keepDecoding (codec.decodeFeed chunk).1 chunks
        (out ++ Delimited.gives (codec.decodeFeed chunk).2)

/-- The events of a segment of the stream.  A segment that the decoder rejects
has none. -/
def segmentEvents (segment : List UInt8) : List Event :=
  Delimited.gives (CobsCodec.decodeFrame segment)

/-- The decoder rejects a segment with an error. -/
def rejects (segment : List UInt8) : Bool := !(CobsCodec.decodeFrame segment).isOk

/-- At a call: among the segments that are complete in the buffer and the chunk,
none with an event stands in front of a rejected one. -/
def CallInOrder (codec : CobsCodec) (chunk : List UInt8) : Prop :=
  (Delimited.frames 0 (codec.buf ++ chunk)).Pairwise fun a b =>
    segmentEvents a ≠ [] → rejects b = false

/-- The same at each call that the caller makes with a chunk. -/
def CallsInOrder : CobsCodec → List (List UInt8) → Prop
  | _, [] => True
  | codec, chunk :: chunks =>
      CallInOrder codec chunk ∧ CallsInOrder (codec.decodeFeed chunk).1 chunks

/-! ## The caller as a delimited reader -/

theorem decodeFeed_eq_drain (codec : CobsCodec) (data : List UInt8) :
    codec.decodeFeed data =
      ((⟨(Delimited.drain 0 CobsCodec.decodeFrame [] (codec.buf ++ data) []).1⟩,
        (Delimited.drain 0 CobsCodec.decodeFrame [] (codec.buf ++ data) []).2)) := rfl

theorem decodeUntilOk_eq_settle (n : Nat) (codec : CobsCodec) (out : List Event) :
    decodeUntilOk n codec out =
      (Delimited.settle 0 CobsCodec.decodeFrame n codec.buf out).map
        fun answer => (⟨answer.1⟩, answer.2) := by
  induction n generalizing codec out with
  | zero => rfl
  | succ n ih =>
      rw [decodeUntilOk, Delimited.settle, decodeFeed_eq_drain, List.append_nil]
      rcases Delimited.drain 0 CobsCodec.decodeFrame [] codec.buf [] with ⟨rest, e | events⟩
      · exact ih ⟨rest⟩ out
      · rfl

theorem keepDecoding_eq_feedOn (codec : CobsCodec) (chunks : List (List UInt8))
    (out : List Event) :
    keepDecoding codec chunks out =
      (Delimited.feedOn 0 CobsCodec.decodeFrame codec.buf chunks out).map
        fun answer => (⟨answer.1⟩, answer.2) := by
  induction chunks generalizing codec out with
  | nil => exact decodeUntilOk_eq_settle _ codec out
  | cons chunk chunks ih => exact ih _ _

theorem callInOrder_iff (codec : CobsCodec) (chunk : List UInt8) :
    CallInOrder codec chunk ↔
      Delimited.InOrder 0 CobsCodec.decodeFrame (codec.buf ++ chunk) := by
  simp [CallInOrder, Delimited.InOrder, segmentEvents, rejects]

theorem callsInOrder_iff (codec : CobsCodec) (chunks : List (List UInt8)) :
    CallsInOrder codec chunks ↔
      Delimited.EachInOrder 0 CobsCodec.decodeFrame codec.buf chunks := by
  induction chunks generalizing codec with
  | nil => exact Iff.rfl
  | cons chunk chunks ih => exact and_congr (callInOrder_iff codec chunk) (ih _)

/-! ## What the caller gets -/

/-- However a stream of segments is cut, the caller gets exactly the events of
the good segments if and only if it makes no call with a good segment in front
of a rejected one. -/
theorem keepDecoding_iff {segments : List (List UInt8)} (hfree : ∀ s ∈ segments, 0 ∉ s)
    {chunks : List (List UInt8)}
    (hcut : chunks.flatten = segments.flatMap fun s => s ++ [0]) :
    (keepDecoding .new chunks []).map Prod.snd = some (segments.flatMap segmentEvents) ↔
      CallsInOrder .new chunks := by
  obtain ⟨rest, events, hfeed, -, hall⟩ :=
    Delimited.feedOn_spec 0 CobsCodec.decodeFrame CobsCodec.new.buf chunks []
  have hstart : Delimited.InOrder 0 CobsCodec.decodeFrame CobsCodec.new.buf :=
    List.Pairwise.nil
  have hfound : Delimited.found 0 CobsCodec.decodeFrame
      (CobsCodec.new.buf ++ chunks.flatten) = segments.flatMap segmentEvents := by
    rw [hcut, Delimited.found]
    exact congrArg (List.flatMap segmentEvents) (Delimited.frames_flatMap 0 hfree)
  rw [hfound] at hall
  rw [keepDecoding_eq_feedOn, hfeed, callsInOrder_iff]
  simpa [hstart] using hall

/-- A frame, then a segment with a code byte that points past its end. -/
def goodThenBad : List (List UInt8) := [Cobs.encode (slots (.done 1 0 0)).layout, [5]]

/-- Each segment in a chunk of its own. -/
theorem keepDecoding_iff_apart :
    (keepDecoding .new (goodThenBad.map fun s => s ++ [0]) []).map Prod.snd =
      some (goodThenBad.flatMap segmentEvents) := by
  refine (@keepDecoding_iff goodThenBad (by decide +kernel)
    (goodThenBad.map fun s => s ++ [0]) rfl).mpr ?_
  exact ⟨by unfold CallInOrder; decide +kernel, by unfold CallInOrder; decide +kernel,
    trivial⟩

/-- Both segments in one chunk: the `Done` event is lost. -/
theorem keepDecoding_together :
    CobsCodec.decodeFrame (Cobs.encode (slots (.done 1 0 0)).layout) =
        .ok [.done 1 0 0] ∧
      CobsCodec.decodeFrame [5] = .error (.codec "overrun") ∧
      keepDecoding .new [goodThenBad.flatMap fun s => s ++ [0]] [] = some (.new, []) := by
  decide +kernel

end PolyOnTest.Wire
