import PolyOnTest.Wire.Layout

/-!
# The binary stream round trip

Events that the host encoder writes come back from the host decoder, whatever
the cuts between the reads.  The argument goes from one frame to the stream.

* `decodeFrame_encode`: one frame decodes to the event of its message.  This
  needs the inversion of the byte stuffing and of the payload layout.
* `drain_frames`: frames behind each other decode one by one, because a frame
  has no zero byte inside.
* `decodeChunks_frames`: the reads are one pass over their concatenation.

The last two hold for the frames of any messages, so the messages of the
harness use them as well.
-/

namespace PolyOnTest.Wire

open CodeLib PolyOnTest.Builtins

/-- The frame of a message: the stuffed payload and the delimiter. -/
def Slots.frame (m : Slots) : List UInt8 := Cobs.encode m.layout ++ [0]

/-- An event that its frame determines: no string is cut, and there is no file
name, which the binary format does not carry. -/
structure Transmittable (e : Event) : Prop where
  short : ∀ s ∈ e.strings, (Utf8.encode s).length ≤ 255
  noFile : e.file = []

/-! ## One frame -/

theorem encode_eq_frame (e : Event) : CobsCodec.encode e = (slots e).frame := by
  rw [CobsCodec.encode, encodePayload_eq, cobsEncode_eq]
  rfl

/-- Between its delimiters a frame decodes to the event of its message. -/
theorem decodeFrame_encode (m : Slots) :
    CobsCodec.decodeFrame (Cobs.encode m.layout) = .ok [m.event] := by
  have hne : Cobs.encode m.layout ≠ [] := Cobs.encodeFrom_ne_nil [] m.layout
  unfold CobsCodec.decodeFrame
  rw [if_neg hne, cobsDecode_eq, Cobs.decode_encode]
  simp only [Except.mapError, decodePayload_layout, Except.map, Option.toList]

theorem lossy_slot {s : Str} (h : (Utf8.encode s).length ≤ 255) :
    Utf8.lossy ((Utf8.encode s).take 255) = s := by
  rw [List.take_of_length_le h, Utf8.lossy_encode]

@[simp] theorem statusOf_statusCode (status : TestStatus) :
    statusOf (statusCode status) = status := by
  cases status <;> rfl

/-- The slots of a transmittable event stand for the event. -/
theorem slots_event {e : Event} (h : Transmittable e) : (slots e).event = e := by
  have hnil : Utf8.lossy (([] : List UInt8).take 255) = [] := rfl
  rcases h with ⟨hshort, hfile⟩
  cases e <;> simp_all [Event.strings, Event.file, Slots.event, slots, eventOf,
    lossy_slot]

/-! ## The stream -/

/-- A pass over the frames of some messages gives their events. -/
theorem drain_frames (ms : List Slots) (out : List Event) :
    Delimited.drain 0 CobsCodec.decodeFrame [] (ms.flatMap Slots.frame) out =
      ([], .ok (out ++ ms.map Slots.event)) := by
  induction ms generalizing out with
  | nil => simp
  | cons m ms ih =>
      have hsplit : (m :: ms).flatMap Slots.frame =
          Cobs.encode m.layout ++ 0 :: ms.flatMap Slots.frame := by
        simp [Slots.frame]
      rw [hsplit, Delimited.drain_frame 0 _ (Cobs.zero_not_mem_encode m.layout),
        decodeFrame_encode]
      dsimp only
      rw [ih]
      simp

/-- The codec over a list of chunks is the delimited reader. -/
theorem decodeChunks_eq_feedAll (codec : CobsCodec) (chunks : List (List UInt8))
    (out : List Event) :
    decodeChunks CobsCodec.decodeFeed codec chunks out =
      ((⟨(Delimited.feedAll 0 CobsCodec.decodeFrame codec.buf chunks out).1⟩,
        (Delimited.feedAll 0 CobsCodec.decodeFrame codec.buf chunks out).2)) := by
  induction chunks generalizing codec out with
  | nil => rfl
  | cons chunk chunks ih =>
      rw [decodeChunks, Delimited.feedAll, CobsCodec.decodeFeed]
      rcases Delimited.drain 0 CobsCodec.decodeFrame [] (codec.buf ++ chunk) []
        with ⟨rest, e | events⟩
      · rfl
      · exact ih ⟨rest⟩ (out ++ events)

/-- However the frames of some messages are cut into chunks, a fresh codec
gives their events and ends with an empty buffer. -/
theorem decodeChunks_frames (ms : List Slots) {chunks : List (List UInt8)}
    (hcut : chunks.flatten = ms.flatMap Slots.frame) :
    decodeChunks CobsCodec.decodeFeed .new chunks [] =
      (.new, .ok (ms.map Slots.event)) := by
  have hpass : Delimited.drain 0 CobsCodec.decodeFrame [] chunks.flatten [] =
      ([], .ok (ms.map Slots.event)) := by
    rw [hcut, drain_frames, List.nil_append]
  have hfeed := (Delimited.feedAll_eq_drain 0 CobsCodec.decodeFrame
    List.not_mem_nil chunks []).2 _ _ hpass
  rw [decodeChunks_eq_feedAll, CobsCodec.new, hfeed]

/-- The binary codec takes back every list of transmittable events, from any
cut of their encodings into chunks. -/
theorem decodeChunks_encode {events : List Event}
    (hevents : ∀ e ∈ events, Transmittable e) {chunks : List (List UInt8)}
    (hcut : chunks.flatten = events.flatMap CobsCodec.encode) :
    decodeChunks CobsCodec.decodeFeed .new chunks [] = (.new, .ok events) := by
  have hframes : events.flatMap CobsCodec.encode =
      (events.map slots).flatMap Slots.frame := by
    rw [List.flatMap_map]
    exact List.flatMap_congr fun e _ => encode_eq_frame e
  have hback : (events.map slots).map Slots.event = events := by
    rw [List.map_map]
    conv_rhs => rw [← List.map_id events]
    exact List.map_congr_left fun e he => slots_event (hevents e he)
  rw [decodeChunks_frames (events.map slots) (hcut.trans hframes), hback]

/-- The events of a case that fails without a file name. -/
def failingEvents : List Event :=
  [.suiteStart "Math".toList, .caseStart "Math".toList "ops.add".toList,
    .assertFail "Math".toList "ops.add".toList [] 7 "2 ≠ 3".toList,
    .caseEnd "Math".toList "ops.add".toList .failed, .suiteEnd "Math".toList 0 1 0,
    .log "slow".toList, .done 0 1 0]

/-- Cuts inside of the first frame, inside of a character, and an empty chunk. -/
theorem decodeChunks_encode_failing :
    decodeChunks CobsCodec.decodeFeed .new
        [(failingEvents.flatMap CobsCodec.encode).take 3, [],
          ((failingEvents.flatMap CobsCodec.encode).drop 3).take 76,
          ((failingEvents.flatMap CobsCodec.encode).drop 3).drop 76] [] =
      (.new, .ok failingEvents) :=
  decodeChunks_encode
    (by
      have hshort : ∀ e ∈ failingEvents, ∀ s ∈ e.strings, (Utf8.encode s).length ≤ 255 := by
        decide
      have hfile : ∀ e ∈ failingEvents, e.file = [] := by decide
      exact fun e he => ⟨hshort e he, hfile e he⟩)
    (by simp only [List.flatten_cons, List.flatten_nil, List.nil_append, List.append_nil,
      List.take_append_drop])

end PolyOnTest.Wire
