import PolyOnTest.Builtins.TextRoundTrip
import PolyOnTest.CodeLib.Utf8Cut

/-!
# Text in chunks

What the text codec reads from a stream that comes in chunks.  `decode_feed` makes
text of each chunk on its own, so a chunk that ends inside of a character loses it.

`decodeChunks_cuts` says that the cuts do not matter as long as none of them is
inside of a character.  `decodeChunks_unfinished_iff` says that the codec itself
sees each other cut: the text in its buffer is then another one.
-/

namespace PolyOnTest.Builtins

open CodeLib

/-- The codec over a list of chunks is the delimited reader over their texts. -/
theorem decodeChunks_text_eq_feedAll (codec : TextCodec) (chunks : List (List UInt8))
    (out : List Event) :
    decodeChunks TextCodec.decodeFeed codec chunks out =
      ((⟨(Delimited.feedAll '\n' TextCodec.decodeLine codec.buf
          (chunks.map Utf8.lossy) out).1⟩,
        (Delimited.feedAll '\n' TextCodec.decodeLine codec.buf
          (chunks.map Utf8.lossy) out).2)) := by
  induction chunks generalizing codec out with
  | nil => rfl
  | cons chunk chunks ih =>
      rw [decodeChunks, List.map_cons, Delimited.feedAll, TextCodec.decodeFeed]
      rcases Delimited.drain '\n' TextCodec.decodeLine []
        (codec.buf ++ Utf8.lossy chunk) [] with ⟨rest, e | events⟩
      · rfl
      · exact ih ⟨rest⟩ (out ++ events)

/-- A fresh codec makes one pass over the texts of the chunks. -/
theorem decodeChunks_text (chunks : List (List UInt8)) :
    ∃ rest events, decodeChunks TextCodec.decodeFeed .new chunks [] = (⟨rest⟩, .ok events) ∧
      Delimited.drain '\n' TextCodec.decodeLine [] (chunks.flatMap Utf8.lossy) [] =
        (rest, .ok events) := by
  obtain ⟨rest, events, hdrain⟩ := drain_decodeLine [] (chunks.flatMap Utf8.lossy) []
  rw [List.nil_append] at hdrain
  refine ⟨rest, events, ?_, hdrain⟩
  rw [List.flatMap_def] at hdrain
  have hfeed := (Delimited.feedAll_eq_drain '\n' TextCodec.decodeLine List.not_mem_nil
    (chunks.map Utf8.lossy) []).2 rest events hdrain
  rw [decodeChunks_text_eq_feedAll, TextCodec.new, hfeed]

/-- No chunk ends inside of a character of the stream. -/
def WholeCharacters (chunks : List (List UInt8)) : Prop :=
  ∀ chunk ∈ chunks, Utf8.IsUtf8 chunk

/-- Two cuts of a string into chunks give the same events and the same buffer, when
neither of them cuts a character. -/
theorem decodeChunks_cuts {s : Str} {first second : List (List UInt8)}
    (hfirst : first.flatten = Utf8.encode s) (hsecond : second.flatten = Utf8.encode s)
    (hwhole : WholeCharacters first) (hwhole' : WholeCharacters second) :
    decodeChunks TextCodec.decodeFeed .new first [] =
      decodeChunks TextCodec.decodeFeed .new second [] := by
  obtain ⟨rest, events, hdecode, hdrain⟩ := decodeChunks_text first
  obtain ⟨rest', events', hdecode', hdrain'⟩ := decodeChunks_text second
  rw [(Utf8.flatMap_lossy_iff hfirst).mpr hwhole] at hdrain
  rw [(Utf8.flatMap_lossy_iff hsecond).mpr hwhole', hdrain] at hdrain'
  injection hdrain' with hrest hevents
  injection hevents with hevents
  rw [hdecode, hdecode', hrest, hevents]

/-- A string without a line feed stays in the buffer as it is exactly when no
character is cut. -/
theorem decodeChunks_unfinished_iff {s : Str} (hfeed : '\n' ∉ s)
    {chunks : List (List UInt8)} (hcut : chunks.flatten = Utf8.encode s) :
    (decodeChunks TextCodec.decodeFeed .new chunks []).1 = ⟨s⟩ ↔ WholeCharacters chunks := by
  have hbyte : ∀ chunk ∈ chunks, 0x0A ∉ chunk := by
    intro chunk hchunk hmem
    have hstream : 0x0A ∈ Utf8.encode s := by
      rw [← hcut]
      exact List.mem_flatten.mpr ⟨chunk, hchunk, hmem⟩
    exact hfeed (Utf8.mem_encode_ascii hstream (by decide))
  have htext : '\n' ∉ chunks.flatMap Utf8.lossy := by
    intro hmem
    obtain ⟨chunk, hchunk, hchar⟩ := List.mem_flatMap.mp hmem
    have hfree : Utf8.asciiChar 0x0A ∉ Utf8.lossy chunk :=
      Utf8.not_mem_lossy_ascii (by decide) (hbyte chunk hchunk)
    exact hfree hchar
  obtain ⟨rest, events, hdecode, hdrain⟩ := decodeChunks_text chunks
  have hfree := Delimited.drain_free '\n' TextCodec.decodeLine htext [] [] []
  rw [List.append_nil, List.nil_append, hdrain, Delimited.drain_nil] at hfree
  injection hfree with hrest
  unfold WholeCharacters
  rw [hdecode, ← Utf8.flatMap_lossy_iff hcut, hrest]
  exact ⟨fun h => congrArg TextCodec.buf h, fun h => congrArg TextCodec.mk h⟩

/-- A line in two chunks, with `é` in the first one. -/
theorem decodeChunks_cuts_line :
    decodeChunks TextCodec.decodeFeed .new
        [Utf8.encode "PASS M.é".toList, Utf8.encode "\n".toList] [] =
      decodeChunks TextCodec.decodeFeed .new [Utf8.encode "PASS M.é\n".toList] [] := by
  refine @decodeChunks_cuts "PASS M.é\n".toList _ _ (by decide +kernel) (by decide +kernel)
    ?_ ?_
  · intro chunk hchunk
    rcases List.mem_pair.mp hchunk with rfl | rfl
    · exact ⟨_, rfl⟩
    · exact ⟨_, rfl⟩
  · intro chunk hchunk
    exact ⟨_, List.mem_singleton.mp hchunk⟩

/-- A chunk that ends between the two bytes of `é`. -/
theorem decodeChunks_torn :
    Utf8.encode "PASS M.é\n".toList =
        [0x50, 0x41, 0x53, 0x53, 0x20, 0x4D, 0x2E, 0xC3] ++ [0xA9, 0x0A] ∧
      (decodeChunks TextCodec.decodeFeed .new [Utf8.encode "PASS M.é\n".toList] []).2 =
        .ok [.caseEnd ['M'] ['é'] .passed] ∧
      (decodeChunks TextCodec.decodeFeed .new
          [[0x50, 0x41, 0x53, 0x53, 0x20, 0x4D, 0x2E, 0xC3], [0xA9, 0x0A]] []).2 =
        .ok [.caseEnd ['M'] ['\uFFFD', '\uFFFD'] .passed] := by
  decide +kernel

end PolyOnTest.Builtins
