import PolyOnTest.Builtins.TextCodec
import PolyOnTest.CodeLib.Resync
import PolyOnTest.Harness.Runner
import PolyOnTest.Wire.Agreement

/-!
# The events of the harness messages

What a message of the harness stands for on the host.  `Msg.event` has no limit
on lengths; it is what both outputs carry when nothing is cut.

The binary output of a trace decodes to the events of its messages
(`decodeFeed_binary`), and the text output to the events that its lines parse to
(`decodeFeed_text`), as long as no line has a line feed inside.
-/

namespace PolyOnTest.Wire

open CodeLib CodeLib.CMemory PolyOnTest.Builtins PolyOnTest.Harness

/-! ## Messages and slots -/

/-- The slots that a message fills, without a limit on the leaf. -/
def msgSlots : Msg → Option Slots
  | .banner => none
  | .suiteStart name => some ⟨.suiteStart, bytesOf name, [], [], 0, 0, 0⟩
  | .caseStart id => some ⟨.caseStart, bytesOf id.suite, id.leafBytes, [], 0, 0, 0⟩
  | .assertFail id _ line message =>
      some ⟨.assertFail, bytesOf id.suite, id.leafBytes, message.bytes,
        line.toUInt32, 0, 0⟩
  | .ignored .. => none
  | .caseEnd id status =>
      some ⟨.caseEnd, bytesOf id.suite, id.leafBytes, [], statusCode status, 0, 0⟩
  | .suiteEnd name passed failed skipped =>
      some ⟨.suiteEnd, bytesOf name, [], [], passed, failed, skipped⟩
  | .done passed failed skipped => some ⟨.done, [], [], [], passed, failed, skipped⟩

/-- The host's text of a name. -/
def nameText (name : Option CStr) : Str := Utf8.lossy (bytesOf name)

/-- The host's text of a leaf. -/
def leafText (id : CaseId) : Str := Utf8.lossy id.leafBytes

/-- The event of a message.  The note of `pot_ignore` and the banner have
none, and the file name stays on the target. -/
def msgEvent : Msg → Option Event
  | .banner => none
  | .suiteStart name => some (.suiteStart (nameText name))
  | .caseStart id => some (.caseStart (nameText id.suite) (leafText id))
  | .assertFail id _ line message =>
      some (.assertFail (nameText id.suite) (leafText id) [] line.toUInt32
        (Utf8.lossy message.bytes))
  | .ignored .. => none
  | .caseEnd id status => some (.caseEnd (nameText id.suite) (leafText id) status)
  | .suiteEnd name passed failed skipped =>
      some (.suiteEnd (nameText name) passed failed skipped)
  | .done passed failed skipped => some (.done passed failed skipped)

/-- No buffer on the way of a message is too small: neither the line buffer, nor
the 255 bytes of a string, nor the leaf buffer, nor the payload buffer. -/
structure Fits (m : Msg) : Prop where
  line : m ≠ .banner → (lineText m.frags).length < m.cap
  strings : ∀ x ∈ msgSlots m,
    x.a.length ≤ 255 ∧ x.b.length ≤ 255 ∧ x.c.length ≤ 255
  leaf : ∀ x ∈ msgSlots m, x.b.length ≤ 127
  payload : ∀ x ∈ msgSlots m, x.size ≤ 384

instance (m : Msg) : Decidable (Fits m) :=
  decidable_of_iff
    ((m ≠ .banner → (lineText m.frags).length < m.cap) ∧
      (∀ x ∈ msgSlots m, x.a.length ≤ 255 ∧ x.b.length ≤ 255 ∧ x.c.length ≤ 255) ∧
      (∀ x ∈ msgSlots m, x.b.length ≤ 127) ∧ ∀ x ∈ msgSlots m, x.size ≤ 384)
    ⟨fun h => ⟨h.1, h.2.1, h.2.2.1, h.2.2.2⟩,
      fun h => ⟨h.line, h.strings, h.leaf, h.payload⟩⟩

/-! ## The binary output -/

/-- The frame of a message about a case. -/
theorem emitMsg_case (type : MsgType) {id : CaseId} (hleaf : id.leafBytes.length ≤ 127)
    (c : Option CStr) (u0 u1 u2 : UInt32)
    (hsize : (Slots.mk type (bytesOf id.suite) id.leafBytes (bytesOf c) u0 u1 u2).size ≤
      384) :
    emitMsg type id.suite (some (formatCaseLeaf id.group id.name)) c u0 u1 u2 =
      [(Slots.mk type (bytesOf id.suite) id.leafBytes (bytesOf c) u0 u1 u2).frame] := by
  have hbytes : bytesOf (some (formatCaseLeaf id.group id.name)) = id.leafBytes :=
    formatCaseLeaf_bytes hleaf
  have hemit := emitMsg_fits type id.suite (some (formatCaseLeaf id.group id.name)) c
    u0 u1 u2
  rw [hbytes] at hemit
  exact hemit hsize

/-- The bytes of the frames of a message. -/
theorem emitBinary_eq {m : Msg} (h : Fits m) :
    (emitBinary m).flatten = (msgSlots m).toList.flatMap Slots.frame := by
  cases m with
  | banner => rfl
  | ignored id message => rfl
  | suiteStart name =>
    rw [emitBinary, emitSuiteStart, emitMsg_fits _ _ _ _ _ _ _ (h.payload _ rfl)]
    rfl
  | caseStart id =>
    rw [emitBinary, emitCaseStart,
      emitMsg_case .caseStart (h.leaf _ rfl) none 0 0 0 (h.payload _ rfl)]
    rfl
  | assertFail id file line message =>
    rw [emitBinary, emitAssertFail, emitMsg_case .assertFail (h.leaf _ rfl) (some message)
      line.toUInt32 0 0 (h.payload _ rfl)]
    rfl
  | caseEnd id status =>
    have hstatus : ptStatus status = statusCode status := by cases status <;> rfl
    rw [emitBinary, emitCaseEnd, hstatus, emitMsg_case .caseEnd (h.leaf _ rfl) none
      (statusCode status) 0 0 (h.payload _ rfl)]
    rfl
  | suiteEnd name passed failed skipped =>
    rw [emitBinary, emitSuiteEnd, emitMsg_fits _ _ _ _ _ _ _ (h.payload _ rfl)]
    rfl
  | done passed failed skipped =>
    rw [emitBinary, emitDone, emitMsg_fits _ _ _ _ _ _ _ (h.payload _ rfl)]
    rfl

/-- The slots of a message stand for its event. -/
theorem msgSlots_event {m : Msg} (h : Fits m) :
    (msgSlots m).map Slots.event = msgEvent m := by
  have htake : ∀ {bytes : List UInt8}, bytes.length ≤ 255 →
      Utf8.lossy (bytes.take 255) = Utf8.lossy bytes :=
    fun hlen => by rw [List.take_of_length_le hlen]
  have hstrings := h.strings
  cases m with
  | banner => rfl
  | ignored id message => rfl
  | done passed failed skipped => rfl
  | caseEnd id status =>
    obtain ⟨ha, hb, -⟩ := hstrings _ rfl
    simp [msgSlots, Slots.event, htake ha, htake hb, eventOf, msgEvent, nameText,
      leafText]
  | _ =>
    obtain ⟨ha, hb, hc⟩ := hstrings _ rfl
    simp [msgSlots, Slots.event, htake ha, htake hb, htake hc, eventOf, msgEvent,
      nameText, leafText]

/-- The output of a list of messages. -/
theorem output_eq (mode : Mode) (trace : List Step) :
    output mode trace = (messages trace).flatMap fun m => (emit mode m).flatten := by
  induction trace with
  | nil => rfl
  | cons step trace ih =>
      have hcons : output mode (step :: trace) =
          output mode [step] ++ output mode trace := by simp [output]
      rw [hcons, ih]
      cases step <;> simp [output, messages]

/-- The binary output is the frames of the messages. -/
theorem output_frames {trace : List Step} (h : ∀ m ∈ messages trace, Fits m) :
    output .binary trace = ((messages trace).filterMap msgSlots).flatMap Slots.frame := by
  rw [output_eq]
  generalize messages trace = ms at h
  induction ms with
  | nil => rfl
  | cons m ms ih =>
      have hm : (emit .binary m).flatten = (msgSlots m).toList.flatMap Slots.frame :=
        emitBinary_eq (h m (by simp))
      have hms := ih fun m' hm' => h m' (by simp [hm'])
      rw [List.flatMap_cons, hm, hms, List.filterMap_cons]
      cases msgSlots m <;> simp

theorem msgSlots_events {trace : List Step} (h : ∀ m ∈ messages trace, Fits m) :
    ((messages trace).filterMap msgSlots).map Slots.event =
      (messages trace).filterMap msgEvent := by
  rw [List.map_filterMap]
  exact List.filterMap_congr fun m hm => msgSlots_event (h m hm)

/-- A fresh binary codec reads the events of the messages from their output. -/
theorem decodeFeed_binary {trace : List Step} (h : ∀ m ∈ messages trace, Fits m) :
    (CobsCodec.decodeFeed .new (output .binary trace)).2 =
      .ok ((messages trace).filterMap msgEvent) := by
  unfold CobsCodec.decodeFeed CobsCodec.new
  dsimp only
  rw [List.nil_append, output_frames h, drain_frames, List.nil_append, msgSlots_events h]

/-! ## The text output -/

/-- The events of the line of a message. -/
def lineEvents (m : Msg) : List Event :=
  (parseTextLine (Text.trimEnd (· = '\r') (Utf8.lossy m.line.bytes))).toList

/-- A fresh text codec reads the lines of the messages one by one. -/
theorem decodeFeed_text {trace : List Step}
    (h : ∀ m ∈ messages trace, 0x0A ∉ m.line.bytes) :
    (TextCodec.decodeFeed .new (output .text trace)).2 =
      .ok ((messages trace).flatMap lineEvents) := by
  have hpass : ∀ (ms : List Msg) (out : List Event), (∀ m ∈ ms, 0x0A ∉ m.line.bytes) →
      Delimited.drain '\n' TextCodec.decodeLine []
        (Utf8.lossy (ms.flatMap fun m => (emit .text m).flatten)) out =
          ([], .ok (out ++ ms.flatMap lineEvents)) := by
    intro ms
    induction ms with
    | nil =>
        intro out _
        simp
    | cons m ms ih =>
        intro out hms
        have hfree : '\n' ∉ Utf8.lossy m.line.bytes :=
          Utf8.not_mem_lossy_ascii (b := 0x0A) (by decide) (hms m (by simp))
        have hsplit : Utf8.lossy ((m :: ms).flatMap fun m => (emit .text m).flatten) =
            Utf8.lossy m.line.bytes ++ '\n' ::
              Utf8.lossy (ms.flatMap fun m => (emit .text m).flatten) := by
          have hline : ((m :: ms).flatMap fun m => (emit .text m).flatten) =
              m.line.bytes ++ 0x0A :: ms.flatMap fun m => (emit .text m).flatten := by
            simp [emit, emitText, emitLine]
          rw [hline]
          exact Utf8.lossy_append_ascii _ _ (by decide)
        rw [hsplit, Delimited.drain_frame '\n' _ hfree]
        simp only [TextCodec.decodeLine]
        rw [ih _ fun m' hm' => hms m' (by simp [hm'])]
        simp [lineEvents]
  unfold TextCodec.decodeFeed TextCodec.new
  dsimp only
  rw [List.nil_append, output_eq, hpass _ [] h, List.nil_append]

/-! ## Both outputs -/

/-- What a fresh codec of the host reads from the bytes of a mode. -/
def hostDecode : Mode → List UInt8 → Except PluginError (List Event)
  | .text, data => (TextCodec.decodeFeed .new data).2
  | .binary, data => (CobsCodec.decodeFeed .new data).2

/-- The byte behind a line or a frame. -/
def delim : Mode → UInt8
  | .text => 0x0A
  | .binary => 0

/-- Whole lines or whole frames. -/
def Whole (mode : Mode) (data : List UInt8) : Prop :=
  data = [] ∨ ∃ front, data = front ++ [delim mode]

theorem hostDecode_nil (mode : Mode) : hostDecode mode [] = .ok [] := by
  cases mode <;> rfl

/-- Whole lines and whole frames are read by themselves. -/
theorem hostDecode_append {mode : Mode} {a : List UInt8} (h : Whole mode a)
    (b : List UInt8) :
    hostDecode mode (a ++ b) =
      (hostDecode mode a).bind fun es => (hostDecode mode b).map (es ++ ·) := by
  rcases h with hnil | ⟨front, hfront⟩
  · subst hnil
    rw [hostDecode_nil, List.nil_append]
    cases hostDecode mode b <;> rfl
  subst hfront
  cases mode with
  | text =>
    have hline : ∀ rest, Utf8.lossy (front ++ 0x0A :: rest) =
        Utf8.lossy front ++ '\n' :: Utf8.lossy rest := fun rest =>
      Utf8.lossy_append_ascii front rest (by decide)
    simp only [hostDecode, TextCodec.decodeFeed, TextCodec.new, delim, List.nil_append,
      List.append_assoc, List.cons_append]
    rw [hline, hline]
    exact Delimited.drain_closed _ _ _ _ _
  | binary =>
    simp only [hostDecode, CobsCodec.decodeFeed, CobsCodec.new, delim, List.nil_append,
      List.append_assoc, List.cons_append]
    exact Delimited.drain_closed _ _ _ _ _

/-- Pieces that are read by themselves, one behind the other. -/
theorem hostDecode_cons {mode : Mode} {a : List UInt8} (h : Whole mode a) {b : List UInt8}
    {es es' : List Event} (ha : hostDecode mode a = .ok es)
    (hb : hostDecode mode b = .ok es') : hostDecode mode (a ++ b) = .ok (es ++ es') := by
  rw [hostDecode_append h, ha, hb]
  rfl

theorem whole_flatten {mode : Mode} {pieces : List (List UInt8)}
    (h : ∀ piece ∈ pieces, Whole mode piece) : Whole mode pieces.flatten := by
  induction pieces with
  | nil => exact Or.inl rfl
  | cons piece pieces ih =>
      rw [List.flatten_cons]
      rcases ih fun other hother => h other (by simp [hother]) with hnil | ⟨front, hfront⟩
      · rw [hnil, List.append_nil]
        exact h piece (by simp)
      · rw [hfront, ← List.append_assoc]
        exact Or.inr ⟨_, rfl⟩

theorem whole_emitMsg (type : MsgType) (a b c : Option CStr) (u0 u1 u2 : UInt32) :
    ∀ piece ∈ emitMsg type a b c u0 u1 u2, Whole .binary piece := by
  intro piece hpiece
  rw [emitMsg_eq] at hpiece
  split_ifs at hpiece
  · exact absurd hpiece List.not_mem_nil
  · rw [List.mem_singleton.mp hpiece]
    exact Or.inr ⟨_, rfl⟩

/-- Each call of the writer sends a whole frame. -/
theorem whole_emitBinary (m : Msg) : ∀ piece ∈ emit .binary m, Whole .binary piece := by
  cases m with
  | banner => exact fun _ h => absurd h List.not_mem_nil
  | ignored id message => exact fun _ h => absurd h List.not_mem_nil
  | suiteStart name =>
    rw [emit_suiteStart]
    apply whole_emitMsg
  | caseStart id =>
    rw [emit_caseStart]
    apply whole_emitMsg
  | assertFail id file line message =>
    rw [emit_assertFail]
    apply whole_emitMsg
  | caseEnd id status =>
    rw [emit_caseEnd]
    apply whole_emitMsg
  | suiteEnd name passed failed skipped =>
    rw [emit_suiteEnd]
    apply whole_emitMsg
  | done passed failed skipped =>
    rw [emit_done]
    apply whole_emitMsg

/-- Each message is whole lines or whole frames. -/
theorem whole_emit (mode : Mode) (m : Msg) : Whole mode (emit mode m).flatten := by
  cases mode with
  | text =>
    refine Or.inr ⟨m.line.bytes, ?_⟩
    simp [emit, emitText, emitLine, delim]
  | binary => exact whole_flatten (whole_emitBinary m)

/-- Whole pieces are read exactly when each of them is. -/
theorem hostDecode_flatten {mode : Mode} {pieces : List (List UInt8)}
    (h : ∀ piece ∈ pieces, Whole mode piece) (es : List Event) :
    hostDecode mode pieces.flatten = .ok es ↔
      (∀ piece ∈ pieces, (hostDecode mode piece).isOk = true) ∧
        pieces.flatMap (fun piece => Delimited.gives (hostDecode mode piece)) = es := by
  induction pieces generalizing es with
  | nil =>
      rw [List.flatten_nil, hostDecode_nil]
      simp
  | cons piece pieces ih =>
      have hrest := ih fun other hother => h other (by simp [hother])
      rw [List.flatten_cons, hostDecode_append (h piece (by simp)), List.forall_mem_cons,
        List.flatMap_cons]
      cases hpiece : hostDecode mode piece with
      | error e => simp [Except.bind, Except.isOk, Except.toBool]
      | ok es' =>
        constructor
        · intro hok
          cases hmore : hostDecode mode pieces.flatten with
          | error e =>
            rw [hmore] at hok
            cases hok
          | ok more =>
            rw [hmore] at hok
            injection hok with hes
            obtain ⟨hall, heq⟩ := (hrest more).mp hmore
            exact ⟨⟨rfl, hall⟩, by rw [heq]; exact hes⟩
        · intro hok
          obtain ⟨⟨-, hall⟩, heq⟩ := hok
          rw [(hrest _).mpr ⟨hall, rfl⟩]
          exact congrArg Except.ok heq

/-- Messages are read one by one. -/
theorem hostDecode_messages {mode : Mode} {ms : List Msg} {parts : List (List Event)}
    (h : List.Forall₂ (fun m part => hostDecode mode (emit mode m).flatten = .ok part)
      ms parts) :
    hostDecode mode (ms.flatMap fun m => (emit mode m).flatten) = .ok parts.flatten := by
  induction h with
  | nil => exact hostDecode_nil mode
  | cons hm _ ih => exact hostDecode_cons (whole_emit mode _) hm ih

end PolyOnTest.Wire
