import PolyOnTest.Builtins.JoinedLines
import PolyOnTest.Run.Assertions

/-!
# The name of a case on the host

The messages of an executed case carry its name, and each of them cuts the name at
a place of its own: behind 180 bytes in the line of the start, behind 250 bytes in
the line of the end, and in the binary output wherever the payload is full.  The
host pairs the events of a case by the name that it reads.

`keepsIdentity_iff` says when the names agree: exactly when no buffer cuts them.  In
the text output the shortest line decides.  In the binary output the leaf is cut in
the same way for all messages, and a payload that does not fit is not read at all.
-/

namespace PolyOnTest.Run

open CodeLib CodeLib.CMemory PolyOnTest.Builtins PolyOnTest.Harness PolyOnTest.Wire

variable {ω : Type}

/-- `suite.group.name`, without a limit. -/
def idBytes (id : CaseId) : List UInt8 := lineText (caseIdFrags id)

/-- The event is the one of the message, about the case with these names. -/
def Tells (suite name : Str) : Msg → Event → Prop
  | .caseStart _, .caseStart suite' name' => suite' = suite ∧ name' = name
  | .assertFail .., .assertFail suite' name' _ _ _ => suite' = suite ∧ name' = name
  | .caseEnd _ status, .caseEnd suite' name' status' =>
      suite' = suite ∧ name' = name ∧ status' = status
  | _, _ => False

/-- The host reads the messages one by one, and all events that they stand for are
about one case.  What else is in a message may be read as further events. -/
def KeepsIdentity (mode : Mode) (ms : List Msg) : Prop :=
  ∃ suite name parts,
    List.Forall₂ (fun m part => hostDecode mode (emit mode m).flatten = .ok part ∧
      (m.isNote = false → ∃ e more, part = e :: more ∧ Tells suite name m e)) ms parts ∧
    hostDecode mode (ms.flatMap fun m => (emit mode m).flatten) = .ok parts.flatten

/-- The messages of the failing assertions. -/
def failMessages (ms : List Msg) : List CStr :=
  ms.filterMap fun
    | .assertFail _ _ _ message => some message
    | _ => none

/-- The room that a message about a case takes, with `c` for its third string. -/
def caseSize (id : CaseId) (c : Option CStr) : Nat :=
  4 + 3 + 12 + (min 255 (bytesOf id.suite).length + min 127 id.leafBytes.length +
    min 255 (bytesOf c).length)

/-- No buffer is too small for the names.  The first message of the binary case is
that of the start and the end. -/
def Roomy (mode : Mode) (id : CaseId) (fails : List CStr) : Prop :=
  match mode with
  | .text => (idBytes id).length ≤ 180
  | .binary => ∀ c ∈ none :: fails.map some, caseSize id c ≤ 384

/-! ## One message -/

/-- The host reads the event of a message first. -/
def Reads (mode : Mode) (suite name : Str) (m : Msg) : Prop :=
  ∃ e more, hostDecode mode (emit mode m).flatten = .ok (e :: more) ∧ Tells suite name m e

theorem hostDecode_text_ok (data : List UInt8) : ∃ es, hostDecode .text data = .ok es := by
  obtain ⟨rest, more, hdrain⟩ := drain_decodeLine [] (Utf8.lossy data) []
  refine ⟨more, ?_⟩
  simp only [hostDecode, TextCodec.decodeFeed, TextCodec.new, List.nil_append] at hdrain ⊢
  rw [hdrain]

theorem hostDecode_note (mode : Mode) {m : Msg} (h : m.isNote = true) :
    ∃ es, hostDecode mode (emit mode m).flatten = .ok es := by
  cases mode with
  | text => exact hostDecode_text_ok _
  | binary =>
    cases m with
    | banner => exact ⟨[], rfl⟩
    | ignored id message => exact ⟨[], rfl⟩
    | _ => cases h

theorem exists_forall₂ {α β : Type} {R : α → β → Prop} {xs : List α}
    (h : ∀ x ∈ xs, ∃ y, R x y) : ∃ ys, List.Forall₂ R xs ys := by
  induction xs with
  | nil => exact ⟨[], .nil⟩
  | cons x xs ih =>
      obtain ⟨y, hy⟩ := h x (by simp)
      obtain ⟨ys, hys⟩ := ih fun x' hx' => h x' (by simp [hx'])
      exact ⟨y :: ys, .cons hy hys⟩

/-- One name for all messages, from one message to the next. -/
theorem keepsIdentity_iff_reads (mode : Mode) (ms : List Msg) :
    KeepsIdentity mode ms ↔
      ∃ suite name, ∀ m ∈ ms, m.isNote = false → Reads mode suite name m := by
  constructor
  · intro h
    obtain ⟨suite, name, parts, hparts, -⟩ := h
    refine ⟨suite, name, ?_⟩
    induction hparts with
    | nil => exact fun _ hm => absurd hm List.not_mem_nil
    | cons hm _ ih =>
        intro m' hm' hnote
        rcases List.mem_cons.mp hm' with heq | hm'
        · subst heq
          obtain ⟨e, more, hpart, htells⟩ := hm.2 hnote
          exact ⟨e, more, hpart ▸ hm.1, htells⟩
        · exact ih m' hm' hnote
  · intro h
    obtain ⟨suite, name, hreads⟩ := h
    have hpart : ∀ m ∈ ms, ∃ part, hostDecode mode (emit mode m).flatten = .ok part ∧
        (m.isNote = false → ∃ e more, part = e :: more ∧ Tells suite name m e) := by
      intro m hm
      cases hnote : m.isNote with
      | true =>
        obtain ⟨part, hpart⟩ := hostDecode_note mode hnote
        exact ⟨part, hpart, fun hfalse => absurd hfalse (by simp)⟩
      | false =>
        obtain ⟨e, more, hpart, htells⟩ := hreads m hm hnote
        exact ⟨e :: more, hpart, fun _ => ⟨e, more, rfl, htells⟩⟩
    obtain ⟨parts, hparts⟩ := exists_forall₂ hpart
    exact ⟨suite, name, parts, hparts, hostDecode_messages (hparts.imp fun _ _ h => h.1)⟩

/-! ## The text output -/

/-- The name of a case in a line that has room for it. -/
def hostId (id : CaseId) : Str := nameText id.suite ++ '.' :: leafText id

theorem solid_hostId {id : CaseId} (h : PlainId id) : Text.Solid (hostId id) := by
  have hdot : Text.Solid ['.'] := by decide
  exact Text.solid_append (isStem_nameText h.suite).solid
    (Text.solid_append hdot (solid_leafText h))

theorem plain_idBytes {id : CaseId} (h : PlainId id) {b : UInt8} (hb : b ∈ idBytes id) :
    messageByte b = true := messageByte_line (plain_caseId h) hb

/-- The name is cut on the host where it is cut in the buffer. -/
theorem lossy_take_idBytes {id : CaseId} (h : PlainId id) (k : Nat) :
    Utf8.lossy ((idBytes id).take k) = (hostId id).take k := by
  have hascii : Utf8.IsAscii (idBytes id) := fun b hb =>
    messageByte_ascii (plain_idBytes h hb)
  have htake : Utf8.IsAscii ((idBytes id).take k) := fun b hb =>
    hascii b (List.mem_of_mem_take hb)
  have hall : Utf8.lossy (idBytes id) = hostId id :=
    (lossy_line (plain_caseId h)).trans (hostLine_caseId h)
  rw [Utf8.lossy_ascii htake, List.map_take, ← Utf8.lossy_ascii hascii, hall]

theorem hostId_length {id : CaseId} (h : PlainId id) :
    (hostId id).length = (idBytes id).length := by
  have hascii : Utf8.IsAscii (idBytes id) := fun b hb =>
    messageByte_ascii (plain_idBytes h hb)
  have hall : Utf8.lossy (idBytes id) = hostId id :=
    (lossy_line (plain_caseId h)).trans (hostLine_caseId h)
  rw [← hall, Utf8.lossy_ascii hascii, List.length_map]

/-- Bytes without a line feed are read as one line. -/
theorem hostDecode_line {bytes : List UInt8} (h : 0x0A ∉ bytes) :
    hostDecode .text (bytes ++ [0x0A]) = .ok (readText (Utf8.lossy bytes)) := by
  have hfree : '\n' ∉ Utf8.lossy bytes :=
    Utf8.not_mem_lossy_ascii (b := 0x0A) (by decide) h
  have hdata : Utf8.lossy (bytes ++ [0x0A]) = Utf8.lossy bytes ++ ['\n'] :=
    Utf8.lossy_append_ascii _ [] (by decide)
  obtain ⟨more, hmore, hnone⟩ := decodeFeed_split hfree hdata
  rw [hnone rfl, List.append_nil] at hmore
  exact hmore

theorem flatten_emitText (m : Msg) : (emit .text m).flatten = m.line.bytes ++ [0x0A] := by
  simp [emit, emitText, emitLine]

/-- A line that is a word of the harness and a part of the name. -/
theorem hostDecode_word {m : Msg} {id : CaseId} (h : PlainId id) (word : String) {k : Nat}
    (hword : '\x00' ∉ word.toList) (hplain : ∀ b ∈ (CStr.lit word).bytes, messageByte b)
    (hline : m.line.bytes = (CStr.lit word).bytes ++ (idBytes id).take k) :
    hostDecode .text (emit .text m).flatten =
      .ok (parseTextLine (word.toList ++ (hostId id).take k)).toList := by
  have hbytes : ∀ b ∈ m.line.bytes, messageByte b = true := by
    intro b hb
    rw [hline, List.mem_append] at hb
    rcases hb with hb | hb
    · exact hplain b hb
    · exact plain_idBytes h (List.mem_of_mem_take hb)
  have hfeed : 0x0A ∉ m.line.bytes := fun hb => absurd (hbytes _ hb) (by decide)
  have hreturn : '\r' ∉ Utf8.lossy m.line.bytes :=
    Utf8.not_mem_lossy_ascii (b := 0x0D) (by decide) fun hb =>
      absurd (hbytes _ hb) (by decide)
  have htext : Utf8.lossy m.line.bytes = word.toList ++ (hostId id).take k := by
    have hascii : Utf8.IsAscii (CStr.lit word).bytes := fun b hb =>
      messageByte_ascii (hplain b hb)
    rw [hline, Utf8.lossy_ascii_append hascii, ← Utf8.lossy_ascii hascii,
      lossy_take_idBytes h]
    exact congrArg (· ++ _) (lossy_lit hword)
  have htrim : Text.trimEnd (· = '\r') (Utf8.lossy m.line.bytes) =
      Utf8.lossy m.line.bytes := Text.trimEnd_of_not fun c hc =>
    decide_eq_false fun heq => hreturn (heq ▸ hc)
  rw [flatten_emitText, hostDecode_line hfeed, readText, htrim, htext]

theorem caseStart_bytes (id : CaseId) :
    (Msg.caseStart id).line.bytes =
      (CStr.lit "CASE_START ").bytes ++ (idBytes id).take 180 := by
  have hword : (CStr.lit "CASE_START ").bytes.length = 11 := by decide
  have hbuild : (Msg.caseStart id).line.bytes =
      ((CStr.lit "CASE_START ").bytes ++ idBytes id).take 191 :=
    (build_cstr (show 0 < 192 by decide) _ _).1
  rw [hbuild, List.take_append, hword, List.take_of_length_le (by omega)]

theorem caseEnd_bytes (id : CaseId) (status : TestStatus) :
    (Msg.caseEnd id status).line.bytes =
      (CStr.lit (statusWord status ++ " ")).bytes ++ (idBytes id).take 250 := by
  have hword : (CStr.lit (statusWord status ++ " ")).bytes.length = 5 := by
    cases status <;> decide
  have hsplit : (CStr.lit (statusWord status ++ " ")).bytes =
      (CStr.lit (statusWord status)).bytes ++ (CStr.lit " ").bytes := by
    cases status <;> decide
  have hbuild : (Msg.caseEnd id status).line.bytes =
      ((CStr.lit (statusWord status)).bytes ++ ((CStr.lit " ").bytes ++ idBytes id)).take
        255 := (build_cstr (show 0 < 256 by decide) _ _).1
  rw [hbuild, ← List.append_assoc, ← hsplit, List.take_append, hword,
    List.take_of_length_le (by omega)]

/-- The event of a line is the event of the message. -/
theorem reads_iff_of_line {mode : Mode} {suite name : Str} {m : Msg} {x : Option Event}
    (h : hostDecode mode (emit mode m).flatten = .ok x.toList) :
    Reads mode suite name m ↔ ∃ e, x = some e ∧ Tells suite name m e := by
  unfold Reads
  rw [h]
  cases x with
  | none => simp
  | some e =>
    constructor
    · intro hreads
      obtain ⟨e', more, hok, htells⟩ := hreads
      injection hok with hok
      injection hok with he
      exact ⟨e', by rw [he], htells⟩
    · intro htells
      obtain ⟨e', he, htells⟩ := htells
      injection he with he
      exact ⟨e, [], rfl, he ▸ htells⟩

/-- The start of a case is read when 180 bytes of the name have a dot. -/
theorem reads_caseStart {id : CaseId} (h : PlainId id) (suite name : Str) :
    Reads .text suite name (.caseStart id) ↔
      splitSuiteCase ((hostId id).take 180) = some (suite, name) := by
  have hread := hostDecode_word (m := .caseStart id) h "CASE_START " (by simp)
    (List.all_eq_true.mp (by decide)) (caseStart_bytes id)
  rw [parseTextLine_caseStart] at hread
  rw [reads_iff_of_line hread]
  cases splitSuiteCase ((hostId id).take 180) <;> simp [Tells, Prod.ext_iff]

/-- The end of a case is read when 250 bytes of the name have a dot. -/
theorem reads_caseEnd {id : CaseId} (h : PlainId id) (status : TestStatus)
    (suite name : Str) :
    Reads .text suite name (.caseEnd id status) ↔
      splitSuiteCase ((hostId id).take 250) = some (suite, name) := by
  have hspace : ' ' ∉ (hostId id).take 250 := fun hmem =>
    space_not_mem (solid_hostId h) (List.mem_of_mem_take hmem)
  have hword : (statusWord status ++ " ").toList = (statusWord status).toList ++ [' '] := by
    cases status <;> rfl
  have hread := hostDecode_word (m := .caseEnd id status) h
    (statusWord status ++ " ") (by cases status <;> decide)
    (List.all_eq_true.mp (by cases status <;> decide)) (caseEnd_bytes id status)
  rw [hword, List.append_assoc, List.singleton_append, parseTextLine_status status hspace]
    at hread
  rw [reads_iff_of_line hread]
  cases splitSuiteCase ((hostId id).take 250) <;> simp [Tells, Prod.ext_iff]

/-- Whatever stands behind the name, a failing assertion is read as one. -/
theorem reads_failAt {id : CaseId} (h : PlainId id)
    (hfront : (lineText (failFront id)).length ≤ 319) (file : Option CStr) (line : Int32)
    (message : CStr) :
    Reads .text (nameText id.suite) (leafText id) (.assertFail id file line message) := by
  have hsuite := isStem_nameText h.suite
  have hleaf := solid_leafText h
  have hbytes := failAt_bytes file line message hfront
  generalize (placeBytes file line ++ 0x20 :: message.bytes).take
    (319 - (lineText (failFront id)).length) = back at hbytes
  have hfeed : '\n' ∈ Utf8.lossy (back ++ [0x0A]) := by
    have hend : Utf8.lossy (back ++ [0x0A]) = Utf8.lossy back ++ ['\n'] :=
      Utf8.lossy_append_ascii back [] (by decide)
    rw [hend]
    simp
  obtain ⟨text, rest, htext, hfree⟩ := List.eq_append_cons_of_mem hfeed
  have hdata : Utf8.lossy (emit .text (.assertFail id file line message)).flatten =
      ("FAIL ".toList ++ (nameText id.suite ++ '.' :: leafText id) ++ ' ' :: text) ++
        '\n' :: rest := by
    have hflat : (emit .text (.assertFail id file line message)).flatten =
        lineText (failFront id) ++ (back ++ [0x0A]) := by
      rw [← List.append_assoc, ← hbytes, flatten_emitText]
    rw [hflat, lossy_failFront h, htext]
    simp only [List.append_assoc, List.cons_append]
  have hline : '\n' ∉ "FAIL ".toList ++ (nameText id.suite ++ '.' :: leafText id) ++
      ' ' :: text := by
    rw [List.mem_append, List.mem_cons, not_or, not_or]
    exact ⟨feed_not_mem_id hsuite hleaf, by decide, hfree⟩
  obtain ⟨more, hmore, -⟩ := decodeFeed_split hline hdata
  by_cases hspace : ' ' ∈ text
  · obtain ⟨place, words, hwords, hplace⟩ := List.eq_append_cons_of_mem hspace
    rw [hwords, parseTextLine_trimMessage hsuite hleaf hplace] at hmore
    exact ⟨_, more, hmore, rfl, rfl⟩
  · rw [parseTextLine_trimPlace hsuite hleaf hspace] at hmore
    exact ⟨_, more, hmore, rfl, rfl⟩

theorem failFront_length (id : CaseId) :
    (lineText (failFront id)).length = (idBytes id).length + 6 := by
  have hkey : (litFrag "FAIL ").text.length = 5 := by decide
  have hspace : (lineText [litFrag " "]).length = 1 := by decide
  have hsplit : lineText (failFront id) =
      (litFrag "FAIL ").text ++ (idBytes id ++ lineText [litFrag " "]) := by
    rw [idBytes, ← lineText_append]
    rfl
  rw [hsplit, List.length_append, List.length_append, hkey, hspace]
  omega

/-- The two cuts of a name differ behind 180 bytes. -/
theorem reads_text_iff {id : CaseId} (h : PlainId id) {inner : List Msg}
    (hinner : ∀ m ∈ inner, FromCase id m) (status : TestStatus) :
    (∃ suite name, ∀ m ∈ .caseStart id :: inner ++ [.caseEnd id status],
        m.isNote = false → Reads .text suite name m) ↔ (idBytes id).length ≤ 180 := by
  have hlength := hostId_length h
  constructor
  · intro hone
    obtain ⟨suite, name, hreads⟩ := hone
    have hstart := (reads_caseStart h suite name).mp (hreads _ (by simp) rfl)
    have hend := (reads_caseEnd h status suite name).mp (hreads _ (by simp) rfl)
    have hsame := (Text.splitOnce_eq_some hstart).trans (Text.splitOnce_eq_some hend).symm
    have hlen := congrArg List.length hsame
    rw [List.length_take, List.length_take] at hlen
    omega
  · intro hroom
    have hwhole : ∀ k, 180 ≤ k → splitSuiteCase ((hostId id).take k) =
        some (nameText id.suite, leafText id) := by
      intro k hk
      rw [List.take_of_length_le (by omega)]
      exact splitSuiteCase_name (isStem_nameText h.suite) (leafText id)
    refine ⟨nameText id.suite, leafText id, fun m hm hnote => ?_⟩
    rw [List.cons_append, List.mem_cons, List.mem_append, List.mem_singleton] at hm
    rcases hm with heq | hm | heq
    · rw [heq, reads_caseStart h]
      exact hwhole 180 (by omega)
    · have hfrom := hinner m hm
      cases m with
      | assertFail id' file line message =>
        rw [show id' = id from hfrom]
        apply reads_failAt h
        rw [failFront_length]
        omega
      | ignored id' message => cases hnote
      | _ => exact hfrom.elim
    · rw [heq, reads_caseEnd h]
      exact hwhole 250 (by omega)

/-! ## The binary output -/

/-- The event of a message that fits. -/
theorem hostDecode_emitMsg (type : MsgType) (a b c : Option CStr) (u0 u1 u2 : UInt32)
    (hfit : 4 + 3 + 12 + (min 255 (bytesOf a).length + min 255 (bytesOf b).length +
      min 255 (bytesOf c).length) ≤ 384) :
    hostDecode .binary (emitMsg type a b c u0 u1 u2).flatten =
      .ok [eventOf type (Utf8.lossy ((bytesOf a).take 255))
        (Utf8.lossy ((bytesOf b).take 255)) (Utf8.lossy ((bytesOf c).take 255)) u0 u1 u2] := by
  unfold hostDecode
  dsimp only
  rw [emitMsg_fits type a b c u0 u1 u2 hfit, List.flatten_singleton, Slots.frame,
    decodeFeed_frame, decodePayload_layout, Slots.event]
  rfl

/-- The leaf of a case in a payload. -/
theorem leaf_take (id : CaseId) :
    min 255 (bytesOf (some (formatCaseLeaf id.group id.name))).length =
        min 127 id.leafBytes.length ∧
      (bytesOf (some (formatCaseLeaf id.group id.name))).take 255 = id.leafBytes.take 127 := by
  have hleaf : bytesOf (some (formatCaseLeaf id.group id.name)) = id.leafBytes.take 127 :=
    formatCaseLeaf_take id
  rw [hleaf, List.length_take, List.take_take]
  exact ⟨by omega, rfl⟩

/-- The event of a message about a case, when it fits. -/
theorem hostDecode_caseMsg (type : MsgType) (id : CaseId) (c : Option CStr)
    (u0 u1 u2 : UInt32) (hfit : caseSize id c ≤ 384) :
    hostDecode .binary (emitMsg type id.suite (some (formatCaseLeaf id.group id.name)) c
        u0 u1 u2).flatten =
      .ok [eventOf type (Utf8.lossy ((bytesOf id.suite).take 255))
        (Utf8.lossy (id.leafBytes.take 127)) (Utf8.lossy ((bytesOf c).take 255))
          u0 u1 u2] := by
  obtain ⟨hlen, htake⟩ := leaf_take id
  rw [hostDecode_emitMsg, htake]
  rw [hlen]
  exact hfit

theorem statusOf_ptStatus (status : TestStatus) : statusOf (ptStatus status) = status := by
  cases status <;> rfl

/-- A message about a case is read exactly when its payload fits, and then the names
are cut to their string fields. -/
theorem reads_emitMsg {m : Msg} {type : MsgType} {id : CaseId} {c : Option CStr}
    {u0 u1 u2 : UInt32} {suite name : Str}
    (hemit : emit .binary m =
      emitMsg type id.suite (some (formatCaseLeaf id.group id.name)) c u0 u1 u2)
    (htells : ∀ a b text, Tells suite name m (eventOf type a b text u0 u1 u2) ↔
      a = suite ∧ b = name) :
    Reads .binary suite name m ↔
      caseSize id c ≤ 384 ∧ Utf8.lossy ((bytesOf id.suite).take 255) = suite ∧
        Utf8.lossy (id.leafBytes.take 127) = name := by
  unfold Reads
  rw [hemit]
  by_cases hroom : caseSize id c ≤ 384
  · rw [hostDecode_caseMsg type id c u0 u1 u2 hroom]
    constructor
    · intro hreads
      obtain ⟨e, more, hok, he⟩ := hreads
      injection hok with hok
      injection hok with hevent
      rw [← hevent] at he
      exact ⟨hroom, (htells _ _ _).mp he⟩
    · intro hnames
      exact ⟨_, [], rfl, (htells _ _ _).mpr hnames.2⟩
  · constructor
    · intro hreads
      obtain ⟨e, more, hok, -⟩ := hreads
      refine absurd hok (decodeFeed_emitMsg_large u0 u1 u2 ?_ e more)
      rw [(leaf_take id).1]
      have hlarge := Nat.lt_of_not_le hroom
      unfold caseSize at hlarge
      exact hlarge
    · exact fun hnames => absurd hnames.1 hroom

theorem reads_binary_caseStart (id : CaseId) (suite name : Str) :
    Reads .binary suite name (.caseStart id) ↔
      caseSize id none ≤ 384 ∧ Utf8.lossy ((bytesOf id.suite).take 255) = suite ∧
        Utf8.lossy (id.leafBytes.take 127) = name :=
  reads_emitMsg (emit_caseStart id) fun _ _ _ => Iff.rfl

theorem reads_binary_caseEnd (id : CaseId) (status : TestStatus) (suite name : Str) :
    Reads .binary suite name (.caseEnd id status) ↔
      caseSize id none ≤ 384 ∧ Utf8.lossy ((bytesOf id.suite).take 255) = suite ∧
        Utf8.lossy (id.leafBytes.take 127) = name := by
  refine reads_emitMsg (emit_caseEnd id status) fun a b text => ?_
  show a = suite ∧ b = name ∧ statusOf (ptStatus status) = status ↔ _
  simp [statusOf_ptStatus]

theorem reads_binary_failAt (id : CaseId) (file : Option CStr) (line : Int32)
    (message : CStr) (suite name : Str) :
    Reads .binary suite name (.assertFail id file line message) ↔
      caseSize id (some message) ≤ 384 ∧
        Utf8.lossy ((bytesOf id.suite).take 255) = suite ∧
        Utf8.lossy (id.leafBytes.take 127) = name :=
  reads_emitMsg (emit_assertFail id file line message) fun _ _ _ => Iff.rfl

theorem mem_failMessages {ms : List Msg} {message : CStr} :
    message ∈ failMessages ms ↔
      ∃ id file line, Msg.assertFail id file line message ∈ ms := by
  unfold failMessages
  rw [List.mem_filterMap]
  constructor
  · intro hmem
    obtain ⟨m, hm, hsome⟩ := hmem
    cases m with
    | assertFail id file line message' =>
      injection hsome with heq
      exact ⟨id, file, line, heq ▸ hm⟩
    | _ => cases hsome
  · intro hmem
    obtain ⟨id, file, line, hm⟩ := hmem
    exact ⟨_, hm, rfl⟩

/-- All messages of a case have the same names, and each of them has to fit. -/
theorem reads_binary_iff {id : CaseId} {inner : List Msg}
    (hinner : ∀ m ∈ inner, FromCase id m) (status : TestStatus) :
    (∃ suite name, ∀ m ∈ .caseStart id :: inner ++ [.caseEnd id status],
        m.isNote = false → Reads .binary suite name m) ↔
      ∀ c ∈ none :: (failMessages inner).map some, caseSize id c ≤ 384 := by
  constructor
  · intro hone c hc
    obtain ⟨suite, name, hreads⟩ := hone
    rcases List.mem_cons.mp hc with heq | hc
    · rw [heq]
      exact ((reads_binary_caseStart id suite name).mp (hreads _ (by simp) rfl)).1
    · obtain ⟨message, hmessage, heq⟩ := List.mem_map.mp hc
      obtain ⟨id', file, line, hm⟩ := mem_failMessages.mp hmessage
      have hid : id' = id := hinner _ hm
      rw [hid] at hm
      rw [← heq]
      exact ((reads_binary_failAt id file line message suite name).mp
        (hreads _ (by simp [hm]) rfl)).1
  · intro hroom
    refine ⟨Utf8.lossy ((bytesOf id.suite).take 255), Utf8.lossy (id.leafBytes.take 127),
      fun m hm hnote => ?_⟩
    rw [List.cons_append, List.mem_cons, List.mem_append, List.mem_singleton] at hm
    rcases hm with heq | hm | heq
    · rw [heq, reads_binary_caseStart]
      exact ⟨hroom none (by simp), rfl, rfl⟩
    · have hfrom := hinner m hm
      cases m with
      | assertFail id' file line message =>
        rw [show id' = id from hfrom, reads_binary_failAt]
        have hmem := mem_failMessages.mpr ⟨id', file, line, hm⟩
        exact ⟨hroom (some message) (by simp [hmem]), rfl, rfl⟩
      | ignored id' message => cases hnote
      | _ => exact hfrom.elim
    · rw [heq, reads_binary_caseEnd]
      exact ⟨hroom none (by simp), rfl, rfl⟩

/-! ## An executed case -/

/-- Nothing is asked of the globals. -/
theorem any_invariant (p : Program ω) : Invariant p fun _ => True :=
  ⟨fun _ _ _ _ _ _ => trivial, fun _ _ _ => trivial, fun _ _ _ _ _ => trivial⟩

/-- Test code between the brackets of a case speaks of this case. -/
theorem runBody_messages (p : Program ω) (t : Case) (s : Sys ω) :
    ∃ window, Grew (fun _ => True) s (runBody p t s) window ∧
      ∀ m ∈ messages window, FromCase s.g.cur m := by
  have hany := any_invariant p
  obtain ⟨setup, hsetup, hgrew1⟩ := enter_grew hany .groupSetup
    ((findGroup s.g.env.reg t.suite t.group).bind Group.setup) (s := s) trivial
  obtain ⟨body, hbody, hgrew2⟩ := enter_grew hany .body t.fn hgrew1.inv
  obtain ⟨teardown, hteardown, hgrew3⟩ := enter_grew hany .groupTeardown
    ((findGroup s.g.env.reg t.suite t.group).bind Group.teardown) hgrew2.inv
  rw [hgrew1.cur] at hbody
  rw [hgrew2.cur, hgrew1.cur] at hteardown
  refine ⟨setup ++ body ++ teardown, (hgrew1.trans hgrew2).trans hgrew3, fun m hm => ?_⟩
  rw [messages_append, messages_append, List.mem_append, List.mem_append] at hm
  rcases hm with (hm | hm) | hm
  · exact hsetup.fromCase hm
  · exact hbody.fromCase hm
  · exact hteardown.fromCase hm

/-- The messages of a case: its start, those of the test code, and its end. -/
theorem runCase_messages (p : Program ω) (t : Case) (x : Sys ω × Open) :
    ∃ new inner status, (runCase p t x).1.trace = x.1.trace ++ new ∧
      messages new = .caseStart t.id :: inner ++ [.caseEnd t.id status] ∧
      ∀ m ∈ inner, FromCase t.id m := by
  obtain ⟨window, hgrew, hfrom⟩ :=
    runBody_messages p t ((x.1.begin t).say (.caseStart t.id))
  have hcount : ∀ (s : Sys ω) status, (s.count status).trace = s.trace := fun _ status => by
    cases status <;> rfl
  unfold runCase
  dsimp only
  generalize runBody p t ((x.1.begin t).say (.caseStart t.id)) = s at hgrew
  refine ⟨.take t :: .msg (.caseStart t.id) ::
      (window ++ [.msg (.caseEnd t.id s.status)]), messages window, s.status, ?_, ?_, hfrom⟩
  · show (s.count s.status).trace ++ _ = _
    rw [hcount, hgrew.trace]
    simp [Sys.say, Sys.begin]
  · show Msg.caseStart t.id :: messages (window ++ _) = _
    rw [messages_append]
    rfl

/-- The events of an executed case carry one name exactly when no buffer cuts it. -/
theorem keepsIdentity_iff (p : Program ω) {t : Case} (ht : PlainId t.id) (mode : Mode)
    (x : Sys ω × Open) :
    ∃ new inner status, (runCase p t x).1.trace = x.1.trace ++ new ∧
      messages new = .caseStart t.id :: inner ++ [.caseEnd t.id status] ∧
      (∀ m ∈ inner, FromCase t.id m) ∧
      (KeepsIdentity mode (messages new) ↔ Roomy mode t.id (failMessages inner)) := by
  obtain ⟨new, inner, status, htrace, hmessages, hinner⟩ := runCase_messages p t x
  refine ⟨new, inner, status, htrace, hmessages, hinner, ?_⟩
  rw [hmessages, keepsIdentity_iff_reads]
  cases mode with
  | text => exact reads_text_iff ht hinner status
  | binary => exact reads_binary_iff hinner status

/-- A case that fails in a path with a space. -/
theorem keepsIdentity_iff_math :
    ∃ new inner status,
      (runCase (bodyCalls [.failAt (some (CStr.lit "a b.c")) 7 none]) mathCase
          (mathSys, ⟨none, 0, 0, 0⟩)).1.trace = mathSys.trace ++ new ∧
        messages new = .caseStart mathCase.id :: inner ++ [.caseEnd mathCase.id status] ∧
        (∀ m ∈ inner, FromCase mathCase.id m) ∧
        (KeepsIdentity .text (messages new) ↔
          Roomy .text mathCase.id (failMessages inner)) :=
  keepsIdentity_iff _ plain_mathCase .text _

/-- A case whose name has 200 letters. -/
def longCase : Case := { mathCase with name := some (repeated 200 0x61) }

/-- The same case in a suite whose name has 250 letters. -/
def wideCase : Case := { longCase with suite := some (repeated 250 0x61) }

/-- In the text output the long case ends under another name than it starts.  In the
binary output the names of the wide case leave no room for the numbers, and nothing is
sent. -/
theorem longCase_names :
    (∀ b ∈ bytesOf longCase.id.name, nameByte b = true) ∧
      hostDecode .text (output .text
          (runCase (bodyCalls []) longCase (mathSys, ⟨none, 0, 0, 0⟩)).1.trace) =
        .ok [.caseStart "Math".toList ("ops.".toList ++ List.replicate 171 'a'),
          .caseEnd "Math".toList ("ops.".toList ++ List.replicate 200 'a') .passed] ∧
      hostDecode .binary (output .binary
          (runCase (bodyCalls []) wideCase (mathSys, ⟨none, 0, 0, 0⟩)).1.trace) =
        .ok [] := by
  refine ⟨List.all_eq_true.mp (by decide +kernel), ?_, ?_⟩
  · decide +kernel
  · decide +kernel

end PolyOnTest.Run
