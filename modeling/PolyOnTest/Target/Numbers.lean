import PolyOnTest.Run.Residue
import PolyOnTest.Run.Stretches
import PolyOnTest.Wire.Messages

/-!
# Numbers on the target

`append_u32` hands its number on as a `long`.  On the target a `long` has 32 bits, so a row
index or a counter from 2 ^ 31 on is printed as a negative number.  `Harness.Format` has the
`long` of 64 bits.

`said` replays the messages of a trace, with the texts that the calls have on the target.
Below 2 ^ 31 nothing changes: `targetOutput_eq`.
-/

namespace PolyOnTest.Target

open CodeLib CodeLib.CMemory PolyOnTest.Harness PolyOnTest.Run

variable {ω : Type}

/-! ## The functions with a number -/

/-- `append_u32`, where `long` has 32 bits. -/
def appendU32 (cap : Nat) (buf : Buffer) (pos : Nat) (v : UInt32) : Buffer × Nat :=
  appendI32 cap buf pos v.toInt32.toInt

/-- One call of an append function. -/
def appendFrag (cap : Nat) (dst : Buffer × Nat) : Frag → Buffer × Nat
  | .u32 v => Target.appendU32 cap dst.1 dst.2 v
  | f => f.append cap dst

/-- A local buffer of `cap` bytes and a chain of calls on it. -/
def build (cap : Nat) (frags : List Frag) : Buffer :=
  (frags.foldl (appendFrag cap) (Buffer.alloc cap, 0)).1

/-- `message_with_param` with the buffer of 192 bytes of `pot_fail_at`. -/
def messageWithParam (g : Globals) (message : Option CStr) : CStr :=
  let base := message.getD (CStr.lit "fail")
  if g.paramActive then
    (Target.build 192 [.str (some base), litFrag " [param=", .u32 g.paramIndex.toUInt32,
      litFrag "]"]).cstr
  else base

example : Target.messageWithParam ((Call.setParam 0xFFFFFFFF none).effect Globals.init) none =
    CStr.lit "fail [param=-1]" := by decide +kernel

/-- The messages of a call. -/
def callMsgs (g : Globals) : Call → List Msg
  | .failAt file line message =>
      [.assertFail g.cur file line (Target.messageWithParam g message)]
  | c => c.msgs g

/-- The line of a message. -/
def line : Msg → CStr
  | .banner => CStr.lit "=== POT ==="
  | m => (Target.build m.cap m.frags).cstr

/-- The calls of the writer for a message. -/
def emit : Mode → Msg → List (List UInt8)
  | .text, m => emitLine (Target.line m)
  | .binary, m => emitBinary m

/-! ## The output of a trace -/

/-- The messages of a trace, where a call says `msgs` in place of what the trace has behind
it.  A call says nothing but reports, and the runner says all the rest. -/
def said (msgs : Globals → Call → List Msg) : Globals → List Step → List Msg
  | _, [] => []
  | g, .take t :: steps => said msgs { g with cur := t.id } steps
  | g, .enter .. :: steps => said msgs g steps
  | g, .call c :: steps => msgs g c ++ said msgs (c.effect g) steps
  | g, .msg m :: steps => if ofRunner m then m :: said msgs g steps else said msgs g steps

/-- What the target writes from the globals `g` on. -/
def targetOutput (mode : Mode) (g : Globals) (trace : List Step) : List UInt8 :=
  (said callMsgs g trace).flatMap fun m => (Target.emit mode m).flatten

/-! ## Below 2 ^ 31 -/

/-- A number that a `long` of 32 bits has. -/
def SmallFrag : Frag → Prop
  | .u32 v => v.toNat < 2 ^ 31
  | _ => True

/-- The same of the row that a call sets. -/
def SmallCall : Call → Prop
  | .setParam index _ => index.toUInt32.toNat < 2 ^ 31
  | _ => True

instance : DecidablePred SmallFrag
  | .str _ => inferInstanceAs (Decidable True)
  | .i32 _ => inferInstanceAs (Decidable True)
  | .u32 v => inferInstanceAs (Decidable (v.toNat < 2 ^ 31))

/-- The numbers of a trace, the rows that it sets and the counters of its lines, are below
2 ^ 31. -/
structure Below (trace : List Step) : Prop where
  rows : ∀ c ∈ calls trace, SmallCall c
  counters : ∀ m ∈ messages trace, ∀ f ∈ m.frags, SmallFrag f

theorem toInt_small {v : UInt32} (h : v.toNat < 2 ^ 31) : v.toInt32.toInt = v.toNat := by
  have hlt : 2 * v.toBitVec.toNat < 2 ^ 32 := by
    have hnat : v.toBitVec.toNat = v.toNat := rfl
    omega
  exact BitVec.toInt_eq_toNat_of_lt hlt

theorem appendFrag_small {f : Frag} (h : SmallFrag f) (cap : Nat) (dst : Buffer × Nat) :
    appendFrag cap dst f = f.append cap dst := by
  cases f with
  | u32 v =>
    show appendI32 cap dst.1 dst.2 v.toInt32.toInt = appendI32 cap dst.1 dst.2 v.toNat
    rw [toInt_small h]
  | _ => rfl

theorem build_small {frags : List Frag} (h : ∀ f ∈ frags, SmallFrag f) (cap : Nat) :
    Target.build cap frags = Harness.build cap frags := by
  unfold Target.build Harness.build
  congr 1
  exact List.foldl_ext _ _ _ fun dst f hf => appendFrag_small (h f hf) cap dst

theorem emit_small {m : Msg} (h : ∀ f ∈ m.frags, SmallFrag f) (mode : Mode) :
    Target.emit mode m = Harness.emit mode m := by
  cases mode with
  | binary => rfl
  | text =>
    have hline : Target.line m = m.line := by
      have hbuild := congrArg Buffer.cstr (build_small h m.cap)
      cases m with
      | banner => rfl
      | _ => exact hbuild
    exact congrArg emitLine hline

/-- The row is one that a `long` of 32 bits has. -/
def SmallRow (g : Globals) : Prop :=
  g.paramActive = true → g.paramIndex.toUInt32.toNat < 2 ^ 31

theorem messageWithParam_small {g : Globals} (h : SmallRow g) (message : Option CStr) :
    Target.messageWithParam g message = Harness.messageWithParam g message := by
  unfold Target.messageWithParam Harness.messageWithParam
  dsimp only
  split_ifs with hactive
  · rw [build_small]
    simpa [SmallFrag, litFrag] using h hactive
  · rfl

theorem callMsgs_small {g : Globals} (h : SmallRow g) (c : Call) : callMsgs g c = c.msgs g := by
  cases c with
  | failAt file line message =>
    show [Msg.assertFail g.cur file line (Target.messageWithParam g message)] = _
    rw [messageWithParam_small h]
    rfl
  | _ => rfl

theorem SmallRow.effect {g : Globals} (h : SmallRow g) {c : Call} (hc : SmallCall c) :
    SmallRow (c.effect g) := by
  cases c with
  | setParam index param => exact fun _ => hc
  | clearParam => exact fun hactive => absurd hactive Bool.false_ne_true
  | _ => exact h

/-- The calls say what they say with a `long` of 64 bits, by induction on the trace. -/
theorem said_small {g : Globals} (h : SmallRow g) {trace : List Step}
    (hrows : ∀ c ∈ calls trace, SmallCall c) :
    said callMsgs g trace = said (fun g c => c.msgs g) g trace := by
  induction trace generalizing g with
  | nil => rfl
  | cons step trace ih =>
      cases step with
      | take t => exact ih (g := { g with cur := t.id }) h hrows
      | enter hook f => exact ih h hrows
      | call c =>
        obtain ⟨hc, hrest⟩ := List.forall_mem_cons.mp hrows
        unfold said
        rw [callMsgs_small h, ih (h.effect hc) hrest]
      | msg m =>
        unfold said
        rw [ih h hrows]

/-! ## The replay of a run -/

/-- The globals that the messages of calls depend on. -/
structure SameVoice (g g' : Globals) : Prop where
  cur : g.cur = g'.cur
  active : g.paramActive = g'.paramActive
  index : g.paramIndex = g'.paramIndex

theorem SameVoice.effect {g g' : Globals} (h : SameVoice g g') (c : Call) :
    SameVoice (c.effect g) (c.effect g') where
  cur := by rw [effect_cur, effect_cur, h.cur]
  active := by cases c <;> first | exact h.active | rfl
  index := by cases c <;> first | exact h.index | rfl

/-- A replay from `s` says what the trace has up to `s'`. -/
def Replayed (s s' : Sys ω) : Prop :=
  ∃ new, s'.trace = s.trace ++ new ∧ ∀ g, SameVoice g s.g → ∃ g', SameVoice g' s'.g ∧
    ∀ rest, said (fun g c => c.msgs g) g (new ++ rest) =
      messages new ++ said (fun g c => c.msgs g) g' rest

/-- What calls report is skipped, since the calls say it. -/
theorem said_reports {msgs : Globals → Call → List Msg} (g : Globals) {ms : List Msg}
    (h : ∀ m ∈ ms, ofRunner m = false) (rest : List Step) :
    said msgs g (ms.map .msg ++ rest) = said msgs g rest := by
  induction ms with
  | nil => rfl
  | cons m ms ih =>
      rw [List.forall_mem_cons] at h
      show (if ofRunner m then _ else said msgs g (ms.map .msg ++ rest)) = _
      rw [h.1, if_neg Bool.false_ne_true]
      exact ih h.2

theorem msgs_reports (c : Call) (g : Globals) : ∀ m ∈ c.msgs g, ofRunner m = false := by
  intro m hm
  have hfrom := fromCase_msgs hm
  cases m <;> first | rfl | exact hfrom.elim

theorem Replayed.refl (s : Sys ω) : Replayed s s :=
  ⟨[], (List.append_nil _).symm, fun g hg => ⟨g, hg, fun _ => rfl⟩⟩

theorem Replayed.trans {s s' s'' : Sys ω} (h : Replayed s s') (h' : Replayed s' s'') :
    Replayed s s'' := by
  obtain ⟨new, htrace, hsaid⟩ := h
  obtain ⟨new', htrace', hsaid'⟩ := h'
  refine ⟨new ++ new', by rw [htrace', htrace, List.append_assoc], fun g hg => ?_⟩
  obtain ⟨g', hg', hfirst⟩ := hsaid g hg
  obtain ⟨g'', hg'', hsecond⟩ := hsaid' g' hg'
  refine ⟨g'', hg'', fun rest => ?_⟩
  rw [List.append_assoc, hfirst, hsecond, messages_append, List.append_assoc]

theorem replayed_call (s : Sys ω) (c : Call) : Replayed s (s.call c) := by
  refine ⟨.call c :: (c.msgs s.g).map .msg, rfl, fun g hg => ⟨c.effect g, hg.effect c,
    fun rest => ?_⟩⟩
  have hmsgs : c.msgs g = c.msgs s.g := msgs_sameRow hg.cur hg.active hg.index c
  have hmessages : messages (.call c :: (c.msgs s.g).map .msg) = c.msgs s.g :=
    messages_map_msg (c.msgs s.g)
  rw [hmessages, List.cons_append, said, hmsgs, said_reports _ (msgs_reports c s.g)]

theorem replayed_stretch (p : Program ω) : Stretch p Replayed where
  refl := Replayed.refl
  trans := Replayed.trans
  say s m hm := ⟨[.msg m], rfl, fun g hg => ⟨g, hg, fun _ => if_pos hm⟩⟩
  enter := enter_of_calls Replayed.refl Replayed.trans replayed_call
    fun _ _ hook f => ⟨[.enter hook f], rfl, fun g hg => ⟨g, hg, fun _ => rfl⟩⟩
  begin s t := ⟨[.take t], rfl, fun g hg =>
    ⟨{ g with cur := t.id }, ⟨rfl, hg.active, hg.index⟩, fun _ => rfl⟩⟩
  count s status := by
    refine ⟨[], (count_trace s status).trans (List.append_nil _).symm, fun g hg =>
      ⟨g, ?_, fun _ => rfl⟩⟩
    cases status <;> exact ⟨hg.cur, hg.active, hg.index⟩

/-- With the `long` of 64 bits, the replay of a run says its messages. -/
theorem said_run (p : Program ω) (sel : Env → Case → Bool) (s : Sys ω) {new : List Step}
    (h : (runFiltered p sel s).1.trace = s.trace ++ new) :
    said (fun g c => c.msgs g) s.g new = messages new := by
  obtain ⟨new', htrace, hsaid⟩ := (replayed_stretch p).runFiltered sel s
  have hsame : new' = new := List.append_cancel_left (htrace.symm.trans h)
  subst hsame
  obtain ⟨g', -, hrest⟩ := hsaid s.g ⟨rfl, rfl, rfl⟩
  have hnil := hrest []
  rw [List.append_nil, said, List.append_nil] at hnil
  exact hnil

/-- Below 2 ^ 31 the target writes the output of the run. -/
theorem targetOutput_eq (p : Program ω) (sel : Env → Case → Bool) (s : Sys ω) (mode : Mode)
    (hrow : SmallRow s.g) {new : List Step}
    (h : (runFiltered p sel s).1.trace = s.trace ++ new) (hbelow : Below new) :
    targetOutput mode s.g new = output mode new := by
  unfold targetOutput
  rw [said_small hrow hbelow.rows, said_run p sel s h, Wire.output_eq]
  refine List.flatMap_congr fun m hm => ?_
  rw [emit_small (hbelow.counters m hm)]

end PolyOnTest.Target
