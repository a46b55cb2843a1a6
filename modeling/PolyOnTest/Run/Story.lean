import PolyOnTest.Run.Lifecycle

/-!
# Runs with plain names and messages

The conditions under which the two outputs tell the same story: names that are
words without a dot, messages of one line, and file paths that are one word.
They are conditions on the registry and on the calls of the test code.
`clean_messages` brings them to the messages of a run.
-/

namespace PolyOnTest.Run

open CodeLib CodeLib.CMemory PolyOnTest.Harness

variable {ω : Type}

/-! ## Conditions -/

/-- An ASCII byte that is no dot and no white space. -/
def nameByte (b : UInt8) : Bool :=
  b.toNat < 0x80 && b != 0x2E && b != 0x20 && !(9 ≤ b.toNat && b.toNat ≤ 13)

/-- An ASCII byte that is no line feed and no carriage return. -/
def messageByte (b : UInt8) : Bool :=
  b.toNat < 0x80 && b != 0x0A && b != 0x0D

/-- A name of name bytes. -/
def PlainName (s : Option CStr) : Prop :=
  ∃ x, s = some x ∧ ∀ b ∈ x.bytes, nameByte b

/-- Three names of name bytes. -/
structure PlainId (id : CaseId) : Prop where
  suite : PlainName id.suite
  group : PlainName id.group
  name : PlainName id.name

/-- A non-empty name of name bytes. -/
def CleanName (s : Option CStr) : Prop :=
  ∃ x, s = some x ∧ x.bytes ≠ [] ∧ ∀ b ∈ x.bytes, nameByte b

/-- Three clean names. -/
structure CleanId (id : CaseId) : Prop where
  suite : CleanName id.suite
  group : CleanName id.group
  name : CleanName id.name

theorem CleanName.plain {s : Option CStr} (h : CleanName s) : PlainName s := by
  obtain ⟨x, hx, -, hbytes⟩ := h
  exact ⟨x, hx, hbytes⟩

theorem CleanId.plain {id : CaseId} (h : CleanId id) : PlainId id :=
  ⟨h.suite.plain, h.group.plain, h.name.plain⟩

/-- A message of one line. -/
def CleanMessage (m : CStr) : Prop := ∀ b ∈ m.bytes, messageByte b

instance (m : CStr) : Decidable (CleanMessage m) := List.decidableBAll _ m.bytes

/-- A path without spaces and line feeds, or NULL. -/
def CleanPath (file : Option CStr) : Prop :=
  ∀ x, file = some x → 0x20 ∉ x.bytes ∧ 0x0A ∉ x.bytes

/-- A failing assertion or an ignore with clean arguments. -/
def CleanCall : Call → Prop
  | .failAt file _ message => CleanPath file ∧ ∀ m, message = some m → CleanMessage m
  | .ignore message => ∀ m, message = some m → CleanMessage m
  | _ => False

/-- A message with clean content. -/
def CleanMsg : Msg → Prop
  | .banner => True
  | .suiteStart name => CleanName name
  | .caseStart id => CleanId id
  | .assertFail id file _ message => CleanId id ∧ CleanPath file ∧ CleanMessage message
  | .ignored id message => CleanId id ∧ CleanMessage message
  | .caseEnd id _ => CleanId id
  | .suiteEnd name _ _ _ => CleanName name
  | .done .. => True

theorem cleanCall_quiet {c : Call} (h : CleanCall c) : quiet c = true := by
  cases c <;> first | rfl | exact h.elim

/-! ## Messages of calls -/

theorem messageByte_of_nameByte {b : UInt8} (h : nameByte b = true) :
    messageByte b = true := by
  simp only [nameByte, Bool.and_eq_true, bne_iff_ne, ne_eq, Bool.not_eq_true',
    Bool.and_eq_false_iff, decide_eq_true_eq, decide_eq_false_iff_not] at h
  simp only [messageByte, Bool.and_eq_true, bne_iff_ne, ne_eq, decide_eq_true_eq]
  refine ⟨⟨h.1.1.1, ?_⟩, ?_⟩
  · rintro rfl
    rcases h.2 with h | h <;> exact absurd (by decide) h
  · rintro rfl
    rcases h.2 with h | h <;> exact absurd (by decide) h

theorem messageByte_numeral {n : Nat} {b : UInt8} (h : b ∈ Decimal.numeral n) :
    messageByte b = true := by
  have hdigit := Decimal.mem_numeral h
  simp only [messageByte, Bool.and_eq_true, bne_iff_ne, ne_eq, decide_eq_true_eq]
  refine ⟨⟨by omega, ?_⟩, ?_⟩ <;> rintro rfl <;> exact absurd hdigit.1 (by decide)

/-- A message with a parameter row is clean. -/
theorem clean_messageWithParam (g : Globals) {message : Option CStr}
    (h : ∀ m, message = some m → CleanMessage m) :
    CleanMessage (messageWithParam g message) := by
  have hbase : CleanMessage (message.getD (CStr.lit "fail")) := by
    cases message with
    | none => decide
    | some m => exact h m rfl
  unfold messageWithParam
  dsimp only
  split_ifs
  · have hopen : CleanMessage (CStr.lit " [param=") := by decide
    have hclose : CleanMessage (CStr.lit "]") := by decide
    intro b hb
    rw [(build_cstr (by decide) _ _).1] at hb
    have htext := List.mem_of_mem_take hb
    simp only [lineText, List.flatMap_cons, List.flatMap_nil, List.append_nil,
      List.mem_append, litFrag, Frag.text] at htext
    rcases htext with hb | hb | hb | hb
    · exact hbase b hb
    · exact hopen b hb
    · exact messageByte_numeral hb
    · exact hclose b hb
  · exact hbase

/-- The messages of a clean call are clean. -/
theorem clean_msgs {g : Globals} {c : Call} (hc : CleanCall c) (hcur : CleanId g.cur)
    {m : Msg} (h : m ∈ c.msgs g) : CleanMsg m := by
  cases c with
  | failAt file line message =>
    rw [show m = .assertFail g.cur file line (messageWithParam g message) by
      simpa [Call.msgs] using h]
    exact ⟨hcur, hc.1, clean_messageWithParam g hc.2⟩
  | ignore message =>
    cases message with
    | none => simp [Call.msgs] at h
    | some message =>
      simp only [Call.msgs] at h
      split_ifs at h
      · rw [List.mem_singleton.mp h]
        exact ⟨hcur, hc message rfl⟩
      · simp at h
  | _ => exact hc.elim

/-! ## Messages of a run -/

/-- Every message of a trace is clean. -/
def CleanTrace (trace : List Step) : Prop := ∀ m ∈ messages trace, CleanMsg m

theorem CleanTrace.append {a b : List Step} (ha : CleanTrace a) (hb : CleanTrace b) :
    CleanTrace (a ++ b) := by
  intro m hm
  rw [messages_append, List.mem_append] at hm
  rcases hm with hm | hm
  · exact ha m hm
  · exact hb m hm

theorem CleanTrace.flatMap {α : Type} {f : α → List Step} {xs : List α}
    (h : ∀ x ∈ xs, CleanTrace (f x)) : CleanTrace (xs.flatMap f) := by
  induction xs with
  | nil =>
      intro m hm
      simp [messages] at hm
  | cons x xs ih =>
      rw [List.flatMap_cons]
      exact (h x (by simp)).append (ih fun y hy => h y (by simp [hy]))

theorem cleanTrace_msg {m : Msg} (h : CleanMsg m) : CleanTrace [.msg m] := by
  intro m' hm
  rw [show m' = m by simpa [messages] using hm]
  exact h

theorem cleanTrace_entered {p : Program ω} {I : Globals → Prop} {hook : Hook}
    {f : Option FnId} {cur : CaseId} {steps : List Step}
    (hcalls : CallsOnly p CleanCall) (hcur : CleanId cur)
    (h : Entered p I hook f cur steps) : CleanTrace steps := by
  intro m hm
  obtain ⟨f', -, w, c, hc, g, hg, hsource⟩ := h.msg_source hm
  exact clean_msgs (hcalls f' w c hc) (hg ▸ hcur) hsource

theorem cleanTrace_fixture (hook : Hook) (f : Option FnId) :
    CleanTrace (fixtureSteps hook f) := by
  intro m hm
  cases f <;> simp [fixtureSteps, messages] at hm

theorem cleanTrace_case {p : Program ω} {I : Globals → Prop} {reg : Registry}
    (hcalls : CallsOnly p CleanCall) {r : CaseReport} (hid : CleanId r.case.id)
    (h : WindowOf p I reg r.case r.window) : CleanTrace r.steps := by
  obtain ⟨setup, body, teardown, hsetup, hbody, hteardown, hwindow⟩ := h
  have hinner : CleanTrace r.window := by
    rw [hwindow]
    exact ((cleanTrace_entered hcalls hid hsetup).append
      (cleanTrace_entered hcalls hid hbody)).append
        (cleanTrace_entered hcalls hid hteardown)
  have hend : CleanTrace (r.window ++ [.msg (.caseEnd r.case.id r.status)]) :=
    hinner.append (cleanTrace_msg hid)
  intro m hm
  rcases List.mem_cons.mp (show m ∈ Msg.caseStart r.case.id :: messages (r.window ++
    [.msg (.caseEnd r.case.id r.status)]) from hm) with rfl | hm
  · exact hid
  · exact hend m hm

theorem CleanName.ne_none {name : Option CStr} (h : CleanName name) : name ≠ none := by
  obtain ⟨x, rfl, -⟩ := h
  exact Option.some_ne_none x

/-- The messages of a run are clean when its cases and its calls are. -/
theorem clean_messages {p : Program ω} (hcalls : CallsOnly p CleanCall)
    (sel : Env → Case → Bool) {s : Sys ω} (hsilent : SilentSuites p s.g.env.reg)
    (hnames : ∀ t ∈ registered p s, CleanId t.id) :
    ∃ new, (runFiltered p sel s).1.trace = s.trace ++ new ∧ CleanTrace new := by
  have hclean : ∀ t ∈ sortCases (registered p s), CleanId t.id := fun t ht =>
    hnames t ((sortCases_perm (registered p s)).mem_iff.mp ht)
  obtain ⟨rs, hreport, htrace, -, -⟩ := run_named
    (quiet_invariant (fun f w c hc => cleanCall_quiet (hcalls f w c hc))
      (prepare p s).g.env) (fun _ hg => hg) sel rfl
    (sortCases_sorted (registered p s)) (silent_prepare hsilent)
    (fun t ht => (hclean t ht).suite.ne_none)
  have hcase : ∀ r ∈ rs, ∀ c ∈ r.cases, CleanId c.case.id := fun r hr c hc =>
    hclean c.case (hreport.case_mem hr hc)
  have hsuite : ∀ r ∈ rs, CleanTrace r.steps := by
    intro r hr
    have hclosed := hreport.reports r hr
    have hcases : CleanTrace (r.cases.flatMap CaseReport.steps) :=
      CleanTrace.flatMap fun c hc =>
        cleanTrace_case hcalls (hcase r hr c hc) (hclosed.window c hc)
    have hname : CleanName r.name := by
      obtain ⟨c, cs, hcs⟩ := List.exists_cons_of_ne_nil
        (hclosed.nonempty (Option.isSome_iff_ne_none.mp (hreport.named r hr)))
      have hc : c ∈ r.cases := by simp [hcs]
      exact hclosed.suite c hc ▸ (hcase r hr c hc).suite
    have hstart : CleanTrace [.msg (.suiteStart r.name)] :=
      cleanTrace_msg (m := .suiteStart r.name) hname
    have hend : ∀ passed failed skipped,
        CleanTrace [.msg (.suiteEnd r.name passed failed skipped)] :=
      fun _ _ _ => cleanTrace_msg (m := .suiteEnd r.name _ _ _) hname
    obtain ⟨name, hsome⟩ := Option.isSome_iff_exists.mp (hreport.named r hr)
    unfold SuiteReport.steps SuiteReport.opening SuiteReport.closing
    rw [hreport.setup r hr, hreport.teardown r hr]
    rw [hsome] at hstart hend ⊢
    exact (((cleanTrace_fixture _ _).append hstart).append hcases).append
      ((cleanTrace_fixture _ _).append (hend _ _ _))
  refine ⟨.msg .banner :: runSteps rs, htrace, ?_⟩
  have hrun : CleanTrace (runSteps rs) :=
    (CleanTrace.flatMap hsuite).append (cleanTrace_msg trivial)
  exact (cleanTrace_msg (m := .banner) trivial).append hrun

end PolyOnTest.Run
