import PolyOnTest.Run.Heard
import PolyOnTest.Run.Ledger

/-!
# The totals of the JUnit report

Two parties count the cases of a run: the harness in its counters, one status for each
case, and the JUnit reporter in its rows, one for each name, with the last status that
was written.  The harness sends the failure of a fixture of a suite under the name of
the case that it ran before, and its own counters do not see it.

`junitAgrees_iff` says when the two totals are the same.  `rows_of_visits` finds the
rows from the ledger of the run, and `counts_iff` compares the numbers.
-/

namespace PolyOnTest.Run

open CodeLib CodeLib.CMemory CodeLib.LastWrite PolyOnTest.Builtins PolyOnTest.Harness
  PolyOnTest.Wire

variable {ω : Type}

/-! ## The property -/

/-- The JUnit report over the decoded output has the totals of the last event, which
are the counters of the run. -/
def JunitAgrees (mode : Mode) (trace : List Step) : Prop :=
  ∃ events front passed failed skipped,
    hostDecode mode (output mode trace) = .ok events ∧
      events = front ++ [.done passed failed skipped] ∧
      (JunitReporter.receive events).tests =
        passed.toNat + failed.toNat + skipped.toNat ∧
      (JunitReporter.receive events).failures = failed.toNat

theorem junitAgrees_of_ok {mode : Mode} {trace : List Step} {front : List Event}
    {passed failed skipped : UInt32} (h : hostDecode mode (output mode trace) =
      .ok (front ++ [.done passed failed skipped])) :
    JunitAgrees mode trace ↔
      (JunitReporter.receive (front ++ [.done passed failed skipped])).tests =
          passed.toNat + failed.toNat + skipped.toNat ∧
        (JunitReporter.receive (front ++ [.done passed failed skipped])).failures =
          failed.toNat := by
  constructor
  · rintro ⟨events, front', a, b, c, hok, hfront, htests, hfailures⟩
    rw [h] at hok
    injection hok with hok
    rw [← hok] at hfront htests hfailures
    have hlast := List.append_inj_right' hfront rfl
    injection hlast with hlast
    injection hlast with ha hb hc
    rw [← ha, ← hb, ← hc] at htests
    rw [← hb] at hfailures
    exact ⟨htests, hfailures⟩
  · rintro ⟨htests, hfailures⟩
    exact ⟨_, front, passed, failed, skipped, h, rfl, htests, hfailures⟩

/-- A call that registers nothing and, in the text output, adds no line feed. -/
def LineCall (mode : Mode) (c : Call) : Prop :=
  quiet c = true ∧
    (mode = .text →
      match c with
      | .failAt file _ message => 0x0A ∉ bytesOf file ∧ 0x0A ∉ bytesOf message
      | .ignore message => 0x0A ∉ bytesOf message
      | _ => True)

/-- A failing assertion that the harness sends. -/
def sentFail (mode : Mode) : Msg → Bool
  | .assertFail id _ _ message =>
      !(decide (mode = .binary) && decide (384 < caseSize id (some message)))
  | _ => false

/-- A stretch with such an assertion. -/
def sendsFail (mode : Mode) (steps : List Step) : Bool :=
  (messages steps).any (sentFail mode)

/-- The suite and the name under which the host has a visit. -/
def Visit.key (mode : Mode) (v : Visit) : Str × Str := hostKey mode v.case.id

/-- The rows that no case of the run stands for: one when a fixture fails in front of
the first case, under names that no case has. -/
def strayRows (mode : Mode) (cur : CaseId) (early : List Step) (vs : List Visit) : Nat :=
  if sendsFail mode early ∧ hostKey mode cur ∉ vs.map (Visit.key mode) then 1 else 0

/-- When the totals agree.  Each case whose names come again has lost its row, so a
stray row has to stand in for it. -/
structure Agreeing (mode : Mode) (cur : CaseId) (early : List Step) (vs : List Visit) :
    Prop where
  readable : ∀ m ∈ messages early ++ vs.flatMap Visit.msgs, ¬Garbled mode m
  names : (covered (Visit.key mode) vs).length = strayRows mode cur early vs
  covered : ∀ v ∈ covered (Visit.key mode) vs, v.status = .failed
  late : ∀ v ∈ lasting (Visit.key mode) vs, sendsFail mode v.late = true →
    v.status = .failed

/-! ## Calls and lines -/

theorem feed_not_mem_messageWithParam (g : Globals) {message : Option CStr}
    (h : 0x0A ∉ bytesOf message) : 0x0A ∉ (messageWithParam g message).bytes := by
  have hbase : 0x0A ∉ (message.getD (CStr.lit "fail")).bytes := by
    cases message with
    | none => decide
    | some m => exact h
  unfold messageWithParam
  dsimp only
  by_cases hparam : g.paramActive = true
  · rw [if_pos hparam, (build_cstr (by decide) _ _).1]
    intro hb
    have htext := List.mem_of_mem_take hb
    have hopen : 0x0A ∉ (CStr.lit " [param=").bytes := by decide
    have hclose : 0x0A ∉ (CStr.lit "]").bytes := by decide
    simp only [lineText, List.flatMap_cons, List.flatMap_nil, List.append_nil,
      List.mem_append, litFrag, Frag.text] at htext
    rcases htext with hb | hb | hb | hb
    · exact hbase hb
    · exact hopen hb
    · exact absurd (Decimal.mem_numeral hb).1 (by decide)
    · exact hclose hb
  · rw [if_neg hparam]
    exact hbase

/-- The messages of such a call stay on their lines. -/
theorem LineCall.speaks {mode : Mode} {c : Call} (h : LineCall mode c) :
    Speaks (OneLine mode) c := by
  refine ⟨h.1, fun g m hm => ?_⟩
  cases mode with
  | binary => cases m <;> trivial
  | text =>
    have hline := h.2 rfl
    cases c with
    | failAt file line message =>
      rw [show m = .assertFail g.cur file line (messageWithParam g message) by
        simpa [Call.msgs] using hm]
      refine ⟨?_, feed_not_mem_messageWithParam g hline.2⟩
      cases file with
      | none => decide
      | some x => exact hline.1
    | ignore message =>
      cases message with
      | none => simp [Call.msgs] at hm
      | some message =>
        simp only [Call.msgs] at hm
        split_ifs at hm
        · rw [List.mem_singleton.mp hm]
          exact hline
        · simp at hm
    | _ => simp [Call.msgs] at hm

/-! ## The rows of a run -/

/-- Test code between two cases only writes failures, for the case before. -/
theorem writes_outside {Q : Msg → Prop} (mode : Mode) {cur : CaseId} {steps : List Step}
    (h : ∀ m ∈ messages steps, Outside Q cur m) :
    (∀ w ∈ (messages steps).flatMap (msgWrites mode), w = (hostKey mode cur, .failed)) ∧
      ((messages steps).flatMap (msgWrites mode) = [] ↔ sendsFail mode steps = false) := by
  have hone : ∀ m ∈ messages steps, msgWrites mode m =
      if sentFail mode m then [(hostKey mode cur, .failed)] else [] := by
    intro m hm
    have houtside := h m hm
    cases m with
    | assertFail id file line message =>
      have hid : id = cur := houtside.1
      have hiff : sentFail mode (.assertFail cur file line message) = true ↔
          ¬(mode = .binary ∧ 384 < caseSize cur (some message)) := by
        cases mode <;> simp [sentFail]
      rw [hid]
      unfold msgWrites
      dsimp only
      by_cases hsent : mode = .binary ∧ 384 < caseSize cur (some message)
      · rw [if_pos hsent, if_neg fun h => hiff.mp h hsent]
      · rw [if_neg hsent, if_pos (hiff.mpr hsent)]
    | caseStart id => exact houtside.1.elim
    | caseEnd id status => exact houtside.1.elim
    | done passed failed skipped => exact houtside.1.elim
    | _ => rfl
  constructor
  · intro w hw
    obtain ⟨m, hm, hwm⟩ := List.mem_flatMap.mp hw
    rw [hone m hm] at hwm
    split_ifs at hwm
    · exact List.mem_singleton.mp hwm
    · exact absurd hwm List.not_mem_nil
  · rw [List.flatMap_eq_nil_iff, sendsFail, List.any_eq_false]
    refine forall₂_congr fun m hm => ?_
    rw [hone m hm]
    by_cases hsent : sentFail mode m = true
    · simp [hsent]
    · simp [hsent]

/-- Writes of one row leave the last of them. -/
theorem lasting_block {κ ν : Type} [DecidableEq κ] {w : κ × ν} {block : List (κ × ν)}
    (h : ∀ x ∈ block, x = w) (hne : block ≠ []) (rest : List (κ × ν)) :
    lasting Prod.fst (block ++ rest) = lasting Prod.fst (w :: rest) := by
  have hlast : block.getLast hne = w := h _ (List.getLast_mem hne)
  rw [← List.dropLast_append_getLast hne, hlast, List.append_assoc]
  refine lasting_append_of_mem fun x hx => ?_
  rw [h x ((List.dropLast_sublist block).subset hx)]
  simp

/-- The status that a visit leaves in its row. -/
def Visit.final (mode : Mode) (v : Visit) : TestStatus :=
  if sendsFail mode v.late then .failed else v.status

/-- The row of a visit, with what it leaves there. -/
def Visit.row (mode : Mode) (v : Visit) : (Str × Str) × TestStatus :=
  (v.key mode, v.final mode)

theorem Visit.Ok.lasting {Q : Msg → Prop} {v : Visit} (h : v.Ok Q) (mode : Mode)
    (rest : List ((Str × Str) × TestStatus)) :
    LastWrite.lasting Prod.fst (v.msgs.flatMap (msgWrites mode) ++ rest) =
      LastWrite.lasting Prod.fst (v.row mode :: rest) := by
  have hinner := (writes_outside mode fun m hm => (h.inner m hm).outside).1
  obtain ⟨hlate, hempty⟩ := writes_outside mode h.late
  have hsplit : v.msgs.flatMap (msgWrites mode) ++ rest =
      (messages v.window).flatMap (msgWrites mode) ++
        ((v.key mode, v.status) :: ((messages v.late).flatMap (msgWrites mode) ++ rest)) := by
    simp [Visit.msgs_eq, msgWrites, Visit.key]
  have hcovered : ∀ w ∈ (messages v.window).flatMap (msgWrites mode),
      w.1 ∈ ((v.key mode, v.status) ::
        ((messages v.late).flatMap (msgWrites mode) ++ rest)).map Prod.fst := by
    intro w hw
    rw [hinner w hw]
    exact List.mem_cons_self
  rw [hsplit, lasting_append_of_mem hcovered]
  unfold Visit.row Visit.final
  by_cases hsent : sendsFail mode v.late = true
  · -- a fixture behind the case has the last word
    have hne : (messages v.late).flatMap (msgWrites mode) ≠ [] := fun hnil =>
      absurd (hempty.mp hnil) (by rw [hsent]; simp)
    have hfirst : ∀ x ∈ [(v.key mode, v.status)], x.1 ∈
        ((messages v.late).flatMap (msgWrites mode) ++ rest).map Prod.fst := by
      intro x hx
      obtain ⟨w, hw⟩ := List.exists_mem_of_ne_nil _ hne
      rw [List.mem_singleton.mp hx, List.map_append, List.mem_append]
      refine Or.inl (List.mem_map.mpr ⟨w, hw, ?_⟩)
      rw [hlate w hw]
      rfl
    have hlast := lasting_append_of_mem hfirst
    rw [List.singleton_append] at hlast
    rw [if_pos hsent, hlast, lasting_block hlate hne]
    rfl
  · rw [if_neg hsent, hempty.mpr (Bool.eq_false_iff.mpr hsent), List.nil_append]

/-- The rows of the visits, by induction on the visits. -/
theorem lasting_visits {Q : Msg → Prop} (mode : Mode) {vs : List Visit}
    (h : ∀ v ∈ vs, v.Ok Q) :
    lasting Prod.fst ((vs.flatMap Visit.msgs).flatMap (msgWrites mode)) =
      lasting Prod.fst (vs.map (Visit.row mode)) := by
  induction vs with
  | nil => rfl
  | cons v vs ih =>
      have hrest := ih fun u hu => h u (by simp [hu])
      rw [List.flatMap_cons, List.flatMap_append, (h v (by simp)).lasting mode, List.map_cons]
      exact lasting_congr_tail _ hrest

theorem lasting_rows (mode : Mode) (vs : List Visit) :
    lasting Prod.fst (vs.map (Visit.row mode)) =
      (lasting (Visit.key mode) vs).map (Visit.row mode) :=
  lasting_map vs

/-- How many rows the reporter has, and how many of them are failures. -/
structure Rows (mode : Mode) (cur : CaseId) (early : List Step) (vs : List Visit)
    (r : JunitReporter) : Prop where
  tests : r.tests =
    strayRows mode cur early vs + (lasting (Visit.key mode) vs).length
  failures : r.failures = strayRows mode cur early vs +
    (lasting (Visit.key mode) vs).countP fun v => v.final mode = .failed

/-- The rows of a run. -/
theorem rows_of_visits {Q : Msg → Prop} {mode : Mode} {cur : CaseId} {early : List Step}
    {vs : List Visit} (hearly : ∀ m ∈ messages early, Outside Q cur m)
    (hvs : ∀ v ∈ vs, v.Ok Q) {events : List Event}
    (hevents : events.filterMap eventWrite =
      (messages early ++ vs.flatMap Visit.msgs).flatMap (msgWrites mode)) :
    Rows mode cur early vs (JunitReporter.receive events) := by
  obtain ⟨hsame, hempty⟩ := writes_outside mode hearly
  have hvisits := lasting_visits mode hvs
  have hlasting : lasting Prod.fst (events.filterMap eventWrite) =
      List.replicate (strayRows mode cur early vs) (hostKey mode cur, .failed) ++
        (lasting (Visit.key mode) vs).map (Visit.row mode) := by
    rw [hevents, List.flatMap_append]
    unfold strayRows
    by_cases hsent : sendsFail mode early = true
    · have hne : (messages early).flatMap (msgWrites mode) ≠ [] := fun hnil =>
        absurd (hempty.mp hnil) (by rw [hsent]; simp)
      have hkeys : (hostKey mode cur ∈
          ((vs.flatMap Visit.msgs).flatMap (msgWrites mode)).map Prod.fst) ↔
            hostKey mode cur ∈ vs.map (Visit.key mode) := by
        rw [← mem_map_lasting, hvisits, mem_map_lasting, List.map_map]
        rfl
      rw [lasting_block hsame hne, lasting, hvisits, lasting_rows]
      by_cases hkey : hostKey mode cur ∈ vs.map (Visit.key mode)
      · rw [if_pos (hkeys.mpr hkey), if_neg fun h => h.2 hkey]
        rfl
      · rw [if_neg (fun h => hkey (hkeys.mp h)), if_pos ⟨hsent, hkey⟩]
        rfl
    · rw [hempty.mpr (Bool.eq_false_iff.mpr hsent), if_neg fun h => hsent h.1, List.nil_append,
        hvisits, lasting_rows]
      rfl
  constructor
  · rw [JunitReporter.tests_eq, hlasting]
    simp
  · rw [JunitReporter.failures_eq, hlasting, List.countP_append, List.countP_replicate,
      List.countP_map]
    simp only [decide_true, if_true]
    rfl

/-! ## The numbers -/

/-- Each visit has a status. -/
theorem counted_total (vs : List Visit) :
    counted vs .passed + counted vs .failed + counted vs .skipped = vs.length := by
  induction vs with
  | nil => rfl
  | cons v vs ih =>
      unfold counted at ih ⊢
      simp only [List.countP_cons, List.length_cons]
      cases v.status <;> simp <;> omega

/-- Two counts of which one has at least the elements of the other. -/
theorem countP_eq_iff {α : Type} {q r : α → Bool} {xs : List α}
    (h : ∀ x ∈ xs, r x = true → q x = true) :
    xs.countP q = xs.countP r ↔ ∀ x ∈ xs, q x = true → r x = true := by
  induction xs with
  | nil => simp
  | cons x xs ih =>
      obtain ⟨hx, hrest⟩ := List.forall_mem_cons.mp h
      have hle : xs.countP r ≤ xs.countP q := List.countP_mono_left hrest
      rw [List.countP_cons, List.countP_cons, List.forall_mem_cons, ← ih hrest]
      by_cases hr : r x = true
      · rw [if_pos hr, if_pos (hx hr)]
        simp [hr]
      · rw [if_neg hr]
        by_cases hq : q x = true
        · rw [if_pos hq]
          constructor
          · omega
          · exact fun hboth => absurd (hboth.1 hq) hr
        · rw [if_neg hq]
          simp [hq]

/-- A row of a visit is a failure when the case or a fixture behind it failed. -/
theorem Visit.final_eq_failed {mode : Mode} {v : Visit} :
    v.final mode = .failed ↔ v.status = .failed ∨ sendsFail mode v.late = true := by
  unfold Visit.final
  by_cases hsent : sendsFail mode v.late = true
  · simp [hsent]
  · simp [hsent]

/-- The two totals compared.  A row of a visit is a failure at least when the case
failed, and a case without a row is a failure at most when it failed. -/
theorem counts_iff (mode : Mode) (stray : Nat) (vs : List Visit) :
    (stray + (lasting (Visit.key mode) vs).length = vs.length ∧
        stray + (lasting (Visit.key mode) vs).countP (fun v => v.final mode = .failed) =
          counted vs .failed) ↔
      (covered (Visit.key mode) vs).length = stray ∧
        (∀ v ∈ covered (Visit.key mode) vs, v.status = .failed) ∧
        ∀ v ∈ lasting (Visit.key mode) vs, sendsFail mode v.late = true →
          v.status = .failed := by
  have hlength := @length_lasting_add_covered _ _ _ (Visit.key mode) vs
  have hcount := @countP_lasting_add_covered _ _ _ (Visit.key mode)
    (fun v => decide (v.status = .failed)) vs
  generalize lasting (Visit.key mode) vs = rows at *
  generalize covered (Visit.key mode) vs = lost at *
  have hcounted : counted vs .failed = vs.countP fun v => v.status = .failed := rfl
  have hlost := List.countP_le_length (p := fun v : Visit => decide (v.status = .failed))
    (l := lost)
  have hall : lost.countP (fun v => v.status = .failed) = lost.length ↔
      ∀ v ∈ lost, v.status = .failed := by
    rw [List.countP_eq_length]
    simp
  have hmono : rows.countP (fun v => v.status = .failed) ≤
      rows.countP (fun v => v.final mode = .failed) :=
    List.countP_mono_left fun v _ hv => by
      simpa [Visit.final_eq_failed] using Or.inl (of_decide_eq_true hv)
  have hsame : rows.countP (fun v => v.final mode = .failed) =
      rows.countP (fun v => v.status = .failed) ↔
        ∀ v ∈ rows, sendsFail mode v.late = true → v.status = .failed := by
    rw [countP_eq_iff (fun v _ hv => by
      simpa [Visit.final_eq_failed] using Or.inl (of_decide_eq_true hv))]
    refine forall₂_congr fun v _ => ?_
    rw [decide_eq_true_iff, decide_eq_true_iff, Visit.final_eq_failed]
    constructor
    · intro h hsent
      exact h (Or.inr hsent)
    · intro h hor
      exact hor.elim id h
  rw [← hall, ← hsame, hcounted]
  omega

/-! ## A run -/

/-- A plain name has no line feed. -/
theorem feed_not_mem_shown {name : Option CStr} (h : PlainName (some (orUnknown name))) :
    0x0A ∉ bytesOf name := by
  obtain ⟨x, hx, hbytes⟩ := h
  cases name with
  | none => exact List.not_mem_nil
  | some s =>
    intro hb
    have hsx : s = x := Option.some.inj hx
    exact absurd (hbytes _ (hsx ▸ hb)) (by decide)

theorem oneLine_suites {mode : Mode} {t : Case} (h : Sends mode t.id) :
    OneLine mode (.suiteStart t.suite) ∧ EndsWith (OneLine mode) t.suite := by
  cases mode with
  | binary => exact ⟨trivial, fun _ _ _ => trivial⟩
  | text =>
    have hfeed : 0x0A ∉ bytesOf t.suite := feed_not_mem_shown h.1.suite
    exact ⟨hfeed, fun _ _ _ => hfeed⟩

/-- The messages that a run reports on its lines, with the cases that they name. -/
theorem sends_outside {mode : Mode} {cur : CaseId} (hcur : Sends mode cur) {m : Msg}
    (h : Outside (OneLine mode) cur m) :
    OneLine mode m ∧ ∀ id, msgCase m = some id → Sends mode id := by
  cases m with
  | suiteStart name => exact ⟨h, fun _ heq => by cases heq⟩
  | suiteEnd name passed failed skipped => exact ⟨h, fun _ heq => by cases heq⟩
  | assertFail id file line message =>
    refine ⟨h.2, fun id' heq => ?_⟩
    injection heq with heq
    have hid : id = cur := h.1
    rw [← heq, hid]
    exact hcur
  | ignored id message =>
    refine ⟨h.2, fun id' heq => ?_⟩
    injection heq with heq
    have hid : id = cur := h.1
    rw [← heq, hid]
    exact hcur
  | _ => exact h.1.elim

theorem sends_visit {mode : Mode} {v : Visit} (hid : Sends mode v.case.id)
    (h : v.Ok (OneLine mode)) {m : Msg} (hm : m ∈ v.msgs) :
    OneLine mode m ∧ ∀ id, msgCase m = some id → Sends mode id := by
  have hown : ∀ id, some v.case.id = some id → Sends mode id := by
    intro id heq
    injection heq with heq
    rw [← heq]
    exact hid
  rw [Visit.msgs_eq] at hm
  rcases List.mem_cons.mp hm with heq | hm
  · rw [heq]
    exact ⟨by cases mode <;> trivial, hown⟩
  · rcases List.mem_append.mp hm with hm | hm
    · exact sends_outside hid (h.inner m hm).outside
    · rcases List.mem_cons.mp hm with heq | hm
      · rw [heq]
        exact ⟨by cases mode <;> trivial, hown⟩
      · exact sends_outside hid (h.late m hm)

/-- The writes of the parts that are heard. -/
theorem filterMap_parts {mode : Mode} {ms : List Msg} {parts : List (List Event)}
    (h : List.Forall₂ (fun m part => hostDecode mode (emit mode m).flatten = .ok part ∧
      part.filterMap eventWrite = msgWrites mode m) ms parts) :
    parts.flatten.filterMap eventWrite = ms.flatMap (msgWrites mode) := by
  induction h with
  | nil => rfl
  | cons hm _ ih =>
      rw [List.flatten_cons, List.filterMap_append, List.flatMap_cons, hm.2, ih]

/-- What the host reads from a run without a garbled message. -/
theorem hostDecode_ledger {mode : Mode} {ms : List Msg} (passed failed skipped : UInt32)
    (h : ∀ m ∈ ms, Heard mode m) :
    ∃ events : List Event, hostDecode mode ((ms ++ [Msg.done passed failed skipped]).flatMap
        fun m => (emit mode m).flatten) =
          .ok (events ++ [Event.done passed failed skipped]) ∧
      events.filterMap eventWrite = ms.flatMap (msgWrites mode) := by
  obtain ⟨parts, hparts⟩ := exists_forall₂ h
  refine ⟨parts.flatten, ?_, filterMap_parts hparts⟩
  have hdone : List.Forall₂
      (fun (m : Msg) (part : List Event) => hostDecode mode (emit mode m).flatten = .ok part)
      [Msg.done passed failed skipped] [[Event.done passed failed skipped]] :=
    .cons (hostDecode_done mode passed failed skipped) .nil
  have hall := hostDecode_messages
    (List.rel_append (hparts.imp fun _ _ hm => hm.1) hdone)
  rw [hall, List.flatten_append]
  rfl

/-- One message that cannot be read spoils the output. -/
theorem hostDecode_spoilt {mode : Mode} {ms : List Msg} {m : Msg} (hm : m ∈ ms)
    (hspoilt : (hostDecode mode (emit mode m).flatten).isOk = false) (events : List Event) :
    hostDecode mode (ms.flatMap fun m => (emit mode m).flatten) ≠ .ok events := by
  intro hok
  have hpieces : ∀ piece ∈ ms.map fun m => (emit mode m).flatten, Whole mode piece := by
    intro piece hpiece
    obtain ⟨n, -, rfl⟩ := List.mem_map.mp hpiece
    exact whole_emit mode n
  rw [List.flatMap_def] at hok
  have hread := ((hostDecode_flatten hpieces events).mp hok).1 _ (List.mem_map_of_mem hm)
  rw [hspoilt] at hread
  cases hread

section Ledger

variable {p : Program ω} {mode : Mode} {sel : Env → Case → Bool} {s : Sys ω}
  {new early : List Step} {vs : List Visit}

theorem Ledger.case_mem (h : Ledger p (OneLine mode) sel s new early vs) {v : Visit}
    (hv : v ∈ vs) : v.case ∈ registered p s := by
  have hmem : v.case ∈ vs.map Visit.case := List.mem_map_of_mem hv
  rw [h.cases] at hmem
  exact (sortCases_perm _).mem_iff.mp (List.mem_filter.mp hmem).1

theorem Ledger.length_le (h : Ledger p (OneLine mode) sel s new early vs) :
    vs.length ≤ (registered p s).length := by
  have hle := List.length_filter_le (sel (prepare p s).g.env) (sortCases (registered p s))
  rw [← h.cases, List.length_map, (sortCases_perm _).length_eq] at hle
  exact hle

/-- The messages of a run stay on their lines, and their names fit. -/
theorem Ledger.sends (h : Ledger p (OneLine mode) sel s new early vs)
    (hids : ∀ t ∈ registered p s, Sends mode t.id) (hcur : Sends mode s.g.cur) {m : Msg}
    (hm : m ∈ messages early ++ vs.flatMap Visit.msgs) :
    OneLine mode m ∧ ∀ id, msgCase m = some id → Sends mode id := by
  rcases List.mem_append.mp hm with hm | hm
  · exact sends_outside hcur (h.early m hm)
  · obtain ⟨v, hv, hm⟩ := List.mem_flatMap.mp hm
    exact sends_visit (hids v.case (h.case_mem hv)) (h.visits v hv) hm

theorem Ledger.output_eq (h : Ledger p (OneLine mode) sel s new early vs) :
    output mode new =
      ((.banner :: (messages early ++ vs.flatMap Visit.msgs)) ++ [doneOf vs]).flatMap
        fun m => (emit mode m).flatten := by
  rw [Wire.output_eq, h.messages_eq]
  rfl

/-- A run whose messages are all heard: the rows against the counters. -/
theorem Ledger.junitAgrees_heard (h : Ledger p (OneLine mode) sel s new early vs)
    (hsmall : vs.length < 2 ^ 32)
    (hheard : ∀ m ∈ messages early ++ vs.flatMap Visit.msgs, Heard mode m) :
    JunitAgrees mode new ↔
      strayRows mode s.g.cur early vs + (lasting (Visit.key mode) vs).length = vs.length ∧
        strayRows mode s.g.cur early vs +
            (lasting (Visit.key mode) vs).countP (fun v => v.final mode = .failed) =
          counted vs .failed := by
  have hcounters : ∀ status,
      (UInt32.ofNat (counted vs status)).toNat = counted vs status := by
    intro status
    have hle : counted vs status ≤ vs.length := List.countP_le_length
    rw [UInt32.toNat_ofNat', Nat.mod_eq_of_lt (by omega)]
  have hbanner : Heard mode .banner := by
    refine heard (fun _ heq => ?_) ?_ ?_
    · cases heq
    · cases mode <;> trivial
    · cases mode <;> exact id
  obtain ⟨events, hdecode, hwrites⟩ := hostDecode_ledger
    (UInt32.ofNat (counted vs .passed)) (UInt32.ofNat (counted vs .failed))
    (UInt32.ofNat (counted vs .skipped)) (List.forall_mem_cons.mpr ⟨hbanner, hheard⟩)
  have hok : hostDecode mode (output mode new) = .ok (events ++
      [.done (UInt32.ofNat (counted vs .passed)) (UInt32.ofNat (counted vs .failed))
        (UInt32.ofNat (counted vs .skipped))]) := h.output_eq ▸ hdecode
  have hrows : Rows mode s.g.cur early vs (JunitReporter.receive (events ++
      [.done (UInt32.ofNat (counted vs .passed)) (UInt32.ofNat (counted vs .failed))
        (UInt32.ofNat (counted vs .skipped))])) := by
    refine rows_of_visits h.early h.visits ?_
    rw [List.filterMap_append, hwrites]
    exact List.append_nil _
  rw [junitAgrees_of_ok hok, hrows.tests, hrows.failures, hcounters, hcounters, hcounters,
    counted_total]

/-- A run with a message that cannot be read. -/
theorem Ledger.not_junitAgrees (h : Ledger p (OneLine mode) sel s new early vs) {m : Msg}
    (hm : m ∈ messages early ++ vs.flatMap Visit.msgs)
    (hspoilt : (hostDecode mode (emit mode m).flatten).isOk = false) :
    ¬JunitAgrees mode new := by
  rintro ⟨events, front, passed, failed, skipped, hok, -⟩
  have hin : m ∈ (.banner :: (messages early ++ vs.flatMap Visit.msgs)) ++ [doneOf vs] :=
    List.mem_append_left _ (List.mem_cons_of_mem _ hm)
  rw [h.output_eq] at hok
  exact hostDecode_spoilt hin hspoilt events hok

end Ledger

/-- The JUnit report agrees with the counters of the run exactly when no fixture of a
suite fails behind a case that did not fail or in front of the first case, and no two
cases have the same names on the host, up to one stray row for one lost row of a failed
case; and when the frames of all failing assertions can be read. -/
theorem junitAgrees_iff {p : Program ω} {mode : Mode} (hcalls : CallsOnly p (LineCall mode))
    (sel : Env → Case → Bool) {s : Sys ω} (hids : ∀ t ∈ registered p s, Sends mode t.id)
    (hcur : Sends mode s.g.cur) (hsmall : (registered p s).length < 2 ^ 32) :
    ∃ new early vs, (runFiltered p sel s).1.trace = s.trace ++ new ∧
      Ledger p (OneLine mode) sel s new early vs ∧
      (JunitAgrees mode new ↔ Agreeing mode s.g.cur early vs) := by
  have hspeaks : CallsOnly p (Speaks (OneLine mode)) := fun f w c hc =>
    (hcalls f w c hc).speaks
  obtain ⟨new, early, vs, htrace, hledger⟩ := runFiltered_ledger hspeaks sel
    fun t ht => oneLine_suites (hids t ht)
  refine ⟨new, early, vs, htrace, hledger, ?_⟩
  by_cases hgarbled : ∀ m ∈ messages early ++ vs.flatMap Visit.msgs, ¬Garbled mode m
  · have hheard : ∀ m ∈ messages early ++ vs.flatMap Visit.msgs, Heard mode m :=
      fun m hm => heard (hledger.sends hids hcur hm).2 (hledger.sends hids hcur hm).1
        (hgarbled m hm)
    have hlen := Nat.lt_of_le_of_lt hledger.length_le hsmall
    rw [hledger.junitAgrees_heard hlen hheard, counts_iff]
    constructor
    · rintro ⟨hnames, hcovered, hlate⟩
      exact ⟨hgarbled, hnames, hcovered, hlate⟩
    · exact fun hagreeing => ⟨hagreeing.names, hagreeing.covered, hagreeing.late⟩
  · obtain ⟨m, hm, hnot⟩ : ∃ m ∈ messages early ++ vs.flatMap Visit.msgs,
        Garbled mode m := by
      simpa using hgarbled
    have hspoilt := hostDecode_garbled (hledger.sends hids hcur hm).2 hnot
    constructor
    · exact fun hagrees => absurd hagrees (hledger.not_junitAgrees hm hspoilt)
    · exact fun hagreeing => absurd hagreeing.readable hgarbled

/-- A case that fails in its body. -/
theorem junitAgrees_iff_math :
    ∃ new early vs, (runFiltered (bodyCalls [.failAt none 7 none]) matchAll
        mathSys).1.trace = mathSys.trace ++ new ∧
      Ledger (bodyCalls [.failAt none 7 none]) (OneLine .text) matchAll mathSys new early vs ∧
      (JunitAgrees .text new ↔ Agreeing .text mathSys.g.cur early vs) := by
  refine junitAgrees_iff (bodyCalls_only ?_) matchAll ?_ ?_ (by decide)
  · intro c hc
    rw [List.mem_singleton.mp hc]
    exact ⟨rfl, fun _ => by decide⟩
  · intro t ht
    rw [List.mem_singleton.mp ht]
    exact ⟨plain_mathCase, by decide⟩
  · have hunknown : PlainName (some (orUnknown none)) :=
      ⟨_, rfl, List.all_eq_true.mp (by decide)⟩
    exact ⟨⟨hunknown, hunknown, hunknown⟩, by decide⟩

/-! ## Where the totals differ -/

/-- The suite `Math` with a case that does nothing, and with fixtures. -/
def suiteSys (setup teardown : Option FnId) : Sys Unit :=
  Sys.call (Sys.call ⟨.init, (), []⟩ (.register (some { mathCase with fn := none })))
    (.registerSuite (some ⟨2, some (CStr.lit "Math"), setup, teardown, none⟩))

/-- What a run adds to the trace when the function 1 makes a failing assertion. -/
def failingTrace (s : Sys Unit) : List Step :=
  (runFiltered (bodyCalls [.failAt none 9 none]) matchAll s).1.trace.drop s.trace.length

/-- A teardown that fails behind a case that passed makes its row a failure, and the
counters have none.  A setup that fails in front of the first case has a row of its
own, and the counters have one case. -/
theorem failingFixture_totals :
    (∃ new, (runFiltered (bodyCalls [.failAt none 9 none]) matchAll
        (suiteSys none (some 1))).1.trace = (suiteSys none (some 1)).trace ++ new ∧
      ¬JunitAgrees .binary new ∧ ¬JunitAgrees .text new) ∧
    ∃ new, (runFiltered (bodyCalls [.failAt none 9 none]) matchAll
        (suiteSys (some 1) none)).1.trace = (suiteSys (some 1) none).trace ++ new ∧
      ¬JunitAgrees .binary new := by
  refine ⟨⟨failingTrace (suiteSys none (some 1)), by decide +kernel, ?_, ?_⟩,
    ⟨failingTrace (suiteSys (some 1) none), by decide +kernel, ?_⟩⟩
  · rw [@junitAgrees_of_ok .binary _ [.suiteStart "Math".toList,
      .caseStart "Math".toList "ops.add".toList,
      .caseEnd "Math".toList "ops.add".toList .passed,
      .assertFail "Math".toList "ops.add".toList [] 9 "fail".toList,
      .suiteEnd "Math".toList 1 0 0] 1 0 0 (by decide +kernel)]
    decide +kernel
  · rw [@junitAgrees_of_ok .text _ [.suiteStart "Math".toList,
      .caseStart "Math".toList "ops.add".toList,
      .caseEnd "Math".toList "ops.add".toList .passed,
      .assertFail "Math".toList "ops.add".toList "?:9".toList 0 "fail".toList,
      .suiteEnd "Math".toList 1 0 0] 1 0 0 (by decide +kernel)]
    decide +kernel
  · rw [@junitAgrees_of_ok .binary _ [.assertFail [] "?.?".toList [] 9 "fail".toList,
      .suiteStart "Math".toList, .caseStart "Math".toList "ops.add".toList,
      .caseEnd "Math".toList "ops.add".toList .passed,
      .suiteEnd "Math".toList 1 0 0] 1 0 0 (by decide +kernel)]
    decide +kernel

end PolyOnTest.Run
