import Mathlib.Data.List.Induction
import Mathlib.Data.List.Nodup
import Mathlib.Data.List.Perm.Subperm
import PolyOnTest.Builtins.TextCodec

/-!
# Summary lines

Which lines the text codec takes for a `Done` or a `SuiteEnd` event, and where
their counters come from.  A counter is the number in the last word with its
key.  A word behind the key that is no number counts as zero, and so does a key
that is not there.

`summarySound_iff` says which lines the codec should have taken as it does.
-/

namespace PolyOnTest.Builtins

open CodeLib

/-- The counters of a summary. -/
inductive Counter
  | passed
  | failed
  | skipped
  deriving DecidableEq, Repr

/-- The counters in the order of the summary lines. -/
def Counter.all : List Counter := [.passed, .failed, .skipped]

/-- The text in front of a number. -/
def Counter.key : Counter → Str
  | .passed => "passed=".toList
  | .failed => "failed=".toList
  | .skipped => "skipped=".toList

/-- The local of `parse_text_line` for a counter. -/
def Counters.value (n : Counters) : Counter → UInt32
  | .passed => n.passed
  | .failed => n.failed
  | .skipped => n.skipped

/-- The number of a numeral.  There is none for other text, and none for a number
past `u32::MAX`. -/
def numeralValue (v : Str) : Option UInt32 :=
  (Text.parseUnsigned 4294967295 v).map UInt32.ofNat

/-- The texts behind the key of a counter, in the order of the words. -/
def valuesOf (k : Counter) (words : List Str) : List Str :=
  words.filterMap (Text.stripPrefix k.key)

/-! ## What a summary line should be -/

/-- A word has the key and a numeral of the counter. -/
def HasNumeral (words : List Str) (k : Counter) (v : UInt32) : Prop :=
  ∃ t, k.key ++ t ∈ words ∧ numeralValue t = some v

/-- The counter is missing, or a word has its key and no numeral. -/
def Broken (words : List Str) (k : Counter) : Prop :=
  (∀ t, k.key ++ t ∉ words) ∨ ∃ t, k.key ++ t ∈ words ∧ numeralValue t = none

/-- The words are the three fields of the counters, in any order, and no others. -/
def ThreeFields (words : List Str) (n : Counters) : Prop :=
  ∃ t : Counter → Str, words.Perm (Counter.all.map fun k => k.key ++ t k) ∧
    ∀ k, numeralValue (t k) = some (n.value k)

/-- A line that gives a summary event has the counters of the event as numerals.
No zero of a `Done` stands for a broken counter, and a `SUITE_END` has a name and
the three fields. -/
structure SummarySound (line : Str) : Prop where
  done : ∀ n : Counters,
    parseTextLine line = some (.done n.passed n.failed n.skipped) →
    ∃ rest, line = "DONE ".toList ++ rest ∧
      ∀ k, HasNumeral (Text.splitWhitespace rest) k (n.value k) ∧
        ¬ (Broken (Text.splitWhitespace rest) k ∧ n.value k = 0)
  suiteEnd : ∀ (name : Str) (n : Counters),
    parseTextLine line = some (.suiteEnd name n.passed n.failed n.skipped) →
    ∃ rest words, line = "SUITE_END ".toList ++ rest ∧
      Text.splitWhitespace rest = name :: words ∧ ThreeFields words n

/-! ## What the codec takes -/

/-- The last word with the key of the counter has a numeral.  If it is zero, then
every word with this key has one. -/
def Complete (words : List Str) (k : Counter) : Prop :=
  ∃ t ∈ (valuesOf k words).getLast?, ∃ v ∈ numeralValue t,
    v = 0 → ∀ t' ∈ valuesOf k words, (numeralValue t').isSome

/-- There are three words, and for each counter one with its key and a numeral. -/
def Exact (words : List Str) : Prop :=
  words.length = 3 ∧ ∀ k, ∃ t ∈ valuesOf k words, (numeralValue t).isSome

/-- The words behind `DONE` and behind the name of a `SUITE_END`. -/
structure WellFormed (line : Str) : Prop where
  done : ∀ rest, line = "DONE ".toList ++ rest →
    ∀ k, Complete (Text.splitWhitespace rest) k
  suiteEnd : ∀ rest name words, line = "SUITE_END ".toList ++ rest →
    Text.splitWhitespace rest = name :: words → Exact words

/-! ## The counters -/

theorem mem_valuesOf {k : Counter} {words : List Str} {t : Str} :
    t ∈ valuesOf k words ↔ k.key ++ t ∈ words := by
  unfold valuesOf
  rw [List.mem_filterMap]
  constructor
  · rintro ⟨word, hword, hstrip⟩
    rw [Text.stripPrefix_eq_some] at hstrip
    rwa [← hstrip]
  · intro h
    exact ⟨_, h, Text.stripPrefix_append _ _⟩

/-- A word has one key at most. -/
theorem stripPrefix_key {k k' : Counter} (hk : k ≠ k') (t : Str) :
    Text.stripPrefix k.key (k'.key ++ t) = none := by
  cases k <;> cases k' <;> unfold Counter.key <;>
    first | exact absurd rfl hk | simp [Text.stripPrefix]

theorem parseCounter_eq (v : Str) : parseCounter v = (numeralValue v).getD 0 := by
  unfold parseCounter numeralValue
  generalize Text.parseUnsigned 4294967295 v = read
  cases read <;> rfl

/-- One word of the loop. -/
theorem readCounter_value (n : Counters) (p : Str) (k : Counter) :
    (readCounter n p).value k =
      match Text.stripPrefix k.key p with
      | some v => (numeralValue v).getD 0
      | none => n.value k := by
  have hother : ∀ k' v, Text.stripPrefix (Counter.key k') p = some v → k ≠ k' →
      Text.stripPrefix k.key p = none := by
    intro k' v hv hk
    rw [Text.stripPrefix_eq_some.mp hv]
    exact stripPrefix_key hk v
  unfold readCounter
  split
  · next v hv =>
    have hv' : Text.stripPrefix (Counter.key .passed) p = some v := hv
    cases k with
    | passed => rw [hv']; exact parseCounter_eq v
    | failed => rw [hother _ v hv' (by decide)]; rfl
    | skipped => rw [hother _ v hv' (by decide)]; rfl
  · next hpassed =>
    have hp : Text.stripPrefix (Counter.key .passed) p = none := hpassed
    split
    · next v hv =>
      have hv' : Text.stripPrefix (Counter.key .failed) p = some v := hv
      cases k with
      | passed => rw [hp]; rfl
      | failed => rw [hv']; exact parseCounter_eq v
      | skipped => rw [hother _ v hv' (by decide)]; rfl
    · next hfailed =>
      have hf : Text.stripPrefix (Counter.key .failed) p = none := hfailed
      split
      · next v hv =>
        have hv' : Text.stripPrefix (Counter.key .skipped) p = some v := hv
        cases k with
        | passed => rw [hp]; rfl
        | failed => rw [hf]; rfl
        | skipped => rw [hv']; exact parseCounter_eq v
      · next hskipped =>
        have hs : Text.stripPrefix (Counter.key .skipped) p = none := hskipped
        cases k with
        | passed => rw [hp]
        | failed => rw [hf]
        | skipped => rw [hs]

/-- The counters behind the loop, by induction on the words from the last one. -/
theorem readCounters_value (words : List Str) (k : Counter) :
    (readCounters words).value k =
      ((valuesOf k words).getLast?.bind numeralValue).getD 0 := by
  induction words using List.reverseRecOn with
  | nil => cases k <;> rfl
  | append_singleton words p ih =>
      have hstep : readCounters (words ++ [p]) = readCounter (readCounters words) p := by
        unfold readCounters
        rw [List.foldl_append]
        rfl
      have hvalues : valuesOf k (words ++ [p]) =
          valuesOf k words ++ (Text.stripPrefix k.key p).toList := by
        unfold valuesOf
        rw [List.filterMap_append]
        cases hp : Text.stripPrefix k.key p <;> simp [hp]
      rw [hstep, readCounter_value, hvalues]
      cases Text.stripPrefix k.key p with
      | none => simpa using ih
      | some v => simp

/-! ## The lines of a summary event -/

/-- An event with counters. -/
def isSummary : Event → Bool
  | .suiteEnd .. => true
  | .done .. => true
  | _ => false

theorem map_case_not_summary {rest : Str} {f : Str × Str → Event} {e : Event}
    (hf : ∀ parts, isSummary (f parts) = false)
    (h : (splitSuiteCase rest).map f = some e) : isSummary e = false := by
  obtain ⟨parts, -, rfl⟩ := Option.map_eq_some_iff.mp h
  exact hf parts

theorem parseFail_not_summary {rest : Str} {e : Event} (h : parseFail rest = some e) :
    isSummary e = false := by
  unfold parseFail at h
  split at h
  · cases h
  · obtain ⟨⟨suite, name⟩, -, h⟩ := Option.bind_eq_some_iff.mp h
    dsimp only at h
    split_ifs at h <;> cases h <;> rfl

/-- The branches of `parse_text_line` that give a summary event. -/
theorem parseTextLine_cases {line : Str} {e : Event} (h : parseTextLine line = some e) :
    (∃ rest, line = "DONE ".toList ++ rest ∧ e = parseDone rest) ∨
      (∃ rest, line = "SUITE_END ".toList ++ rest ∧ parseSuiteEnd rest = some e) ∨
        isSummary e = false := by
  unfold parseTextLine at h
  split_ifs at h
  split at h
  · cases h
    exact Or.inr (Or.inr rfl)
  split at h
  · exact Or.inr (Or.inr (map_case_not_summary (fun _ => rfl) h))
  split at h
  · next rest hrest =>
    exact Or.inr (Or.inl ⟨rest, Text.stripPrefix_eq_some.mp hrest, h⟩)
  split at h
  · next rest hrest =>
    cases h
    exact Or.inl ⟨rest, Text.stripPrefix_eq_some.mp hrest, rfl⟩
  split at h
  · exact Or.inr (Or.inr (map_case_not_summary (fun _ => rfl) h))
  split at h
  · exact Or.inr (Or.inr (map_case_not_summary (fun _ => rfl) h))
  split at h
  · exact Or.inr (Or.inr (parseFail_not_summary h))
  · cases h

theorem parseTextLine_eq_done {line : Str} {n : Counters}
    (h : parseTextLine line = some (.done n.passed n.failed n.skipped)) :
    ∃ rest, line = "DONE ".toList ++ rest ∧
      n = readCounters (Text.splitWhitespace rest) := by
  rcases parseTextLine_cases h with ⟨rest, hline, he⟩ | ⟨rest, -, he⟩ | hsummary
  · refine ⟨rest, hline, ?_⟩
    unfold parseDone at he
    injection he with hpassed hfailed hskipped
    rcases n with ⟨p, f, s⟩
    simp only at hpassed hfailed hskipped
    rw [hpassed, hfailed, hskipped]
  · unfold parseSuiteEnd at he
    split at he <;> cases he
  · cases hsummary

theorem parseTextLine_eq_suiteEnd {line name : Str} {n : Counters}
    (h : parseTextLine line = some (.suiteEnd name n.passed n.failed n.skipped)) :
    ∃ rest words, line = "SUITE_END ".toList ++ rest ∧
      Text.splitWhitespace rest = name :: words ∧ n = readCounters words := by
  rcases parseTextLine_cases h with ⟨rest, -, he⟩ | ⟨rest, hline, he⟩ | hsummary
  · cases he
  · unfold parseSuiteEnd at he
    split at he
    · cases he
    · next name' words hwords =>
      injection he with he
      injection he with hname hpassed hfailed hskipped
      refine ⟨rest, words, hline, by rw [hwords, hname], ?_⟩
      rcases n with ⟨p, f, s⟩
      simp only at hpassed hfailed hskipped
      rw [← hpassed, ← hfailed, ← hskipped]
  · cases hsummary

/-! ## When the counters are as they should be -/

theorem hasNumeral_iff {words : List Str} {k : Counter} {v : UInt32} :
    HasNumeral words k v ↔ ∃ t ∈ valuesOf k words, numeralValue t = some v := by
  simp only [HasNumeral, mem_valuesOf]

theorem broken_iff {words : List Str} {k : Counter} :
    Broken words k ↔
      valuesOf k words = [] ∨ ∃ t ∈ valuesOf k words, numeralValue t = none := by
  simp only [Broken, ← mem_valuesOf, List.eq_nil_iff_forall_not_mem]

/-- A `Done` is as it should be for a counter exactly when its words are complete. -/
theorem complete_iff (words : List Str) (k : Counter) :
    HasNumeral words k ((readCounters words).value k) ∧
        ¬ (Broken words k ∧ (readCounters words).value k = 0) ↔ Complete words k := by
  rw [hasNumeral_iff, broken_iff, readCounters_value, Complete]
  cases hlast : (valuesOf k words).getLast? with
  | none =>
    have hnil : valuesOf k words = [] := List.getLast?_eq_none_iff.mp hlast
    simp [hnil]
  | some t =>
    have hmem : t ∈ valuesOf k words := List.mem_of_getLast? hlast
    rw [Option.bind_some]
    constructor
    · rintro ⟨-, hsound⟩
      cases hvalue : numeralValue t with
      | none =>
        -- the default of a broken last word is a zero
        exact absurd ⟨Or.inr ⟨t, hmem, hvalue⟩, by rw [hvalue]; rfl⟩ hsound
      | some v =>
        refine ⟨t, rfl, v, hvalue, fun hzero t' ht' => ?_⟩
        by_contra hnone
        refine hsound ⟨Or.inr ⟨t', ht', Option.not_isSome_iff_eq_none.mp hnone⟩, ?_⟩
        rw [hvalue, hzero]
        rfl
    · rintro ⟨t', ht', v, hvalue, hzero⟩
      obtain rfl : t = t' := Option.some.inj ht'
      have hv : numeralValue t = some v := hvalue
      have hcounter : (numeralValue t).getD 0 = v := by rw [hv]; rfl
      rw [hcounter]
      refine ⟨⟨t, hmem, hv⟩, ?_⟩
      rintro ⟨hnil | ⟨t', ht', hnone⟩, hv0⟩
      · rw [hnil] at hmem
        exact List.not_mem_nil hmem
      · have hsome := hzero hv0 t' ht'
        rw [hnone] at hsome
        exact Bool.false_ne_true hsome

/-- The fields of different counters are different words. -/
theorem fields_nodup (t : Counter → Str) :
    (Counter.all.map fun k => k.key ++ t k).Nodup := by
  refine List.Nodup.map_on ?_ (by decide)
  intro k _ k' _ hfield
  by_contra hk
  have hstrip := stripPrefix_key hk (t k')
  rw [← hfield, Text.stripPrefix_append] at hstrip
  cases hstrip

/-- Among the three fields, one is the field of the counter. -/
theorem valuesOf_fields {words : List Str} {t : Counter → Str}
    (h : words.Perm (Counter.all.map fun k => k.key ++ t k)) (k : Counter) :
    valuesOf k words = [t k] := by
  have hperm : (valuesOf k words).Perm
      (valuesOf k (Counter.all.map fun k => k.key ++ t k)) := h.filterMap _
  have hfields : valuesOf k (Counter.all.map fun k => k.key ++ t k) = [t k] := by
    unfold valuesOf Counter.all
    cases k <;>
      simp only [List.map_cons, List.map_nil, List.filterMap_cons, List.filterMap_nil,
        Text.stripPrefix_append, stripPrefix_key, ne_eq, reduceCtorEq, not_false_eq_true]
  rw [hfields] at hperm
  exact List.perm_singleton.mp hperm

/-- The words of a `SuiteEnd` are the three fields of its counters exactly when
there are three, with a numeral for each key. -/
theorem exact_iff (words : List Str) :
    ThreeFields words (readCounters words) ↔ Exact words := by
  constructor
  · rintro ⟨t, hperm, hnumeral⟩
    refine ⟨hperm.length_eq, fun k => ⟨t k, ?_, ?_⟩⟩
    · rw [valuesOf_fields hperm k]
      exact List.mem_singleton_self _
    · rw [hnumeral k]
      rfl
  · rintro ⟨hthree, hsome⟩
    choose t ht hnumeral using hsome
    -- three different words among three are all of them
    have hfields : (Counter.all.map fun k => k.key ++ t k) ⊆ words := by
      intro word hword
      obtain ⟨k, -, rfl⟩ := List.mem_map.mp hword
      exact mem_valuesOf.mp (ht k)
    have hperm : words.Perm (Counter.all.map fun k => k.key ++ t k) :=
      ((List.subperm_of_subset (fields_nodup t) hfields).perm_of_length_le
        (le_of_eq hthree)).symm
    refine ⟨t, hperm, fun k => ?_⟩
    obtain ⟨v, hv⟩ := Option.isSome_iff_exists.mp (hnumeral k)
    rw [readCounters_value, valuesOf_fields hperm k, hv]
    show some v = some ((numeralValue (t k)).getD 0)
    rw [hv]
    rfl

theorem done_of_words (rest : Str) :
    parseTextLine ("DONE ".toList ++ rest) =
      some (.done (readCounters (Text.splitWhitespace rest)).passed
        (readCounters (Text.splitWhitespace rest)).failed
        (readCounters (Text.splitWhitespace rest)).skipped) :=
  parseTextLine_done rest

theorem suiteEnd_of_words {rest name : Str} {words : List Str}
    (h : Text.splitWhitespace rest = name :: words) :
    parseTextLine ("SUITE_END ".toList ++ rest) =
      some (.suiteEnd name (readCounters words).passed (readCounters words).failed
        (readCounters words).skipped) := by
  rw [parseTextLine_suiteEnd, parseSuiteEnd, h]

/-- The codec takes a line for a summary event as it should exactly when it is
well formed: a `DONE` ends each counter with a numeral and has no broken word of a
zero counter, and a `SUITE_END` has three words behind the name. -/
theorem summarySound_iff (line : Str) : SummarySound line ↔ WellFormed line := by
  constructor
  · rintro ⟨hdone, hend⟩
    constructor
    · rintro rest rfl k
      obtain ⟨rest', hrest, hall⟩ := hdone _ (done_of_words rest)
      obtain rfl := List.append_cancel_left hrest
      exact (complete_iff _ k).mp (hall k)
    · rintro rest name words rfl hwords
      obtain ⟨rest', words', hrest, hwords', hall⟩ := hend _ _ (suiteEnd_of_words hwords)
      obtain rfl := List.append_cancel_left hrest
      obtain ⟨-, rfl⟩ : name = name ∧ words = words' := by
        rw [hwords] at hwords'
        exact ⟨rfl, (List.cons.inj hwords').2⟩
      exact (exact_iff _).mp hall
  · rintro ⟨hdone, hend⟩
    constructor
    · intro n hn
      obtain ⟨rest, rfl, rfl⟩ := parseTextLine_eq_done hn
      exact ⟨rest, rfl, fun k => (complete_iff _ k).mpr (hdone rest rfl k)⟩
    · intro name n hn
      obtain ⟨rest, words, rfl, hwords, rfl⟩ := parseTextLine_eq_suiteEnd hn
      exact ⟨rest, words, rfl, hwords, (exact_iff _).mpr (hend rest name words rfl hwords)⟩

/-- A last line with a number that is none. -/
def junkFailed : Str := "DONE passed=3 failed=x skipped=0".toList

/-- The codec takes the line for a run without failures. -/
theorem junkFailed_done :
    parseTextLine junkFailed = some (.done 3 0 0) ∧ ¬ SummarySound junkFailed := by
  have hparse : parseTextLine junkFailed = some (.done 3 0 0) := by decide +kernel
  refine ⟨hparse, fun h => ?_⟩
  obtain ⟨rest, hrest, hall⟩ := h.done ⟨3, 0, 0⟩ hparse
  have hline : junkFailed = "DONE ".toList ++ "passed=3 failed=x skipped=0".toList := by
    decide +kernel
  have hwords : valuesOf .failed (Text.splitWhitespace rest) = ["x".toList] := by
    rw [← List.append_cancel_left (hline.symm.trans hrest)]
    decide +kernel
  obtain ⟨t, ht, hvalue⟩ := hasNumeral_iff.mp (hall .failed).1
  rw [hwords, List.mem_singleton] at ht
  rw [ht] at hvalue
  exact absurd hvalue (by decide +kernel)

end PolyOnTest.Builtins
