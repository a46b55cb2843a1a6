import PolyOnTest.Builtins.Junit
import PolyOnTest.CodeLib.Decimal
import PolyOnTest.CodeLib.Encoding

/-!
# What the JUnit file says

The text of `JunitReporter::finish` is read back from left to right: an escaped
attribute ends at its quotation mark, a row starts with a blank, and the end of
the file does not (`docText_selfDelimiting`).  So the file determines what it
shows of the rows, and nothing else (`report_eq_iff`).

`xmlEscape_safe` is about the escaping alone: what an escaped string can
contain, and that `unescape` takes it back.

It shows whether a case failed.  It does not show whether a case that did not
fail passed or was skipped, and `report_entries_iff` says that this is all that
is lost.
-/

namespace PolyOnTest.Builtins

open CodeLib CodeLib.Encoding

/-! ## Escaping -/

/-- The text for a character. -/
def escapeChar (c : Char) : Str :=
  if c = '&' then "&amp;".toList
  else if c = '<' then "&lt;".toList
  else if c = '>' then "&gt;".toList
  else if c = '"' then "&quot;".toList
  else [c]

/-- Reads the text for a character. -/
def readChar : Str → Option (Char × Str)
  | '&' :: 'a' :: 'm' :: 'p' :: ';' :: rest => some ('&', rest)
  | '&' :: 'l' :: 't' :: ';' :: rest => some ('<', rest)
  | '&' :: 'g' :: 't' :: ';' :: rest => some ('>', rest)
  | '&' :: 'q' :: 'u' :: 'o' :: 't' :: ';' :: rest => some ('"', rest)
  | c :: rest => some (c, rest)
  | [] => none

/-- The four replacements are one, because none of them touches the text that an
earlier one put in. -/
theorem xmlEscape_eq (s : Str) : JunitReporter.xmlEscape s = s.flatMap escapeChar := by
  simp only [JunitReporter.xmlEscape, JunitReporter.replaceChar, List.flatMap_assoc]
  refine List.flatMap_congr fun c _ => ?_
  unfold escapeChar
  split_ifs with hamp hlt hgt hquot
  · rfl
  · rw [hlt]
    rfl
  · rw [hgt]
    rfl
  · rw [hquot]
    rfl
  · simp only [List.flatMap_cons, List.flatMap_nil, List.append_nil, hlt, hgt, hquot, if_false]

theorem escapeChar_selfDelimiting : SelfDelimiting escapeChar := by
  refine @SelfDelimiting.of_read Char Char escapeChar readChar fun c rest => ?_
  unfold escapeChar
  split_ifs with hamp hlt hgt hquot
  · rw [hamp]
    rfl
  · rw [hlt]
    rfl
  · rw [hgt]
    rfl
  · rw [hquot]
    rfl
  · simp [readChar, hamp]

theorem escapeChar_apart (c : Char) : Apart (escapeChar c) ['"'] := by
  unfold escapeChar
  split_ifs with hamp hlt hgt hquot
  · exact Apart.of_head (by decide) _ _
  · exact Apart.of_head (by decide) _ _
  · exact Apart.of_head (by decide) _ _
  · exact Apart.of_head (by decide) _ _
  · exact Apart.of_head hquot _ _

/-! ## Escaped text -/

/-- The texts that replace a character. -/
def entities : List Str :=
  ["&amp;".toList, "&lt;".toList, "&gt;".toList, "&quot;".toList]

/-- The entities replaced back, from left to right.  A `&` in front of anything
else stays. -/
def unescape : Str → Str
  | '&' :: 'a' :: 'm' :: 'p' :: ';' :: rest => '&' :: unescape rest
  | '&' :: 'l' :: 't' :: ';' :: rest => '<' :: unescape rest
  | '&' :: 'g' :: 't' :: ';' :: rest => '>' :: unescape rest
  | '&' :: 'q' :: 'u' :: 'o' :: 't' :: ';' :: rest => '"' :: unescape rest
  | c :: rest => c :: unescape rest
  | [] => []

/-- A character with a meaning of its own in the file. -/
def Markup (c : Char) : Prop := c = '<' ∨ c = '>' ∨ c = '"'

/-- What stands for a character: an entity, or a character without a meaning. -/
theorem escapeChar_cases (c : Char) :
    escapeChar c ∈ entities ∨ escapeChar c = [c] ∧ c ≠ '&' ∧ ¬ Markup c := by
  unfold escapeChar
  split_ifs with hamp hlt hgt hquot
  · exact .inl (by decide)
  · exact .inl (by decide)
  · exact .inl (by decide)
  · exact .inl (by decide)
  · exact .inr ⟨rfl, hamp, fun h => h.elim hlt fun h => h.elim hgt hquot⟩

/-- An entity starts with its only `&`. -/
theorem entity_shape {e : Str} (h : e ∈ entities) :
    ∃ name, e = '&' :: name ∧ '&' ∉ name ∧ '<' ∉ e ∧ '>' ∉ e ∧ '"' ∉ e := by
  simp only [entities, List.mem_cons, List.not_mem_nil, or_false] at h
  rcases h with rfl | rfl | rfl | rfl
  · exact ⟨"amp;".toList, by decide⟩
  · exact ⟨"lt;".toList, by decide⟩
  · exact ⟨"gt;".toList, by decide⟩
  · exact ⟨"quot;".toList, by decide⟩

theorem markup_not_mem_escapeChar {c x : Char} (hx : x ∈ escapeChar c) : ¬ Markup x := by
  rcases escapeChar_cases c with hentity | ⟨hc, -, hmarkup⟩
  · obtain ⟨name, -, -, hlt, hgt, hquot⟩ := entity_shape hentity
    rintro (rfl | rfl | rfl)
    · exact hlt hx
    · exact hgt hx
    · exact hquot hx
  · rw [hc, List.mem_singleton] at hx
    exact hx ▸ hmarkup

/-- A `&` in the text for a character is the first character of an entity. -/
theorem escapeChar_amp {c : Char} {front back : Str}
    (h : escapeChar c = front ++ '&' :: back) : front = [] ∧ escapeChar c ∈ entities := by
  rcases escapeChar_cases c with hentity | ⟨hc, hamp, -⟩
  · refine ⟨?_, hentity⟩
    obtain ⟨name, he, hname, -⟩ := entity_shape hentity
    rw [he] at h
    rcases front with _ | ⟨x, front⟩
    · rfl
    · rw [List.cons_append, List.cons.injEq] at h
      exact absurd (h.2 ▸ List.mem_append_right front List.mem_cons_self) hname
  · have hmem : '&' ∈ escapeChar c := h ▸ List.mem_append_right front List.mem_cons_self
    rw [hc, List.mem_singleton] at hmem
    exact absurd hmem.symm hamp

/-- The same in the text for a string, by induction over the string. -/
theorem flatMap_escapeChar_amp {s front back : Str}
    (h : s.flatMap escapeChar = front ++ '&' :: back) :
    ∃ e ∈ entities, e <+: '&' :: back := by
  induction s generalizing front with
  | nil => simp at h
  | cons c s ih =>
    rw [List.flatMap_cons, List.append_eq_append_iff] at h
    rcases h with ⟨more, -, hrest⟩ | ⟨more, hc, hback⟩
    · exact ih hrest
    · rcases more with _ | ⟨x, more⟩
      · exact @ih [] hback.symm
      · rw [List.cons_append, List.cons.injEq] at hback
        obtain ⟨rfl, rfl⟩ := hback
        obtain ⟨rfl, hentity⟩ := escapeChar_amp hc
        refine ⟨escapeChar c, hentity, s.flatMap escapeChar, ?_⟩
        rw [hc]
        rfl

theorem unescape_escapeChar (c : Char) (rest : Str) :
    unescape (escapeChar c ++ rest) = c :: unescape rest := by
  unfold escapeChar
  split_ifs with hamp hlt hgt hquot
  · rw [hamp]
    rfl
  · rw [hlt]
    rfl
  · rw [hgt]
    rfl
  · rw [hquot]
    rfl
  · simp [unescape, hamp]

theorem unescape_flatMap (s : Str) : unescape (s.flatMap escapeChar) = s := by
  induction s with
  | nil => rfl
  | cons c s ih => rw [List.flatMap_cons, unescape_escapeChar, ih]

/-- An escaped string has no character with a meaning of its own, every `&` of
it starts an entity, and the entities replaced back give the string. -/
theorem xmlEscape_safe :
    (∀ s, JunitReporter.xmlEscape s = s.flatMap escapeChar ∧
      (∀ c ∈ JunitReporter.xmlEscape s, c ≠ '<' ∧ c ≠ '>' ∧ c ≠ '"') ∧
      (∀ front back, JunitReporter.xmlEscape s = front ++ '&' :: back →
        ∃ e ∈ entities, e <+: '&' :: back) ∧
      unescape (JunitReporter.xmlEscape s) = s) ∧
    Function.Injective JunitReporter.xmlEscape := by
  have hback : Function.LeftInverse unescape JunitReporter.xmlEscape := fun s => by
    rw [xmlEscape_eq]
    exact unescape_flatMap s
  refine ⟨fun s => ⟨xmlEscape_eq s, fun c hc => ?_, fun front back h => ?_, hback s⟩,
    hback.injective⟩
  · rw [xmlEscape_eq] at hc
    obtain ⟨x, -, hx⟩ := List.mem_flatMap.mp hc
    have hmarkup := markup_not_mem_escapeChar hx
    simp only [Markup, not_or] at hmarkup
    exact hmarkup
  · rw [xmlEscape_eq] at h
    exact flatMap_escapeChar_amp h

/-- A string that holds an entity already. -/
theorem xmlEscape_safe_entity :
    JunitReporter.xmlEscape "<&lt;".toList = "&lt;&amp;lt;".toList ∧
      (∃ e ∈ entities, e <+: "&amp;lt;".toList) ∧
      unescape (JunitReporter.xmlEscape "<&lt;".toList) = "<&lt;".toList :=
  have hall := xmlEscape_safe.1 "<&lt;".toList
  ⟨hall.1.trans (by decide), hall.2.2.1 "&lt;".toList "amp;lt;".toList (by decide),
    hall.2.2.2⟩

/-! ## The text of a row -/

/-- The value of an attribute, up to its second quotation mark. -/
def attrText (s : Str) : Str := s.flatMap escapeChar ++ ['"']

/-- The part of a row for the message of a failed case. -/
def failureText (message : Str) : Str :=
  ">\n    <failure message=\"".toList ++ (attrText message ++ "/>\n  </testcase>\n".toList)

/-- What a row shows: the names, and the message of a failed case. -/
def JunitCase.shown (c : JunitCase) : (Str × Str) × Option Str :=
  (c.key, if c.status = .failed then some (c.message.getD "failed".toList) else none)

/-- The start tag of a row, up to the second quotation mark of the name. -/
def namesText (x : Str × Str) : Str :=
  "  <testcase classname=\"".toList ++ (attrText x.1 ++ (" name=\"".toList ++ attrText x.2))

/-- The rest of a row. -/
def tailText (message : Option Str) : Str :=
  (message.map failureText).getD "/>\n".toList

/-- The text of a row that shows this. -/
def rowText (x : (Str × Str) × Option Str) : Str := namesText x.1 ++ tailText x.2

theorem attrText_eq (s : Str) : attrText s = JunitReporter.xmlEscape s ++ ['"'] := by
  rw [xmlEscape_eq, attrText]

theorem shown_failed {c : JunitCase} (h : c.status = .failed) :
    c.shown = ((c.suite, c.name), some (c.message.getD "failed".toList)) := by
  rw [JunitCase.shown, if_pos h]
  rfl

theorem shown_of_ne {c : JunitCase} (h : c.status ≠ .failed) :
    c.shown = ((c.suite, c.name), none) := by
  rw [JunitCase.shown, if_neg h]
  rfl

theorem caseLines_eq (c : JunitCase) : JunitReporter.caseLines c = rowText c.shown := by
  have hname : "\" name=\"".toList = ['"'] ++ " name=\"".toList := by decide
  have hend : "\"".toList = ['"'] := by decide
  have hclose : "\"/>\n  </testcase>\n".toList = ['"'] ++ "/>\n  </testcase>\n".toList := by
    decide
  by_cases hfailed : c.status = .failed
  · rw [shown_failed hfailed]
    unfold JunitReporter.caseLines rowText namesText tailText failureText
    rw [if_pos hfailed, hname, hend, hclose]
    simp only [Option.map_some, Option.getD_some, attrText_eq, List.append_assoc]
  · rw [shown_of_ne hfailed]
    unfold JunitReporter.caseLines rowText namesText tailText
    rw [if_neg hfailed, hname, hend]
    simp only [Option.map_none, Option.getD_none, attrText_eq, List.append_assoc]

theorem attrText_selfDelimiting : SelfDelimiting attrText :=
  escapeChar_selfDelimiting.list escapeChar_apart

theorem failureText_selfDelimiting : SelfDelimiting failureText :=
  (attrText_selfDelimiting.before _).after _

theorem namesText_selfDelimiting : SelfDelimiting namesText :=
  (attrText_selfDelimiting.pair (attrText_selfDelimiting.after _)).after _

theorem tailText_selfDelimiting : SelfDelimiting tailText := by
  refine failureText_selfDelimiting.option fun message xs ys heq => ?_
  have hhead := congrArg List.head? heq
  cases hhead

theorem rowText_selfDelimiting : SelfDelimiting rowText :=
  namesText_selfDelimiting.pair tailText_selfDelimiting

/-- A row starts with a blank. -/
theorem rowText_apart (x : (Str × Str) × Option Str) :
    Apart (rowText x) "</testsuite>\n".toList := by
  intro xs ys heq
  have hhead := congrArg List.head? heq
  cases hhead

/-! ## The text of the file -/

/-- A numeral, up to the quotation mark behind it. -/
def numberText (n : Nat) : Str := Nat.toDigits 10 n ++ ['"']

theorem numberText_selfDelimiting : SelfDelimiting numberText := by
  refine SelfDelimiting.marked Decimal.toDigits_injective fun n hmem => ?_
  have hdigit : Char.isDigit '"' = true :=
    Nat.isDigit_of_mem_toDigits (by decide) (by decide) hmem
  exact absurd hdigit (by decide)

/-- The text of some rows, up to the end of the file. -/
def rowsText (rows : List ((Str × Str) × Option Str)) : Str :=
  rows.flatMap rowText ++ "</testsuite>\n".toList

/-- The text of a file that shows a suite, two numbers and some rows. -/
def docText (x : Str × Nat × Nat × List ((Str × Str) × Option Str)) : Str :=
  "<?xml version=\"1.0\" encoding=\"UTF-8\"?>\n<testsuite name=\"".toList ++
    (attrText x.1 ++ (" tests=\"".toList ++ (numberText x.2.1 ++
      (" failures=\"".toList ++ (numberText x.2.2.1 ++ (">\n".toList ++ rowsText x.2.2.2))))))

theorem rowsText_selfDelimiting : SelfDelimiting rowsText :=
  rowText_selfDelimiting.list rowText_apart

theorem docText_selfDelimiting : SelfDelimiting docText := by
  have hfailures := numberText_selfDelimiting.pair (rowsText_selfDelimiting.after ">\n".toList)
  have htests := numberText_selfDelimiting.pair (hfailures.after " failures=\"".toList)
  have hsuite := attrText_selfDelimiting.pair (htests.after " tests=\"".toList)
  exact hsuite.after _

theorem report_eq (r : JunitReporter) :
    r.report = docText (r.suite, r.tests, r.failures, r.cases.map JunitCase.shown) := by
  have htests : "\" tests=\"".toList = ['"'] ++ " tests=\"".toList := by decide
  have hfailures : "\" failures=\"".toList = ['"'] ++ " failures=\"".toList := by decide
  have hend : "\">\n".toList = ['"'] ++ ">\n".toList := by decide
  have hrows : r.cases.flatMap JunitReporter.caseLines =
      (r.cases.map JunitCase.shown).flatMap rowText := by
    rw [List.flatMap_map]
    exact List.flatMap_congr fun c _ => caseLines_eq c
  unfold JunitReporter.report docText rowsText numberText
  rw [hrows, htests, hfailures, hend]
  simp only [attrText_eq, List.append_assoc]

/-! ## What the file determines -/

theorem failures_eq_countP (r : JunitReporter) :
    r.failures = (r.cases.map JunitCase.shown).countP (·.2.isSome) := by
  rw [JunitReporter.failures, ← List.countP_eq_length_filter, List.countP_map]
  refine List.countP_congr fun c _ => ?_
  by_cases hfailed : c.status = .failed
  · simp [shown_failed hfailed, hfailed]
  · simp [shown_of_ne hfailed, hfailed]

/-- Two reports are equal exactly when they show the same suite and the same
rows. -/
theorem report_eq_iff (r r' : JunitReporter) :
    r.report = r'.report ↔
      r.suite = r'.suite ∧ r.cases.map JunitCase.shown = r'.cases.map JunitCase.shown := by
  rw [report_eq, report_eq, docText_selfDelimiting.injective.eq_iff]
  simp only [Prod.mk.injEq]
  constructor
  · rintro ⟨hsuite, -, -, hrows⟩
    exact ⟨hsuite, hrows⟩
  · rintro ⟨hsuite, hrows⟩
    have hlen := congrArg List.length hrows
    rw [List.length_map, List.length_map] at hlen
    exact ⟨hsuite, hlen, by rw [failures_eq_countP, failures_eq_countP, hrows], hrows⟩

/-- One case passed and the other one was skipped. -/
def PassedOrSkipped (c c' : JunitCase) : Prop :=
  c.status = .passed ∧ c'.status = .skipped ∨ c.status = .skipped ∧ c'.status = .passed

/-- A row shows everything but this. -/
theorem entry_eq_iff {c c' : JunitCase} (h : c.shown = c'.shown) :
    c.entry = c'.entry ↔ ¬ PassedOrSkipped c c' := by
  obtain ⟨suite, name, status, message⟩ := c
  obtain ⟨suite', name', status', message'⟩ := c'
  obtain ⟨hkey, hmessage⟩ := Prod.mk.inj h
  simp only [JunitCase.entry, Prod.mk.injEq, hkey, true_and, PassedOrSkipped]
  dsimp only at hmessage
  cases status <;> cases status' <;> simp at hmessage ⊢

/-- The reporters show the same, but at some place a case passed in one of them
and was skipped in the other. -/
structure MixedUp (r r' : JunitReporter) : Prop where
  suite : r.suite = r'.suite
  rows : r.cases.map JunitCase.shown = r'.cases.map JunitCase.shown
  status : ∃ (i : Nat) (c c' : JunitCase),
    r.cases[i]? = some c ∧ r'.cases[i]? = some c' ∧ PassedOrSkipped c c'

theorem entries_eq_iff {cs cs' : List JunitCase}
    (h : cs.map JunitCase.shown = cs'.map JunitCase.shown) :
    cs.map JunitCase.entry = cs'.map JunitCase.entry ↔
      ¬ ∃ (i : Nat) (c c' : JunitCase), cs[i]? = some c ∧ cs'[i]? = some c' ∧
        PassedOrSkipped c c' := by
  have hshown : ∀ (i : Nat) (c c' : JunitCase), cs[i]? = some c → cs'[i]? = some c' →
      c.shown = c'.shown := by
    intro i c c' hc hc'
    have hi := congrArg (·[i]?) h
    simp only [List.getElem?_map, hc, hc', Option.map_some, Option.some.injEq] at hi
    exact hi
  constructor
  · rintro heq ⟨i, c, c', hc, hc', hstatus⟩
    have hi := congrArg (·[i]?) heq
    simp only [List.getElem?_map, hc, hc', Option.map_some, Option.some.injEq] at hi
    exact (entry_eq_iff (hshown i c c' hc hc')).mp hi hstatus
  · intro hnone
    have hlen : cs.length = cs'.length := by
      simpa using congrArg List.length h
    refine List.ext_getElem? fun i => ?_
    rw [List.getElem?_map, List.getElem?_map]
    cases hc : cs[i]? with
    | none =>
      have hc' : cs'[i]? = none := by
        rw [List.getElem?_eq_none_iff] at hc ⊢
        omega
      rw [hc']
    | some c =>
      obtain ⟨hi, -⟩ := List.getElem?_eq_some_iff.mp hc
      obtain ⟨c', hc'⟩ : ∃ c', cs'[i]? = some c' :=
        ⟨_, List.getElem?_eq_getElem (hlen ▸ hi)⟩
      rw [hc', Option.map_some, Option.map_some,
        (entry_eq_iff (hshown i c c' hc hc')).mpr fun hstatus =>
          hnone ⟨i, c, c', hc, hc', hstatus⟩]

/-- The file determines the entries, names with any characters included, unless
the reporters differ in nothing but cases that passed and cases that were
skipped. -/
theorem report_entries_iff (evs evs' : List Event) :
    ((JunitReporter.receive evs).report = (JunitReporter.receive evs').report →
        (JunitReporter.receive evs).cases.map JunitCase.entry =
          (JunitReporter.receive evs').cases.map JunitCase.entry) ↔
      ¬ MixedUp (JunitReporter.receive evs) (JunitReporter.receive evs') := by
  rw [report_eq_iff]
  constructor
  · rintro h ⟨hsuite, hrows, hstatus⟩
    exact (entries_eq_iff hrows).mp (h ⟨hsuite, hrows⟩) hstatus
  · rintro hnot ⟨hsuite, hrows⟩
    exact (entries_eq_iff hrows).mpr fun hstatus => hnot ⟨hsuite, hrows, hstatus⟩

/-- A run of one case that passes or is skipped. -/
def oneCase (status : TestStatus) : List Event :=
  [.suiteStart "S".toList, .caseStart "S".toList "g.t".toList,
    .caseEnd "S".toList "g.t".toList status]

/-- A case that passed and a case that was skipped leave the same file. -/
theorem report_hides_skipped :
    ¬ ∀ evs evs' : List Event,
      (JunitReporter.receive evs).report = (JunitReporter.receive evs').report →
        (JunitReporter.receive evs).cases.map JunitCase.entry =
          (JunitReporter.receive evs').cases.map JunitCase.entry := by
  intro h
  exact absurd (h (oneCase .passed) (oneCase .skipped) (by decide +kernel)) (by decide +kernel)

end PolyOnTest.Builtins
