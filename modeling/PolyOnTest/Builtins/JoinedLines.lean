import PolyOnTest.Builtins.TextRoundTrip

/-!
# Lines without a line feed between them

The harness writes a line and its line feed in two calls, so lines of two threads may
come to stand on one line of the output.  What the parser makes of them is decided by
the first: `readText_silent` for a line that is no event by itself, and
`readText_heavier` for a line that is one.  The second event has all the text of the
first one and more, which `weight` measures.
-/

namespace PolyOnTest.Builtins

open CodeLib

/-- What the text codec reads from a line. -/
def readText (line : Str) : List Event :=
  (parseTextLine (Text.trimEnd (· = '\r') line)).toList

/-- A line of a failing assertion or the note of `pot_ignore`. -/
inductive IsReport : Str → Prop
  | fail (rest : Str) : IsReport ("FAIL ".toList ++ rest)
  | note (rest : Str) : IsReport ("IGNORE ".toList ++ rest)

/-- The length of the texts of an event that a `FAIL` line may be. -/
def weight : Event → Nat
  | .assertFail suite name file _ message =>
      suite.length + name.length + file.length + message.length
  | .caseEnd suite name _ => suite.length + name.length
  | _ => 0

/-- The first word of a text. -/
def firstWord (s : Str) : Str := s.takeWhile (· ≠ ' ')

/-! ## The first word -/

theorem firstWord_free {s : Str} (h : ' ' ∉ s) (rest : Str) :
    firstWord (s ++ rest) = s ++ firstWord rest :=
  List.takeWhile_append_of_pos fun _ hc =>
    decide_eq_true fun heq => h (heq ▸ hc)

theorem firstWord_append {word : Str} (h : ' ' ∉ word) (rest : Str) :
    firstWord (word ++ ' ' :: rest) = word := by
  rw [firstWord_free h]
  simp [firstWord]

theorem splitSuiteCase_eq_none_iff (s : Str) : splitSuiteCase s = none ↔ '.' ∉ s := by
  constructor
  · intro hnone hdot
    obtain ⟨a, b, hs, ha⟩ := List.eq_append_cons_of_mem hdot
    rw [hs, splitSuiteCase, Text.splitOnce_append ha] at hnone
    cases hnone
  · exact Text.splitOnce_none

/-- Only the first word decides whether a `FAIL` line is an event. -/
theorem parseFail_eq_none_iff (rest : Str) :
    parseFail rest = none ↔ '.' ∉ firstWord rest := by
  rw [← splitSuiteCase_eq_none_iff]
  unfold parseFail
  by_cases hspace : ' ' ∈ rest
  · obtain ⟨word, more, hrest, hword⟩ := List.eq_append_cons_of_mem hspace
    rw [hrest, Text.splitn_append hword, firstWord_append hword]
    dsimp only
    cases splitSuiteCase word with
    | none => simp
    | some parts =>
      simp only [Option.bind_eq_bind, Option.bind_some]
      split_ifs <;> simp
  · have hword := firstWord_free hspace []
    rw [List.append_nil] at hword
    have hfirst : firstWord rest = rest := by rw [hword]; exact List.append_nil rest
    rw [Text.splitn_none hspace, hfirst]
    dsimp only
    cases splitSuiteCase rest <;> simp

/-! ## The weight -/

/-- The parts of a text and the separators between them. -/
theorem splitn_length (d : Char) (n : Nat) (s : Str) :
    ((Text.splitn d (n + 1) s).map List.length).sum + (Text.splitn d (n + 1) s).length =
      s.length + 1 := by
  induction n generalizing s with
  | zero => simp [Text.splitn]
  | succ n ih =>
      rw [Text.splitn]
      cases hsplit : Text.splitOnce d s with
      | none => simp
      | some parts =>
        have hs := Text.splitOnce_eq_some hsplit
        have hrest := ih parts.2
        rw [hs]
        simp only [List.map_cons, List.sum_cons, List.length_cons, List.length_append]
        omega

/-- An event has all of the line but the separators. -/
theorem parseFail_weight {rest : Str} {e : Event} (h : parseFail rest = some e) :
    weight e < rest.length ∧ rest.length ≤ weight e + 3 := by
  have hlength := splitn_length ' ' 2 rest
  unfold parseFail at h
  -- at most three parts, because the last one is not split
  have hshort : ∀ s, (Text.splitn ' ' 3 s).length ≤ 3 := by
    intro s
    simp only [Text.splitn]
    split
    · simp
    · split <;> simp
  have hparts := hshort rest
  generalize Text.splitn ' ' 3 rest = parts at h hlength hparts
  cases parts with
  | nil => cases h
  | cons id tokens =>
    dsimp only at h
    cases hsplit : splitSuiteCase id with
    | none => simp [hsplit] at h
    | some names =>
      have hid := Text.splitOnce_eq_some hsplit
      have hlen := congrArg List.length hid
      rw [List.length_append, List.length_cons] at hlen
      simp only [hsplit, Option.bind_eq_bind, Option.bind_some] at h
      rcases tokens with _ | ⟨place, _ | ⟨message, _ | ⟨extra, more⟩⟩⟩
      · obtain rfl : Event.caseEnd names.1 names.2 .failed = e := by simpa using h
        simp only [weight, List.map_cons, List.map_nil, List.sum_cons, List.sum_nil,
          List.length_cons, List.length_nil] at hlength ⊢
        omega
      · obtain rfl : Event.assertFail names.1 names.2 place 0 [] = e := by simpa using h
        simp only [weight, List.map_cons, List.map_nil, List.sum_cons, List.sum_nil,
          List.length_cons, List.length_nil] at hlength ⊢
        omega
      · obtain rfl : Event.assertFail names.1 names.2 place 0 message = e := by
          simpa using h
        simp only [weight, List.map_cons, List.map_nil, List.sum_cons, List.sum_nil,
          List.length_cons, List.length_nil] at hlength ⊢
        omega
      · simp only [List.length_cons] at hparts
        omega

/-! ## One line and two lines -/

theorem trimEnd_fail (rest : Str) : Text.trimEnd (· = '\r') ("FAIL ".toList ++ rest) =
    "FAIL ".toList ++ Text.trimEnd (· = '\r') rest :=
  Text.trimEnd_append_cons (by decide) "FAIL".toList rest

theorem trimEnd_note (rest : Str) : Text.trimEnd (· = '\r') ("IGNORE ".toList ++ rest) =
    "IGNORE ".toList ++ Text.trimEnd (· = '\r') rest :=
  Text.trimEnd_append_cons (by decide) "IGNORE".toList rest

theorem readText_fail (rest : Str) :
    readText ("FAIL ".toList ++ rest) = (parseFail (Text.trimEnd (· = '\r') rest)).toList := by
  rw [readText, trimEnd_fail, parseTextLine_fail]

theorem readText_note (rest : Str) : readText ("IGNORE ".toList ++ rest) = [] := by
  rw [readText, trimEnd_note, parseTextLine_ignore]
  rfl

/-- Behind a line that is put to another one, at least the key word stays. -/
theorem trimEnd_report (rest : Str) {line : Str} (h : IsReport line) (more : Str) :
    ∃ word tail, 4 ≤ word.length ∧ '.' ∉ word ∧ ' ' ∉ word ∧
      Text.trimEnd (· = '\r') (rest ++ (line ++ more)) = rest ++ (word ++ ' ' :: tail) := by
  have hcut : ∀ word tail : Str, Text.trimEnd (· = '\r') (rest ++ (word ++ ' ' :: tail)) =
      rest ++ (word ++ ' ' :: Text.trimEnd (· = '\r') tail) := by
    intro word tail
    rw [← List.append_assoc, Text.trimEnd_append_cons (by decide), List.append_assoc]
  cases h with
  | fail tail =>
    exact ⟨"FAIL".toList, _, by decide, by decide, by decide, hcut "FAIL".toList (tail ++ more)⟩
  | note tail =>
    exact ⟨"IGNORE".toList, _, by decide, by decide, by decide,
      hcut "IGNORE".toList (tail ++ more)⟩

/-- A line that is no event makes no event of what follows on its line. -/
theorem readText_silent {line next : Str} (hline : IsReport line) (hnext : IsReport next)
    (more : Str) (h : readText line = []) : readText (line ++ (next ++ more)) = [] := by
  cases hline with
  | note rest => rw [List.append_assoc, readText_note]
  | fail rest =>
    rw [readText_fail, Option.toList_eq_nil_iff, parseFail_eq_none_iff] at h
    obtain ⟨word, tail, -, hdot, hspace, htrim⟩ := trimEnd_report rest hnext more
    rw [List.append_assoc, readText_fail, htrim, Option.toList_eq_nil_iff,
      parseFail_eq_none_iff]
    by_cases hrest : ' ' ∈ rest
    · -- the first word ends inside the line
      obtain ⟨front, back, hsplit, hfront⟩ := List.eq_append_cons_of_mem hrest
      rw [hsplit, Text.trimEnd_append_cons (by decide), firstWord_append hfront] at h
      rw [hsplit, List.append_assoc, List.cons_append, firstWord_append hfront]
      exact h
    · -- the first word goes on into the key word of the next line
      have htrimmed : ' ' ∉ Text.trimEnd (· = '\r') rest := fun hmem =>
        hrest ((Text.trimEnd_sublist _ rest).subset hmem)
      have hword := firstWord_free htrimmed []
      rw [List.append_nil] at hword
      rw [hword] at h
      rw [firstWord_free hrest, firstWord_append hspace, List.mem_append, not_or]
      refine ⟨fun hmem => h ?_, hdot⟩
      rw [List.mem_append]
      exact Or.inl (Text.mem_trimEnd hmem (by decide))

/-- A line that is an event becomes one with more text. -/
theorem readText_heavier {line next : Str} (hline : IsReport line) (hnext : IsReport next)
    (more : Str) {e e' : Event} (h : e ∈ readText line)
    (h' : e' ∈ readText (line ++ (next ++ more))) : weight e < weight e' := by
  cases hline with
  | note rest =>
    rw [readText_note] at h
    exact absurd h List.not_mem_nil
  | fail rest =>
    obtain ⟨word, tail, hword, -, -, htrim⟩ := trimEnd_report rest hnext more
    rw [readText_fail, Option.mem_toList] at h
    rw [List.append_assoc, readText_fail, htrim, Option.mem_toList] at h'
    have hlight := (parseFail_weight h).1
    have hheavy := (parseFail_weight h').2
    have hshort := (Text.trimEnd_sublist (· = '\r') rest).length_le
    simp only [List.length_append, List.length_cons] at hheavy
    omega

theorem readText_length_le (line : Str) : (readText line).length ≤ 1 := by
  unfold readText
  cases parseTextLine (Text.trimEnd (· = '\r') line) <;> simp

end PolyOnTest.Builtins
