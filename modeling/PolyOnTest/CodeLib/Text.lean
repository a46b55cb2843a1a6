import Mathlib.Data.List.Basic
import PolyOnTest.CodeLib.Decimal

/-!
# Cutting text

The string functions that line parsers are made of, over lists of characters:
stripping a prefix, splitting at a separator once or a bounded number of times,
splitting at white space, trimming at both ends, and reading an unsigned number.

For each function there is one lemma for the shape that a printer produces, and
one for text without the separator.
-/

namespace CodeLib.Text

/-- What follows a prefix, if the text starts with it. -/
def stripPrefix : List Char → List Char → Option (List Char)
  | [], s => some s
  | _ :: _, [] => none
  | p :: ps, c :: s => if p = c then stripPrefix ps s else none

/-- The parts in front of and behind the first separator. -/
def splitOnce (d : Char) : List Char → Option (List Char × List Char)
  | [] => none
  | c :: s =>
      if c = d then some ([], s)
      else (splitOnce d s).map fun parts => (c :: parts.1, parts.2)

/-- At most `n` parts, the last of them with all separators that are left. -/
def splitn (d : Char) : Nat → List Char → List (List Char)
  | 0, _ => []
  | 1, s => [s]
  | n + 2, s =>
      match splitOnce d s with
      | none => [s]
      | some (a, b) => a :: splitn d (n + 1) b

/-- A line without the carriage return at its end. -/
def dropReturn (line : List Char) : List Char :=
  if line.getLast? = some '\r' then line.dropLast else line

/-- The lines of a text, with `line` the part of the first one that is read.  A
line feed ends a line, with a carriage return in front of it or not. -/
def linesFrom : List Char → List Char → List (List Char)
  | line, [] => if line = [] then [] else [line]
  | line, c :: s =>
      if c = '\n' then dropReturn line :: linesFrom [] s else linesFrom (line ++ [c]) s

/-- The lines of a text. -/
def lines (s : List Char) : List (List Char) := linesFrom [] s

/-- The characters with the property `White_Space`. -/
def isWhitespace (c : Char) : Bool :=
  let n := c.toNat
  9 ≤ n && n ≤ 13 || n == 0x20 || n == 0x85 || n == 0xA0 || n == 0x1680 ||
    0x2000 ≤ n && n ≤ 0x200A || n == 0x2028 || n == 0x2029 || n == 0x202F ||
    n == 0x205F || n == 0x3000

/-- The words of a text, with `word` the part of the first one that is read. -/
def wordsFrom : List Char → List Char → List (List Char)
  | word, [] => if word = [] then [] else [word]
  | word, c :: s =>
      if isWhitespace c then
        if word = [] then wordsFrom [] s else word :: wordsFrom [] s
      else wordsFrom (word ++ [c]) s

/-- The words of a text. -/
def splitWhitespace (s : List Char) : List (List Char) := wordsFrom [] s

/-- The text without the characters of one kind at its end. -/
def trimEnd (p : Char → Bool) (s : List Char) : List Char :=
  (s.reverse.dropWhile p).reverse

/-- The text without white space at both ends. -/
def trim (s : List Char) : List Char :=
  trimEnd isWhitespace (s.dropWhile isWhitespace)

/-- An unsigned number up to `bound`, with an optional plus sign. -/
def parseUnsigned (bound : Nat) : List Char → Option Nat
  | '+' :: s => Decimal.parseBounded bound s
  | s => Decimal.parseBounded bound s

@[simp] theorem stripPrefix_append (p s : List Char) :
    stripPrefix p (p ++ s) = some s := by
  induction p with
  | nil => cases s <;> rfl
  | cons c p ih => rw [List.cons_append, stripPrefix, if_pos rfl, ih]

theorem stripPrefix_eq_some {p s rest : List Char} :
    stripPrefix p s = some rest ↔ s = p ++ rest := by
  constructor
  · intro h
    induction p generalizing s with
    | nil => simpa [stripPrefix] using h
    | cons c p ih =>
        cases s with
        | nil => simp [stripPrefix] at h
        | cons x s =>
          rw [stripPrefix] at h
          split_ifs at h with hx
          rw [hx, List.cons_append, ← ih h]
  · rintro rfl
    exact stripPrefix_append p rest

theorem splitOnce_append {d : Char} {a : List Char} (h : d ∉ a) (b : List Char) :
    splitOnce d (a ++ d :: b) = some (a, b) := by
  induction a with
  | nil => rw [List.nil_append, splitOnce, if_pos rfl]
  | cons c a ih =>
      have hc : c ≠ d := fun hc => h (by simp [hc])
      have ha : d ∉ a := fun ha => h (by simp [ha])
      rw [List.cons_append, splitOnce, if_neg hc, ih ha]
      rfl

theorem splitOnce_none {d : Char} {s : List Char} (h : d ∉ s) :
    splitOnce d s = none := by
  induction s with
  | nil => rfl
  | cons c s ih =>
      have hc : c ≠ d := fun hc => h (by simp [hc])
      have hs : d ∉ s := fun hs => h (by simp [hs])
      rw [splitOnce, if_neg hc, ih hs]
      rfl

theorem splitOnce_eq_some {d : Char} {s a b : List Char} (h : splitOnce d s = some (a, b)) :
    s = a ++ d :: b := by
  induction s generalizing a with
  | nil => cases h
  | cons c s ih =>
      rw [splitOnce] at h
      split_ifs at h with hc
      · obtain ⟨rfl, rfl⟩ : [] = a ∧ s = b := by simpa using h
        rw [hc, List.nil_append]
      · obtain ⟨⟨a', b'⟩, hsplit, hparts⟩ := Option.map_eq_some_iff.mp h
        obtain ⟨rfl, rfl⟩ : c :: a' = a ∧ b' = b := by simpa using hparts
        rw [ih hsplit, List.cons_append]

theorem splitn_append {d : Char} {a : List Char} (h : d ∉ a) (n : Nat)
    (b : List Char) : splitn d (n + 2) (a ++ d :: b) = a :: splitn d (n + 1) b := by
  rw [splitn, splitOnce_append h]

theorem splitn_none {d : Char} {s : List Char} (h : d ∉ s) (n : Nat) :
    splitn d (n + 1) s = [s] := by
  cases n with
  | zero => rfl
  | succ n => rw [splitn, splitOnce_none h]

theorem linesFrom_append {a : List Char} (h : '\n' ∉ a) (line rest : List Char) :
    linesFrom line (a ++ rest) = linesFrom (line ++ a) rest := by
  induction a generalizing line with
  | nil => simp
  | cons c a ih =>
      have hc : c ≠ '\n' := fun hc => h (by simp [hc])
      have ha : '\n' ∉ a := fun ha => h (by simp [ha])
      rw [List.cons_append, linesFrom, if_neg hc, ih ha]
      simp

theorem lines_append {a : List Char} (hfeed : '\n' ∉ a) (hreturn : '\r' ∉ a)
    (rest : List Char) : lines (a ++ '\n' :: rest) = a :: lines rest := by
  have hlast : a.getLast? ≠ some '\r' := fun h => hreturn (List.mem_of_getLast? h)
  rw [lines, linesFrom_append hfeed, List.nil_append, linesFrom, if_pos rfl, dropReturn,
    if_neg hlast]
  rfl

/-- A text without white space. -/
def Solid (s : List Char) : Prop := ∀ c ∈ s, isWhitespace c = false

instance (s : List Char) : Decidable (Solid s) := List.decidableBAll _ s

theorem wordsFrom_solid {a : List Char} (h : Solid a) (word rest : List Char) :
    wordsFrom word (a ++ rest) = wordsFrom (word ++ a) rest := by
  induction a generalizing word with
  | nil => simp
  | cons c a ih =>
      have hc : isWhitespace c = false := h c (by simp)
      have ha : Solid a := fun x hx => h x (by simp [hx])
      rw [List.cons_append, wordsFrom, hc, if_neg (by simp), ih ha]
      simp

theorem splitWhitespace_append {a : List Char} (h : Solid a) (hne : a ≠ [])
    (rest : List Char) :
    splitWhitespace (a ++ ' ' :: rest) = a :: splitWhitespace rest := by
  rw [splitWhitespace, wordsFrom_solid h, List.nil_append, wordsFrom,
    if_pos (by decide), if_neg hne]
  rfl

theorem splitWhitespace_solid {a : List Char} (h : Solid a) (hne : a ≠ []) :
    splitWhitespace a = [a] := by
  have hwords := wordsFrom_solid h [] []
  rw [List.append_nil, List.nil_append] at hwords
  rw [splitWhitespace, hwords, wordsFrom, if_neg hne]

theorem trimEnd_of_not {p : Char → Bool} {s : List Char}
    (h : ∀ c ∈ s, p c = false) : trimEnd p s = s := by
  have hdrop : s.reverse.dropWhile p = s.reverse := by
    cases hs : s.reverse with
    | nil => rfl
    | cons c t =>
      have hc : c ∈ s := by
        rw [← List.mem_reverse, hs]
        simp
      rw [List.dropWhile_cons, h c hc]
      rfl
  rw [trimEnd, hdrop, List.reverse_reverse]

/-- What stands in front of a part that stays is not looked at. -/
theorem trimEnd_append {p : Char → Bool} (a : List Char) {b : List Char}
    (h : ∀ c ∈ b, p c = false) (hne : b ≠ []) : trimEnd p (a ++ b) = a ++ b := by
  obtain ⟨c, t, hrev⟩ := List.exists_cons_of_ne_nil
    (show b.reverse ≠ [] by simpa using hne)
  have hc : p c = false := h c (by rw [← List.mem_reverse, hrev]; simp)
  rw [trimEnd, List.reverse_append, hrev, List.cons_append, List.dropWhile_cons, hc,
    if_neg (by simp), ← List.cons_append, ← hrev, ← List.reverse_append,
    List.reverse_reverse]

/-- Trimming stops at a character that stays. -/
theorem trimEnd_append_cons {p : Char → Bool} {c : Char} (hc : p c = false)
    (a b : List Char) : trimEnd p (a ++ c :: b) = a ++ c :: trimEnd p b := by
  have hrev : (a ++ c :: b).reverse = b.reverse ++ c :: a.reverse := by simp
  have hstay : (c :: a.reverse).dropWhile p = c :: a.reverse := by
    rw [List.dropWhile_cons, hc, if_neg (by simp)]
  unfold trimEnd
  rw [hrev, List.dropWhile_append]
  split_ifs with hempty
  · have hnil : b.reverse.dropWhile p = [] := List.isEmpty_iff.mp hempty
    rw [hstay, hnil]
    simp
  · simp

theorem trimEnd_sublist (p : Char → Bool) (s : List Char) : (trimEnd p s).Sublist s := by
  have hdrop := (List.dropWhile_sublist p (l := s.reverse)).reverse
  rwa [List.reverse_reverse] at hdrop

theorem isPrefix_trimEnd (p : Char → Bool) (s : List Char) : trimEnd p s <+: s := by
  have hdrop := (List.dropWhile_suffix p (l := s.reverse)).reverse
  rwa [List.reverse_reverse] at hdrop

/-- What is trimmed is of the one kind. -/
theorem mem_trimEnd {p : Char → Bool} {s : List Char} {c : Char} (h : c ∈ s)
    (hc : p c = false) : c ∈ trimEnd p s := by
  obtain ⟨front, back, hs⟩ := List.append_of_mem h
  rw [hs, trimEnd_append_cons hc]
  simp

theorem trim_solid {s : List Char} (h : Solid s) : trim s = s := by
  have hdrop : s.dropWhile isWhitespace = s := by
    cases s with
    | nil => rfl
    | cons c t =>
      rw [List.dropWhile_cons, h c (by simp)]
      rfl
  rw [trim, hdrop, trimEnd_of_not h]

theorem parseUnsigned_toDigits {bound n : Nat} (h : n ≤ bound) :
    parseUnsigned bound (Nat.toDigits 10 n) = some n := by
  have hplus : ∀ s, Nat.toDigits 10 n ≠ '+' :: s := by
    intro s hs
    have hmem : '+' ∈ Nat.toDigits 10 n := by
      rw [hs]
      simp
    have hdigit : Char.isDigit '+' = true :=
      Nat.isDigit_of_mem_toDigits (by decide) (by decide) hmem
    exact absurd hdigit (by decide)
  rw [← Decimal.parseBounded_toDigits h]
  unfold parseUnsigned
  split
  · next s hs => exact absurd hs (hplus s)
  · rfl

theorem solid_append {a b : List Char} (ha : Solid a) (hb : Solid b) :
    Solid (a ++ b) := by
  intro c hc
  rcases List.mem_append.mp hc with hc | hc
  · exact ha c hc
  · exact hb c hc

theorem isWhitespace_digit {c : Char} (h : c.isDigit = true) :
    isWhitespace c = false := by
  simp only [Char.isDigit, Bool.and_eq_true, decide_eq_true_eq] at h
  have hlo : 48 ≤ c.toNat := h.1
  have hhi : c.toNat ≤ 57 := h.2
  simp only [isWhitespace, Bool.or_eq_false_iff, Bool.and_eq_false_iff,
    decide_eq_false_iff_not, beq_eq_false_iff_ne]
  omega

theorem solid_toDigits (n : Nat) : Solid (Nat.toDigits 10 n) := by
  intro c hc
  exact isWhitespace_digit (Nat.isDigit_of_mem_toDigits (by decide) (by decide) hc)

end CodeLib.Text
