import Mathlib.Tactic.SplitIfs
import PolyOnTest.CodeLib.Text

/-!
# XML documents

The part of XML that programs write: a declaration, elements with attributes in double
quotes, character data and the predefined entities.  Names are ASCII names.  There are no
comments, sections, document types, references to characters, or blanks around `=`.

`lex` reads a text into tokens.  It does what a processor does before the application
sees the text: line ends become `\n` (`eol`), entities are replaced, and a blank of an
attribute value is a space (`spaced`).  `parse` also checks the nesting.

`render` writes tokens and escapes what has to be escaped.  `lex_render` is the way back:
the text is read if and only if the values have no character that XML does not have, and
then it says the tokens with their values `spaced`.
-/

namespace CodeLib.Xml

/-! ## Characters -/

/-- A character that a document can have. -/
def isChar (c : Char) : Bool :=
  c = '\t' || c = '\n' || c = '\r' || (32 ≤ c.toNat && c.toNat ≠ 0xFFFE && c.toNat ≠ 0xFFFF)

/-- A blank. -/
def isSpace (c : Char) : Bool := c = ' ' || c = '\t' || c = '\n' || c = '\r'

/-- A character that can start a name. -/
def isNameStart (c : Char) : Bool := c.isAlpha || c = '_' || c = ':'

/-- A character that a name can go on with. -/
def isNameChar (c : Char) : Bool := isNameStart c || c.isDigit || c = '-' || c = '.'

/-- A name. -/
def IsName : List Char → Prop
  | [] => False
  | c :: rest => isNameStart c ∧ ∀ x ∈ rest, isNameChar x

instance (name : List Char) : Decidable (IsName name) := by
  cases name with
  | nil => exact .isFalse id
  | cons c rest => exact @instDecidableAnd _ _ _ (List.decidableBAll _ rest)

/-- The entities that need no declaration. -/
def predefined : List Char → Option Char
  | ['a', 'm', 'p'] => some '&'
  | ['l', 't'] => some '<'
  | ['g', 't'] => some '>'
  | ['q', 'u', 'o', 't'] => some '"'
  | ['a', 'p', 'o', 's'] => some '\''
  | _ => none

/-- Each line end is one `\n`. -/
def eol : List Char → List Char
  | '\r' :: '\n' :: rest => '\n' :: eol rest
  | '\r' :: rest => '\n' :: eol rest
  | c :: rest => c :: eol rest
  | [] => []

/-- A blank of an attribute value is a space. -/
def blank (c : Char) : Char := if isSpace c then ' ' else c

/-- The value that a processor reports for the text of an attribute. -/
def spaced (s : List Char) : List Char := (eol s).map blank

theorem isSpace_blank {c : Char} (h : isSpace (blank c)) : blank c = ' ' := by
  unfold blank at h ⊢
  split_ifs with hc
  · rfl
  · rw [if_neg hc] at h
    exact absurd h hc

/-! ## Tokens -/

/-- A start tag: its name and its attributes. -/
structure Tag where
  name : List Char
  attrs : List (List Char × List Char)
  deriving DecidableEq, Repr

/-- The tokens of a document.  Character data comes one character at a time. -/
inductive Token where
  | opened (tag : Tag)
  | empty (tag : Tag)
  | closed (name : List Char)
  | char (c : Char)
  deriving DecidableEq, Repr

/-- Where the lexer is. -/
inductive Mode where
  | content
  | entity (e : List Char)
  | less
  | start (name : List Char)
  | tag (t : Tag)
  | attr (t : Tag) (key : List Char)
  | equals (t : Tag) (key : List Char)
  | value (t : Tag) (key value : List Char)
  | valueEntity (t : Tag) (key value e : List Char)
  | quoted (t : Tag)
  | slash (t : Tag)
  | ending (name : List Char)
  deriving DecidableEq, Repr

/-- The tokens so far, and where the lexer is. -/
abbrev Lexer := List Token × Mode

/-- What can follow a name or a value in a tag. -/
def afterTag (out : List Token) (t : Tag) (c : Char) : Option Lexer :=
  if isSpace c then some (out, .tag t)
  else if c = '/' then some (out, .slash t)
  else if c = '>' then some (out ++ [.opened t], .content)
  else none

/-- The lexer takes a character. -/
def step : Lexer → Char → Option Lexer
  | (out, .content), c =>
      if c = '<' then some (out, .less)
      else if c = '&' then some (out, .entity [])
      else if isChar c then some (out ++ [.char c], .content)
      else none
  | (out, .entity e), c =>
      if c = ';' then (predefined e).map fun x => (out ++ [.char x], .content)
      else some (out, .entity (e ++ [c]))
  | (out, .less), c =>
      if c = '/' then some (out, .ending [])
      else if isNameStart c then some (out, .start [c])
      else none
  | (out, .start name), c =>
      if isNameChar c then some (out, .start (name ++ [c])) else afterTag out ⟨name, []⟩ c
  | (out, .tag t), c =>
      if isNameStart c then some (out, .attr t [c]) else afterTag out t c
  | (out, .attr t key), c =>
      if isNameChar c then some (out, .attr t (key ++ [c]))
      else if c = '=' then some (out, .equals t key)
      else none
  | (out, .equals t key), c => if c = '"' then some (out, .value t key []) else none
  | (out, .value t key v), c =>
      if c = '"' then
        -- an attribute is written once
        if t.attrs.any fun a => a.1 = key then none
        else some (out, .quoted ⟨t.name, t.attrs ++ [(key, v)]⟩)
      else if c = '&' then some (out, .valueEntity t key v [])
      else if c = '<' then none
      else if isChar c then some (out, .value t key (v ++ [blank c]))
      else none
  | (out, .valueEntity t key v e), c =>
      if c = ';' then (predefined e).map fun x => (out, .value t key (v ++ [x]))
      else some (out, .valueEntity t key v (e ++ [c]))
  | (out, .quoted t), c => afterTag out t c
  | (out, .slash t), c => if c = '>' then some (out ++ [.empty t], .content) else none
  | (out, .ending name), c =>
      if isNameChar c then some (out, .ending (name ++ [c]))
      else if c = '>' then some (out ++ [.closed name], .content)
      else none

/-- The tokens of a text that ends outside the tags. -/
def lex (text : List Char) : Option (List Token) :=
  match (eol text).foldlM step ([], .content) with
  | some (out, .content) => some out
  | _ => none

/-- The open elements, the innermost first, and whether there has been an element,
behind a token. -/
def nest : List (List Char) × Bool → Token → Option (List (List Char) × Bool)
  | (names, rooted), .opened t =>
      if names = [] ∧ rooted then none else some (t.name :: names, true)
  | (names, rooted), .empty _ => if names = [] ∧ rooted then none else some (names, true)
  | (names, rooted), .closed name =>
      if names.head? = some name then some (names.tail, rooted) else none
  | (names, rooted), .char c => if names = [] ∧ ¬ isSpace c then none else some (names, rooted)

/-- One element at the top, every element closed by its own name, and nothing but blanks
outside. -/
def Nested (ts : List Token) : Prop := ts.foldlM nest ([], false) = some ([], true)

instance (ts : List Token) : Decidable (Nested ts) := inferInstanceAs (Decidable (_ = _))

/-- The declaration. -/
def declaration : List Char := "<?xml version=\"1.0\" encoding=\"UTF-8\"?>\n".toList

/-- A document with a declaration. -/
def parse (text : List Char) : Option (List Token) :=
  (Text.stripPrefix declaration text).bind fun body => (lex body).filter fun ts => Nested ts

/-! ## Writing -/

/-- A character, escaped. -/
def escapeChar (c : Char) : List Char :=
  if c = '&' then "&amp;".toList
  else if c = '<' then "&lt;".toList
  else if c = '>' then "&gt;".toList
  else if c = '"' then "&quot;".toList
  else [c]

/-- An attribute, with a blank in front. -/
def attrText (a : List Char × List Char) : List Char :=
  ' ' :: (a.1 ++ ('=' :: '"' :: (a.2.flatMap escapeChar ++ ['"'])))

/-- A tag, up to its end. -/
def tagText (t : Tag) : List Char := '<' :: (t.name ++ t.attrs.flatMap attrText)

/-- The text of a token. -/
def render : Token → List Char
  | .opened t => tagText t ++ ['>']
  | .empty t => tagText t ++ ['/', '>']
  | .closed name => '<' :: '/' :: (name ++ ['>'])
  | .char c => escapeChar c

/-- A tag that can be written. -/
structure Tag.Legal (t : Tag) : Prop where
  name : IsName t.name
  keys : ∀ key ∈ t.attrs.map Prod.fst, IsName key
  once : (t.attrs.map Prod.fst).Nodup

/-- A token that can be written.  A bare `\r` of character data does not come back. -/
def Token.Legal : Token → Prop
  | .opened t => t.Legal
  | .empty t => t.Legal
  | .closed name => IsName name
  | .char c => isChar c ∧ c ≠ '\r'

/-- The values of a tag have no other characters than XML has. -/
def Tag.printable (t : Tag) : Bool := t.attrs.all fun a => a.2.all isChar

/-- The same for a token. -/
def Token.printable : Token → Bool
  | .opened t => t.printable
  | .empty t => t.printable
  | _ => true

/-- A change of the values. -/
def Tag.mapValues (f : List Char → List Char) (t : Tag) : Tag :=
  { t with attrs := t.attrs.map fun a => (a.1, f a.2) }

/-- The same for a token. -/
def Token.mapValues (f : List Char → List Char) : Token → Token
  | .opened t => .opened (t.mapValues f)
  | .empty t => .empty (t.mapValues f)
  | t => t

/-! ## Line ends -/

theorem eol_cons {c : Char} (hc : c ≠ '\r') (v : List Char) : eol (c :: v) = c :: eol v := by
  rw [eol]
  · intro rest h
    exact absurd h hc
  · exact fun h => hc h

/-- Text without `\r` stays. -/
theorem eol_append {u : List Char} (hu : '\r' ∉ u) (v : List Char) :
    eol (u ++ v) = u ++ eol v := by
  induction u with
  | nil => rfl
  | cons c u ih =>
      rw [List.mem_cons, not_or] at hu
      rw [List.cons_append, eol_cons (Ne.symm hu.1), ih hu.2, List.cons_append]

theorem eol_return {v : List Char} (hv : ∀ rest, v ≠ '\n' :: rest) :
    eol ('\r' :: v) = '\n' :: eol v := by
  rw [eol]
  exact fun rest h => hv rest h

theorem all_isChar_eol (s : List Char) : (eol s).all isChar = s.all isChar := by
  fun_induction eol s with
  | case1 rest ih => simp [ih, isChar]
  | case2 rest _ ih => simp [ih, isChar]
  | case3 c rest _ _ ih => simp [ih]
  | case4 => rfl

theorem return_not_mem_escapeChar {c : Char} (hc : c ≠ '\r') : '\r' ∉ escapeChar c := by
  unfold escapeChar
  split_ifs
  · decide
  · decide
  · decide
  · decide
  · rw [List.mem_singleton]
    exact Ne.symm hc

theorem escapeChar_head {c : Char} {u v : List Char} (hc : c ≠ '\n') :
    escapeChar c ++ u ≠ '\n' :: v := by
  unfold escapeChar
  split_ifs
  · intro h
    cases h
  · intro h
    cases h
  · intro h
    cases h
  · intro h
    cases h
  · exact fun h => hc (List.cons.inj h).1

/-- The text for a value has the line ends of the value. -/
theorem eol_escape (s rest : List Char) :
    eol (s.flatMap escapeChar ++ '"' :: rest) =
      (eol s).flatMap escapeChar ++ '"' :: eol rest := by
  fun_induction eol s with
  | case1 s ih => exact congrArg ('\n' :: ·) ih
  | case2 s hfeed ih =>
    have hreturn : eol ('\r' :: (s.flatMap escapeChar ++ '"' :: rest)) =
        '\n' :: eol (s.flatMap escapeChar ++ '"' :: rest) := by
      refine eol_return fun v h => ?_
      cases s with
      | nil => cases h
      | cons c s =>
        have hc : c ≠ '\n' := fun hc => hfeed s (by rw [hc])
        rw [List.flatMap_cons, List.append_assoc] at h
        exact escapeChar_head hc h
    exact hreturn.trans (congrArg ('\n' :: ·) ih)
  | case3 c s hpair hreturn ih =>
    have hc : '\r' ∉ escapeChar c := return_not_mem_escapeChar fun h => hreturn h
    rw [List.flatMap_cons, List.append_assoc, eol_append hc, ih, List.flatMap_cons,
      List.append_assoc]
  | case4 => exact eol_cons (by decide) rest

/-- A value is reported as it is if and only if its blanks are spaces. -/
theorem spaced_eq_iff (s : List Char) : spaced s = s ↔ ∀ c ∈ s, isSpace c → c = ' ' := by
  constructor
  · intro h c hc hspace
    rw [← h] at hc
    obtain ⟨x, -, rfl⟩ := List.mem_map.mp hc
    exact isSpace_blank hspace
  · intro h
    have hreturn : '\r' ∉ s := fun hmem => absurd (h _ hmem (by decide)) (by decide)
    have heol : eol s = s := by
      have happend := eol_append hreturn []
      rwa [List.append_nil, eol, List.append_nil] at happend
    have hblank : ∀ c ∈ s, blank c = c := by
      intro c hc
      unfold blank
      split_ifs with hspace
      · exact (h c hc hspace).symm
      · rfl
    rw [spaced, heol, List.map_congr_left hblank, List.map_id']

/-! ## Reading what is written -/

/-- The lexer over a text. -/
def run (l : Lexer) (text : List Char) : Option Lexer := text.foldlM step l

theorem run_append (l : Lexer) (u v : List Char) :
    run l (u ++ v) = (run l u).bind fun l' => run l' v :=
  List.foldlM_append

theorem run_cons (l : Lexer) (c : Char) (text : List Char) :
    run l (c :: text) = (step l c).bind fun l' => run l' text :=
  List.foldlM_cons

theorem isNameChar_of_start {c : Char} (h : isNameStart c) : isNameChar c := by
  simp [isNameChar, h]

/-- A mode that takes the characters of a name. -/
def TakesName (m : List Char → Mode) : Prop :=
  ∀ out name c, isNameChar c → step (out, m name) c = some (out, m (name ++ [c]))

theorem takesName_start : TakesName .start := fun _ _ _ h => if_pos h

theorem takesName_attr (t : Tag) : TakesName (.attr t) := fun _ _ _ h => if_pos h

theorem takesName_ending : TakesName .ending := fun _ _ _ h => if_pos h

/-- The rest of a name. -/
theorem run_name {m : List Char → Mode} (hm : TakesName m) (out : List Token)
    (name : List Char) {rest : List Char} (h : ∀ x ∈ rest, isNameChar x) :
    run (out, m name) rest = some (out, m (name ++ rest)) := by
  induction rest generalizing name with
  | nil => rw [List.append_nil]; rfl
  | cons c rest ih =>
      rw [List.forall_mem_cons] at h
      rw [run_cons, hm out name c h.1, Option.bind_some, ih _ h.2, List.append_assoc,
        List.singleton_append]

/-- One escaped character of a value. -/
theorem run_escapeChar (out : List Token) (t : Tag) (key v : List Char) (c : Char) :
    run (out, .value t key v) (escapeChar c) =
      if isChar c then some (out, .value t key (v ++ [blank c])) else none := by
  by_cases hamp : c = '&'
  · rw [hamp]; rfl
  by_cases hlt : c = '<'
  · rw [hlt]; rfl
  by_cases hgt : c = '>'
  · rw [hgt]; rfl
  by_cases hquot : c = '"'
  · rw [hquot]; rfl
  rw [escapeChar, if_neg hamp, if_neg hlt, if_neg hgt, if_neg hquot, run_cons, step,
    if_neg hquot, if_neg hamp, if_neg hlt]
  split_ifs <;> rfl

/-- An escaped value, by induction on the value. -/
theorem run_value (out : List Token) (t : Tag) (key v s : List Char) :
    run (out, .value t key v) (s.flatMap escapeChar) =
      if s.all isChar then some (out, .value t key (v ++ s.map blank)) else none := by
  induction s generalizing v with
  | nil => simp [run]
  | cons c s ih =>
      rw [List.flatMap_cons, run_append, run_escapeChar]
      by_cases hc : isChar c
      · rw [if_pos hc, Option.bind_some, ih]
        simp [hc]
      · simp [hc]

/-- The lexer stands behind the name or behind a value of a tag. -/
def Behind (m : Mode) (t : Tag) : Prop :=
  ∀ out c, isNameChar c = false → step (out, m) c = afterTag out t c

theorem behind_start (name : List Char) : Behind (.start name) ⟨name, []⟩ :=
  fun _ _ h => if_neg (Bool.eq_false_iff.mp h)

theorem behind_quoted (t : Tag) : Behind (.quoted t) t := fun _ _ _ => rfl

/-- The front of an attribute, up to its value. -/
theorem run_key {m : Mode} {t : Tag} (hm : Behind m t) (out : List Token) {key : List Char}
    (hkey : IsName key) :
    run (out, m) (' ' :: (key ++ ['=', '"'])) = some (out, .value t key []) := by
  cases key with
  | nil => exact hkey.elim
  | cons c rest =>
    obtain ⟨hstart, hrest⟩ := hkey
    have htag : step (out, .tag t) c = some (out, .attr t [c]) := if_pos hstart
    rw [run_cons, hm out ' ' (by decide)]
    show run (out, .tag t) (c :: (rest ++ ['=', '"'])) = _
    rw [run_cons, htag, Option.bind_some, run_append, run_name (takesName_attr t) out [c] hrest]
    rfl

/-- An attribute. -/
theorem run_attrText {m : Mode} {t : Tag} (hm : Behind m t) (out : List Token)
    {a : List Char × List Char} (hkey : IsName a.1) (hnew : a.1 ∉ t.attrs.map Prod.fst) :
    run (out, m) (attrText a) =
      if a.2.all isChar then
        some (out, .quoted { t with attrs := t.attrs ++ [(a.1, a.2.map blank)] })
      else none := by
  have htext : attrText a =
      ' ' :: (a.1 ++ ['=', '"']) ++ (a.2.flatMap escapeChar ++ ['"']) := by
    simp [attrText]
  rw [htext, run_append, run_key hm out hkey, Option.bind_some, run_append, run_value]
  have hany : ¬ (t.attrs.any fun b => b.1 = a.1) = true := by
    rw [List.any_eq_true]
    rintro ⟨b, hb, hsame⟩
    exact hnew (of_decide_eq_true hsame ▸ List.mem_map_of_mem hb)
  split_ifs
  · rw [Option.bind_some, List.nil_append, run_cons, step, if_pos rfl, if_neg hany]
    rfl
  · rfl

/-- The attributes of a tag, by induction on the attributes. -/
theorem run_attrs {m : Mode} {t : Tag} (hm : Behind m t) (out : List Token)
    {attrs : List (List Char × List Char)} (hkeys : ∀ a ∈ attrs, IsName a.1)
    (honce : ((t.attrs ++ attrs).map Prod.fst).Nodup) :
    (attrs.all (fun a => a.2.all isChar) = true →
      ∃ m', Behind m' { t with attrs := t.attrs ++ attrs.map fun a => (a.1, a.2.map blank) } ∧
        run (out, m) (attrs.flatMap attrText) = some (out, m')) ∧
    (attrs.all (fun a => a.2.all isChar) = false →
      run (out, m) (attrs.flatMap attrText) = none) := by
  induction attrs generalizing m t with
  | nil =>
      refine ⟨fun _ => ⟨m, ?_, rfl⟩, fun h => ?_⟩
      · rwa [List.map_nil, List.append_nil]
      · cases h
  | cons a attrs ih =>
      rw [List.forall_mem_cons] at hkeys
      have hnew : a.1 ∉ t.attrs.map Prod.fst := by
        rw [List.map_append, List.map_cons, List.nodup_append] at honce
        exact fun h => honce.2.2 _ h _ List.mem_cons_self rfl
      rw [List.flatMap_cons, run_append, run_attrText hm out hkeys.1 hnew, List.all_cons]
      by_cases ha : a.2.all isChar
      · have hrest := @ih _ _ (behind_quoted
          { t with attrs := t.attrs ++ [(a.1, a.2.map blank)] }) hkeys.2 (by simpa using honce)
        rw [if_pos ha, ha, Bool.true_and, Option.bind_some, List.map_cons]
        simpa using hrest
      · rw [if_neg ha, Bool.eq_false_iff.mpr ha, Bool.false_and]
        exact ⟨fun h => absurd h (by decide), fun _ => rfl⟩

/-- A tag up to its end, and what ends it. -/
theorem run_tagText (out : List Token) {t : Tag} (h : t.Legal) :
    (t.printable = true → ∃ m, Behind m (t.mapValues (List.map blank)) ∧
      run (out, .content) (tagText t) = some (out, m)) ∧
    (t.printable = false → run (out, .content) (tagText t) = none) := by
  obtain ⟨name, attrs⟩ := t
  obtain ⟨hname, hkeys, honce⟩ := h
  cases name with
  | nil => exact hname.elim
  | cons c rest =>
    obtain ⟨hstart, hrest⟩ := hname
    have hless : step (out, .less) c = some (out, .start [c]) := by
      have hslash : c ≠ '/' := by
        rintro rfl
        exact absurd hstart (by decide)
      rw [step, if_neg hslash, if_pos hstart]
    have hfront : run (out, .content) (tagText ⟨c :: rest, attrs⟩) =
        run (out, .start (c :: rest)) (attrs.flatMap attrText) := by
      show run (out, .less) (c :: (rest ++ attrs.flatMap attrText)) = _
      rw [run_cons, hless, Option.bind_some, run_append,
        run_name takesName_start out [c] hrest]
      rfl
    rw [hfront]
    exact run_attrs (behind_start (c :: rest)) out
      (fun a ha => hkeys a.1 (List.mem_map_of_mem ha)) honce

/-- A token. -/
theorem run_render (out : List Token) {t : Token} (h : t.Legal) :
    run (out, .content) (render t) =
      if t.printable then some (out ++ [t.mapValues (List.map blank)], .content) else none := by
  cases t with
  | opened t =>
      obtain ⟨hsome, hnone⟩ := run_tagText out h
      rw [render, run_append, Token.printable]
      split_ifs with hprint
      · obtain ⟨m, hm, hrun⟩ := hsome hprint
        rw [hrun, Option.bind_some, run_cons, hm out '>' (by decide)]
        rfl
      · rw [hnone (Bool.eq_false_iff.mpr hprint)]
        rfl
  | empty t =>
      obtain ⟨hsome, hnone⟩ := run_tagText out h
      rw [render, run_append, Token.printable]
      split_ifs with hprint
      · obtain ⟨m, hm, hrun⟩ := hsome hprint
        rw [hrun, Option.bind_some, run_cons, hm out '/' (by decide)]
        rfl
      · rw [hnone (Bool.eq_false_iff.mpr hprint)]
        rfl
  | closed name =>
      have hchars : ∀ x ∈ name, isNameChar x := by
        cases name with
        | nil => exact h.elim
        | cons c rest => exact List.forall_mem_cons.mpr ⟨isNameChar_of_start h.1, h.2⟩
      show run (out, .ending []) (name ++ ['>']) = _
      rw [run_append, run_name takesName_ending out [] hchars]
      rfl
  | char c =>
      show run (out, .content) (escapeChar c) = some (out ++ [.char c], .content)
      by_cases hamp : c = '&'
      · rw [hamp]; rfl
      by_cases hlt : c = '<'
      · rw [hlt]; rfl
      by_cases hgt : c = '>'
      · rw [hgt]; rfl
      by_cases hquot : c = '"'
      · rw [hquot]; rfl
      rw [escapeChar, if_neg hamp, if_neg hlt, if_neg hgt, if_neg hquot, run_cons, step,
        if_neg hlt, if_neg hamp, if_pos h.1]
      rfl

/-- Some tokens, by induction on the tokens. -/
theorem run_tokens (out : List Token) {ts : List Token} (h : ∀ t ∈ ts, t.Legal) :
    run (out, .content) (ts.flatMap render) =
      if ts.all Token.printable then
        some (out ++ ts.map (Token.mapValues (List.map blank)), .content)
      else none := by
  induction ts generalizing out with
  | nil => simp [run]
  | cons t ts ih =>
      rw [List.forall_mem_cons] at h
      rw [List.flatMap_cons, run_append, run_render out h.1, List.all_cons]
      by_cases ht : t.printable
      · rw [if_pos ht, Option.bind_some, ih _ h.2, ht, Bool.true_and, List.map_cons,
          List.append_assoc, List.singleton_append]
      · simp [ht]

/-! ## Line ends of what is written -/

theorem IsName.return_not_mem {name : List Char} (h : IsName name) : '\r' ∉ name := by
  cases name with
  | nil => exact h.elim
  | cons c rest =>
    intro hmem
    rcases List.mem_cons.mp hmem with rfl | hmem
    · exact absurd h.1 (by decide)
    · exact absurd (h.2 _ hmem) (by decide)

theorem eol_attrs {attrs : List (List Char × List Char)} (h : ∀ a ∈ attrs, IsName a.1)
    (rest : List Char) :
    eol (attrs.flatMap attrText ++ rest) =
      (attrs.map fun a => (a.1, eol a.2)).flatMap attrText ++ eol rest := by
  induction attrs with
  | nil => rfl
  | cons a attrs ih =>
      rw [List.forall_mem_cons] at h
      have htext : ∀ value v, attrText (a.1, value) ++ v =
          (' ' :: a.1 ++ ['=', '"']) ++ (value.flatMap escapeChar ++ '"' :: v) := by
        simp [attrText]
      have hfront : '\r' ∉ ' ' :: a.1 ++ ['=', '"'] := by
        simpa using h.1.return_not_mem
      rw [List.flatMap_cons, List.append_assoc, htext, eol_append hfront, eol_escape, ih h.2,
        ← htext, List.map_cons, List.flatMap_cons, List.append_assoc]

theorem eol_tagText {t : Tag} (h : t.Legal) (rest : List Char) :
    eol (tagText t ++ rest) = tagText (t.mapValues eol) ++ eol rest := by
  have htext : ∀ (attrs : List (List Char × List Char)) (v : List Char),
      tagText ⟨t.name, attrs⟩ ++ v = ('<' :: t.name) ++ (attrs.flatMap attrText ++ v) := by
    simp [tagText]
  have hfront : '\r' ∉ '<' :: t.name := by
    simpa using h.name.return_not_mem
  have hold := htext t.attrs rest
  have hnew := htext (t.attrs.map fun a => (a.1, eol a.2)) (eol rest)
  rw [show tagText t = tagText ⟨t.name, t.attrs⟩ from rfl, hold, eol_append hfront,
    eol_attrs fun a ha => h.keys a.1 (List.mem_map_of_mem ha)]
  exact hnew.symm

theorem eol_render {t : Token} (h : t.Legal) (rest : List Char) :
    eol (render t ++ rest) = render (t.mapValues eol) ++ eol rest := by
  cases t with
  | opened t =>
      rw [render, List.append_assoc, eol_tagText h, eol_append (by decide)]
      exact (List.append_assoc _ _ _).symm
  | empty t =>
      rw [render, List.append_assoc, eol_tagText h, eol_append (by decide)]
      exact (List.append_assoc _ _ _).symm
  | closed name =>
      have hmem : '\r' ∉ render (.closed name) := by
        simpa [render] using IsName.return_not_mem h
      exact eol_append hmem rest
  | char c => exact eol_append (return_not_mem_escapeChar h.2) rest

theorem eol_tokens {ts : List Token} (h : ∀ t ∈ ts, t.Legal) :
    eol (ts.flatMap render) = (ts.map (Token.mapValues eol)).flatMap render := by
  induction ts with
  | nil => rfl
  | cons t ts ih =>
      rw [List.forall_mem_cons] at h
      rw [List.flatMap_cons, eol_render h.1, ih h.2, List.map_cons, List.flatMap_cons]

/-! ## The round trip -/

theorem Tag.Legal.mapValues {t : Tag} (h : t.Legal) (f : List Char → List Char) :
    (t.mapValues f).Legal := by
  have hkeys : (t.mapValues f).attrs.map Prod.fst = t.attrs.map Prod.fst := by
    simp [Tag.mapValues]
  exact ⟨h.name, by rw [hkeys]; exact h.keys, by rw [hkeys]; exact h.once⟩

theorem Token.Legal.mapValues {t : Token} (h : t.Legal) (f : List Char → List Char) :
    (t.mapValues f).Legal := by
  cases t with
  | opened t => exact Tag.Legal.mapValues h f
  | empty t => exact Tag.Legal.mapValues h f
  | closed name => exact h
  | char c => exact h

theorem Token.printable_eol (t : Token) : (t.mapValues eol).printable = t.printable := by
  have htag : ∀ t : Tag, (t.mapValues eol).printable = t.printable := by
    intro t
    simp [Tag.printable, Tag.mapValues, List.all_map, Function.comp_def, all_isChar_eol]
  cases t with
  | opened t => exact htag t
  | empty t => exact htag t
  | closed name => rfl
  | char c => rfl

theorem Token.mapValues_mapValues (f g : List Char → List Char) (t : Token) :
    (t.mapValues f).mapValues g = t.mapValues fun s => g (f s) := by
  cases t <;> simp [Token.mapValues, Tag.mapValues]

/-- The text of some tokens is read if and only if their values have no character that
XML does not have, and then it says the tokens with their values as an application sees
them. -/
theorem lex_render {ts : List Token} (h : ∀ t ∈ ts, t.Legal) :
    lex (ts.flatMap render) =
      if ts.all Token.printable then some (ts.map (Token.mapValues spaced)) else none := by
  have hlegal : ∀ t ∈ ts.map (Token.mapValues eol), t.Legal := by
    intro t ht
    obtain ⟨u, hu, rfl⟩ := List.mem_map.mp ht
    exact (h u hu).mapValues eol
  have hprint : (ts.map (Token.mapValues eol)).all Token.printable = ts.all Token.printable := by
    rw [List.all_map]
    exact congrArg (List.all ts) (funext Token.printable_eol)
  have hvalues : (ts.map (Token.mapValues eol)).map (Token.mapValues (List.map blank)) =
      ts.map (Token.mapValues spaced) := by
    rw [List.map_map]
    exact List.map_congr_left fun t _ => t.mapValues_mapValues eol (List.map blank)
  have hrun := run_tokens [] hlegal
  rw [hprint, hvalues, List.nil_append] at hrun
  rw [lex, eol_tokens h]
  show (match run ([], .content) _ with | some (out, .content) => some out | _ => none) = _
  rw [hrun]
  split_ifs <;> rfl

end CodeLib.Xml
