import PolyOnTest.Builtins.JunitXml
import PolyOnTest.CodeLib.Xml

/-!
# The JUnit file as an XML document

What an XML processor makes of the text of `JunitReporter::finish`.

The text is the text of some tokens (`docText_eq`), and the tokens are nested whatever the
rows are (`document_nested`).  `xml_escape` replaces the characters that have a meaning in
XML.  It does not replace the control characters, which XML does not have at all, and it
does not replace the line ends and tabs, which an attribute value does not keep.

`report_document` is the result: which files are documents, and which of them say what the
reporter knows.
-/

namespace PolyOnTest.Builtins

open CodeLib
open Xml (Tag Token render)

/-! ## The tokens of the file -/

/-- Character data. -/
def dataTokens (s : String) : List Token := s.toList.map .char

/-- The tag of a row. -/
def caseTag (key : Str × Str) : Tag :=
  ⟨"testcase".toList, [("classname".toList, key.1), ("name".toList, key.2)]⟩

/-- The tag for the message of a failed case. -/
def failureTag (message : Str) : Tag := ⟨"failure".toList, [("message".toList, message)]⟩

/-- The tokens of a row that shows this. -/
def rowTokens : (Str × Str) × Option Str → List Token
  | (key, none) => dataTokens "  " ++ .empty (caseTag key) :: dataTokens "\n"
  | (key, some message) =>
      dataTokens "  " ++ .opened (caseTag key) :: (dataTokens "\n    " ++
        .empty (failureTag message) :: (dataTokens "\n  " ++
          .closed "testcase".toList :: dataTokens "\n"))

/-- The tag of the file. -/
def suiteTag (suite : Str) (tests failures : Nat) : Tag :=
  ⟨"testsuite".toList, [("name".toList, suite), ("tests".toList, Nat.toDigits 10 tests),
    ("failures".toList, Nat.toDigits 10 failures)]⟩

/-- The tokens of a file that shows a suite, two numbers and some rows. -/
def document (x : Str × Nat × Nat × List ((Str × Str) × Option Str)) : List Token :=
  .opened (suiteTag x.1 x.2.1 x.2.2.1) :: (dataTokens "\n" ++ (x.2.2.2.flatMap rowTokens ++
    .closed "testsuite".toList :: dataTokens "\n"))

/-- An attribute, up to its second quotation mark. -/
theorem attrText_attr (key value : Str) :
    Xml.attrText (key, value) = ' ' :: key ++ ['=', '"'] ++ attrText value := by
  have hvalue : value.flatMap Xml.escapeChar = value.flatMap escapeChar := rfl
  simp [Xml.attrText, attrText, hvalue]

theorem escapeChar_plain {c : Char} (h : ¬ (c = '&' ∨ c = '<' ∨ c = '>' ∨ c = '"')) :
    escapeChar c = [c] := by
  simp only [not_or] at h
  rw [escapeChar, if_neg h.1, if_neg h.2.1, if_neg h.2.2.1, if_neg h.2.2.2]

/-- A numeral needs no escaping. -/
theorem attrText_digits (n : Nat) : attrText (Nat.toDigits 10 n) = numberText n := by
  have hdigits : ∀ c ∈ Nat.toDigits 10 n, escapeChar c = [c] := by
    intro c hc
    have hdigit := Nat.isDigit_of_mem_toDigits (by decide) (by decide) hc
    refine escapeChar_plain fun hmarkup => ?_
    rcases hmarkup with rfl | rfl | rfl | rfl <;> exact absurd hdigit (by decide)
  rw [attrText, numberText, List.flatMap_congr hdigits, List.flatMap_singleton']

theorem namesText_eq (key : Str × Str) :
    namesText key = "  ".toList ++ Xml.tagText (caseTag key) := by
  have hfront : "  <testcase classname=\"".toList =
      "  ".toList ++ '<' :: "testcase".toList ++ (' ' :: "classname".toList ++ ['=', '"']) := by
    decide
  have hname : " name=\"".toList = ' ' :: "name".toList ++ ['=', '"'] := by decide +kernel
  unfold namesText Xml.tagText caseTag
  rw [hfront, hname, List.flatMap_cons, List.flatMap_cons, List.flatMap_nil, List.append_nil,
    attrText_attr, attrText_attr]
  simp only [List.append_assoc, List.cons_append]

theorem failureText_eq (message : Str) :
    failureText message = ">\n    ".toList ++ (Xml.tagText (failureTag message) ++
      "/>\n  </testcase>\n".toList) := by
  have hfront : ">\n    <failure message=\"".toList =
      ">\n    ".toList ++ '<' :: "failure".toList ++ (' ' :: "message".toList ++ ['=', '"']) := by
    decide
  unfold failureText Xml.tagText failureTag
  rw [hfront, List.flatMap_cons, List.flatMap_nil, List.append_nil, attrText_attr]
  simp only [List.append_assoc, List.cons_append]

/-- Character data without markup is its own text. -/
theorem render_data {s : String} (hs : (s.toList.all fun c => Xml.escapeChar c = [c]) = true) :
    (dataTokens s).flatMap render = s.toList := by
  simp only [List.all_eq_true, decide_eq_true_eq] at hs
  rw [dataTokens, List.flatMap_map]
  exact (List.flatMap_congr hs).trans (List.flatMap_singleton' _)

theorem rowText_eq (x : (Str × Str) × Option Str) : rowText x = (rowTokens x).flatMap render := by
  obtain ⟨key, message⟩ := x
  have hindent := render_data (s := "  ") (by decide +kernel)
  have hfeed := render_data (s := "\n") (by decide +kernel)
  cases message with
  | none =>
    have hend : "/>\n".toList = ['/', '>'] ++ "\n".toList := by decide +kernel
    rw [rowText, namesText_eq, rowTokens, List.flatMap_append, List.flatMap_cons, hindent, hfeed,
      render, List.append_assoc, List.append_assoc, ← hend]
    rfl
  | some message =>
    have hdeep := render_data (s := "\n    ") (by decide +kernel)
    have hback := render_data (s := "\n  ") (by decide +kernel)
    have hopen : ">\n    ".toList = ['>'] ++ "\n    ".toList := by decide +kernel
    have hclose : "/>\n  </testcase>\n".toList =
        ['/', '>'] ++ ("\n  ".toList ++ ('<' :: '/' :: ("testcase".toList ++ ['>']) ++
          "\n".toList)) := by
      decide
    rw [rowText, namesText_eq, rowTokens, tailText, Option.map_some, Option.getD_some,
      failureText_eq, hopen, hclose]
    simp only [List.flatMap_append, List.flatMap_cons, hindent, hfeed, hdeep, hback, render,
      List.append_assoc]

/-- The text of the file is the declaration and the text of its tokens. -/
theorem docText_eq (x : Str × Nat × Nat × List ((Str × Str) × Option Str)) :
    docText x = Xml.declaration ++ (document x).flatMap render := by
  have hfeed := render_data (s := "\n") (by decide +kernel)
  have hdecl : "<?xml version=\"1.0\" encoding=\"UTF-8\"?>\n<testsuite name=\"".toList =
      Xml.declaration ++ ('<' :: "testsuite".toList ++ (' ' :: "name".toList ++ ['=', '"'])) := by
    decide
  have htests : " tests=\"".toList = ' ' :: "tests".toList ++ ['=', '"'] := by decide +kernel
  have hfailures : " failures=\"".toList = ' ' :: "failures".toList ++ ['=', '"'] := by decide +kernel
  have hbody : ">\n".toList = ['>'] ++ "\n".toList := by decide +kernel
  have hend : "</testsuite>\n".toList =
      '<' :: '/' :: ("testsuite".toList ++ ['>']) ++ "\n".toList := by
    decide
  have hrows : x.2.2.2.flatMap rowText = (x.2.2.2.flatMap rowTokens).flatMap render := by
    rw [List.flatMap_assoc]
    exact List.flatMap_congr fun row _ => rowText_eq row
  have htag : Xml.tagText (suiteTag x.1 x.2.1 x.2.2.1) =
      '<' :: ("testsuite".toList ++ ((' ' :: "name".toList ++ ['=', '"'] ++ attrText x.1) ++
        ((' ' :: "tests".toList ++ ['=', '"'] ++ numberText x.2.1) ++
          (' ' :: "failures".toList ++ ['=', '"'] ++ numberText x.2.2.1)))) := by
    unfold Xml.tagText suiteTag
    rw [List.flatMap_cons, List.flatMap_cons, List.flatMap_cons, List.flatMap_nil,
      List.append_nil, attrText_attr, attrText_attr, attrText_attr, attrText_digits,
      attrText_digits]
  unfold docText rowsText document
  rw [hdecl, htests, hfailures, hbody, hend, hrows, List.flatMap_cons, List.flatMap_append,
    List.flatMap_append, List.flatMap_cons, hfeed, render, render, htag]
  simp only [List.append_assoc, List.cons_append]

/-! ## Its form -/

theorem dataTokens_legal {s : String}
    (hs : (s.toList.all fun c => Xml.isChar c && c ≠ '\r') = true) :
    ∀ t ∈ dataTokens s, t.Legal := by
  simp only [List.all_eq_true, Bool.and_eq_true, decide_eq_true_eq] at hs
  intro t ht
  obtain ⟨c, hc, rfl⟩ := List.mem_map.mp ht
  exact hs c hc

theorem caseTag_legal (key : Str × Str) : (caseTag key).Legal :=
  ⟨(by decide +kernel : Xml.IsName "testcase".toList),
    (by decide +kernel : ∀ key ∈ ["classname".toList, "name".toList], Xml.IsName key),
    (by decide +kernel : ["classname".toList, "name".toList].Nodup)⟩

theorem failureTag_legal (message : Str) : (failureTag message).Legal :=
  ⟨(by decide +kernel : Xml.IsName "failure".toList),
    (by decide +kernel : ∀ key ∈ ["message".toList], Xml.IsName key),
    (by decide +kernel : ["message".toList].Nodup)⟩

theorem suiteTag_legal (suite : Str) (tests failures : Nat) :
    (suiteTag suite tests failures).Legal :=
  ⟨(by decide +kernel : Xml.IsName "testsuite".toList),
    (by decide +kernel : ∀ key ∈ ["name".toList, "tests".toList, "failures".toList], Xml.IsName key),
    (by decide +kernel : ["name".toList, "tests".toList, "failures".toList].Nodup)⟩

theorem rowTokens_legal (x : (Str × Str) × Option Str) : ∀ t ∈ rowTokens x, t.Legal := by
  obtain ⟨key, message⟩ := x
  have hindent := @dataTokens_legal "  " (by decide +kernel)
  have hfeed := @dataTokens_legal "\n" (by decide +kernel)
  cases message with
  | none =>
    simp only [rowTokens, List.forall_mem_append, List.forall_mem_cons]
    exact ⟨hindent, caseTag_legal key, hfeed⟩
  | some message =>
    simp only [rowTokens, List.forall_mem_append, List.forall_mem_cons]
    refine ⟨hindent, caseTag_legal key, @dataTokens_legal "\n    " (by decide +kernel),
      failureTag_legal message, @dataTokens_legal "\n  " (by decide +kernel), ?_, hfeed⟩
    exact (by decide +kernel : Xml.IsName "testcase".toList)

theorem document_legal (x : Str × Nat × Nat × List ((Str × Str) × Option Str)) :
    ∀ t ∈ document x, t.Legal := by
  have hfeed := @dataTokens_legal "\n" (by decide +kernel)
  simp only [document, List.forall_mem_cons, List.forall_mem_append]
  refine ⟨suiteTag_legal _ _ _, hfeed, fun t ht => ?_, ?_, hfeed⟩
  · obtain ⟨row, -, ht⟩ := List.mem_flatMap.mp ht
    exact rowTokens_legal row t ht
  · exact (by decide +kernel : Xml.IsName "testsuite".toList)

/-- A row leaves the open elements as they are. -/
theorem rowTokens_nest (name : Str) (names : List Str) (x : (Str × Str) × Option Str) :
    (rowTokens x).foldlM Xml.nest (name :: names, true) = some (name :: names, true) := by
  obtain ⟨key, message⟩ := x
  cases message <;> rfl

theorem document_nested (x : Str × Nat × Nat × List ((Str × Str) × Option Str)) :
    Xml.Nested (document x) := by
  have hrows : ∀ rows : List ((Str × Str) × Option Str),
      (rows.flatMap rowTokens).foldlM Xml.nest (["testsuite".toList], true) =
        some (["testsuite".toList], true) := by
    intro rows
    induction rows with
    | nil => rfl
    | cons row rows ih =>
        rw [List.flatMap_cons, List.foldlM_append, rowTokens_nest]
        exact ih
  show ((x.2.2.2.flatMap rowTokens ++ .closed "testsuite".toList :: dataTokens "\n").foldlM
    Xml.nest (["testsuite".toList], true)) = some ([], true)
  rw [List.foldlM_append, hrows]
  rfl

/-! ## Its strings -/

/-- The strings that a file shows. -/
def shownStrings (x : Str × Nat × Nat × List ((Str × Str) × Option Str)) : List Str :=
  x.1 :: x.2.2.2.flatMap fun row => row.1.1 :: row.1.2 :: row.2.toList

/-- What a file shows, with the strings that a processor reports. -/
def asRead (x : Str × Nat × Nat × List ((Str × Str) × Option Str)) :
    Str × Nat × Nat × List ((Str × Str) × Option Str) :=
  (Xml.spaced x.1, x.2.1, x.2.2.1, x.2.2.2.map fun row =>
    ((Xml.spaced row.1.1, Xml.spaced row.1.2), row.2.map Xml.spaced))

theorem digits_plain (n : Nat) :
    Xml.spaced (Nat.toDigits 10 n) = Nat.toDigits 10 n ∧
      (Nat.toDigits 10 n).all Xml.isChar := by
  have hdigit : ∀ c ∈ Nat.toDigits 10 n, c.isDigit := fun c hc =>
    Nat.isDigit_of_mem_toDigits (by decide) (by decide) hc
  constructor
  · rw [Xml.spaced_eq_iff]
    intro c hc hspace
    have hd := hdigit c hc
    simp only [Xml.isSpace, Bool.or_eq_true, decide_eq_true_eq] at hspace
    rcases hspace with ((rfl | rfl) | rfl) | rfl
    · rfl
    · exact absurd hd (by decide)
    · exact absurd hd (by decide)
    · exact absurd hd (by decide)
  · rw [List.all_eq_true]
    intro c hc
    have hrange : 48 ≤ c.toNat ∧ c.toNat ≤ 57 := Char.isDigit_iff_toNat.mp (hdigit c hc)
    have hnumber : 32 ≤ c.toNat ∧ c.toNat ≠ 0xFFFE ∧ c.toNat ≠ 0xFFFF := by omega
    simp [Xml.isChar, hnumber]

theorem rowTokens_spaced (x : (Str × Str) × Option Str) :
    (rowTokens x).map (Token.mapValues Xml.spaced) =
      rowTokens ((Xml.spaced x.1.1, Xml.spaced x.1.2), x.2.map Xml.spaced) := by
  obtain ⟨key, message⟩ := x
  cases message <;> rfl

theorem document_spaced (x : Str × Nat × Nat × List ((Str × Str) × Option Str)) :
    (document x).map (Token.mapValues Xml.spaced) = document (asRead x) := by
  have hrows : (x.2.2.2.flatMap rowTokens).map (Token.mapValues Xml.spaced) =
      (asRead x).2.2.2.flatMap rowTokens := by
    rw [List.map_flatMap, asRead, List.flatMap_map]
    exact List.flatMap_congr fun row _ => rowTokens_spaced row
  have htag : (suiteTag x.1 x.2.1 x.2.2.1).mapValues Xml.spaced =
      suiteTag (Xml.spaced x.1) x.2.1 x.2.2.1 := by
    unfold suiteTag Tag.mapValues
    simp only [List.map_cons, List.map_nil, (digits_plain _).1]
  unfold document
  rw [List.map_cons, List.map_append, List.map_append, hrows, Token.mapValues, htag]
  rfl

theorem dataTokens_printable (s : String) : (dataTokens s).all Token.printable = true := by
  rw [dataTokens, List.all_map]
  exact List.all_eq_true.mpr fun _ _ => rfl

theorem caseTag_printable (key : Str × Str) :
    (caseTag key).printable = (key.1.all Xml.isChar && key.2.all Xml.isChar) := by
  unfold caseTag Tag.printable
  rw [List.all_cons, List.all_cons, List.all_nil, Bool.and_true]

theorem failureTag_printable (message : Str) :
    (failureTag message).printable = message.all Xml.isChar := by
  unfold failureTag Tag.printable
  rw [List.all_cons, List.all_nil, Bool.and_true]

theorem suiteTag_printable (suite : Str) (tests failures : Nat) :
    (suiteTag suite tests failures).printable = suite.all Xml.isChar := by
  unfold suiteTag Tag.printable
  rw [List.all_cons, List.all_cons, List.all_cons, List.all_nil]
  simp only [(digits_plain _).2, Bool.and_true]

theorem rowTokens_printable (x : (Str × Str) × Option Str) :
    (rowTokens x).all Token.printable =
      (x.1.1 :: x.1.2 :: x.2.toList).all fun s => s.all Xml.isChar := by
  obtain ⟨key, message⟩ := x
  cases message with
  | none =>
    rw [rowTokens, List.all_append, List.all_cons, dataTokens_printable, dataTokens_printable,
      Token.printable, caseTag_printable, Option.toList_none]
    simp only [List.all_cons, List.all_nil, Bool.true_and, Bool.and_true]
  | some message =>
    rw [rowTokens, List.all_append, List.all_cons, List.all_append, List.all_cons,
      List.all_append, List.all_cons, dataTokens_printable, dataTokens_printable,
      dataTokens_printable, dataTokens_printable, Token.printable, Token.printable,
      Token.printable, caseTag_printable, failureTag_printable, Option.toList_some]
    · simp only [List.all_cons, List.all_nil, Bool.true_and, Bool.and_true, Bool.and_assoc]
    · exact fun _ h => by cases h
    · exact fun _ h => by cases h

theorem document_printable (x : Str × Nat × Nat × List ((Str × Str) × Option Str)) :
    (document x).all Token.printable = (shownStrings x).all fun s => s.all Xml.isChar := by
  have hrows : (x.2.2.2.flatMap rowTokens).all Token.printable =
      (x.2.2.2.flatMap fun row => row.1.1 :: row.1.2 :: row.2.toList).all
        fun s => s.all Xml.isChar := by
    rw [List.all_flatMap, List.all_flatMap]
    exact congrArg (List.all x.2.2.2) (funext rowTokens_printable)
  rw [document, List.all_cons, List.all_append, List.all_append, List.all_cons, hrows,
    dataTokens_printable, Token.printable, suiteTag_printable, shownStrings, List.all_cons]
  simp [Token.printable]

/-! ## Reading the file -/

theorem document_injective : Function.Injective document := by
  intro x y h
  apply docText_selfDelimiting.injective
  rw [docText_eq, docText_eq, h]

/-- The text of a file as an XML processor reads it. -/
theorem parse_docText (x : Str × Nat × Nat × List ((Str × Str) × Option Str)) :
    Xml.parse (docText x) =
      if (shownStrings x).all fun s => s.all Xml.isChar then some (document (asRead x))
      else none := by
  rw [Xml.parse, docText_eq, Text.stripPrefix_append, Option.bind_some,
    Xml.lex_render (document_legal x), document_printable, document_spaced]
  split_ifs
  · rw [Option.filter_some, if_pos (decide_eq_true (document_nested (asRead x)))]
  · rfl

/-- What the file of a reporter shows. -/
def JunitReporter.content (r : JunitReporter) :
    Str × Nat × Nat × List ((Str × Str) × Option Str) :=
  (r.suite, r.tests, r.failures, r.cases.map JunitCase.shown)

/-- A string that an attribute gives back: characters that XML has, and no blanks but
spaces. -/
def Keeps (s : Str) : Prop := ∀ c ∈ s, Xml.isChar c ∧ (Xml.isSpace c → c = ' ')

instance (s : Str) : Decidable (Keeps s) := List.decidableBAll _ s

theorem asRead_eq_iff (x : Str × Nat × Nat × List ((Str × Str) × Option Str)) :
    asRead x = x ↔ ∀ s ∈ shownStrings x, Xml.spaced s = s := by
  obtain ⟨suite, tests, failures, rows⟩ := x
  have hrow : ∀ row : (Str × Str) × Option Str,
      ((Xml.spaced row.1.1, Xml.spaced row.1.2), row.2.map Xml.spaced) = row ↔
        ∀ s ∈ row.1.1 :: row.1.2 :: row.2.toList, Xml.spaced s = s := by
    rintro ⟨⟨suite, name⟩, message⟩
    cases message <;> simp [and_assoc]
  have hrows := @List.map_inj_left _ _ rows (fun row =>
    ((Xml.spaced row.1.1, Xml.spaced row.1.2), row.2.map Xml.spaced)) id
  rw [List.map_id] at hrows
  simp only [asRead, shownStrings, Prod.mk.injEq, true_and, List.forall_mem_cons,
    List.mem_flatMap]
  refine and_congr_right fun _ => hrows.trans ⟨?_, ?_⟩
  · rintro h s ⟨row, hmem, hs⟩
    exact (hrow row).mp (h row hmem) s hs
  · exact fun h row hmem => (hrow row).mpr fun s hs => h s ⟨row, hmem, hs⟩

/-- The strings of an event that the reporter keeps. -/
def keptStrings : Event → List Str
  | .suiteStart name => [name]
  | .caseEnd suite name _ => [suite, name]
  | .assertFail suite name _ _ message => [suite, name, message]
  | _ => []

/-- A property that every row has, and the new one, behind a write. -/
theorem upsert_forall {Q : JunitCase → Prop} {cases : List JunitCase}
    {change : JunitCase → JunitCase} {row : JunitCase} (hchange : ∀ c, Q c → Q (change c))
    (hrow : Q row) (h : ∀ c ∈ cases, Q c) : ∀ c ∈ JunitReporter.upsert cases change row, Q c := by
  unfold JunitReporter.upsert
  cases hmodify : LastWrite.modifyLast (fun c => decide (c.key = row.key)) change cases with
  | none => exact List.forall_mem_append.mpr ⟨h, List.forall_mem_singleton.mpr hrow⟩
  | some rows =>
    obtain ⟨front, c, back, rfl, -, rfl⟩ := LastWrite.modifyLast_eq_some hmodify
    simp only [List.forall_mem_append, List.forall_mem_cons, Option.getD_some] at h ⊢
    exact ⟨h.1, hchange c h.2.1, h.2.2⟩

/-- The strings of a reporter have a property. -/
structure Stores (P : Str → Prop) (r : JunitReporter) : Prop where
  suite : P r.suite
  rows : ∀ c ∈ r.cases, P c.suite ∧ P c.name ∧ ∀ message ∈ c.message, P message

theorem Stores.onEvent {P : Str → Prop} {r : JunitReporter} (h : Stores P r) {ev : Event}
    (hev : ∀ s ∈ keptStrings ev, P s) : Stores P (r.onEvent ev) := by
  cases ev with
  | suiteStart name => exact ⟨hev name (by simp [keptStrings]), h.rows⟩
  | caseEnd suite name status =>
      refine ⟨h.suite, upsert_forall (fun c hc => hc) ⟨?_, ?_, fun _ hm => ?_⟩ h.rows⟩
      · exact hev suite (by simp [keptStrings])
      · exact hev name (by simp [keptStrings])
      · cases hm
  | assertFail suite name file line message =>
      have hmessage : ∀ m ∈ some message, P m := by
        rintro m ⟨⟩
        exact hev message (by simp [keptStrings])
      refine ⟨h.suite, upsert_forall (fun c hc => ⟨hc.1, hc.2.1, hmessage⟩)
        ⟨?_, ?_, hmessage⟩ h.rows⟩
      · exact hev suite (by simp [keptStrings])
      · exact hev name (by simp [keptStrings])
  | _ => exact h

/-- The strings of a reporter come from its events, by induction on the events. -/
theorem receive_stores {P : Str → Prop} (hnew : P "polyontest".toList) {evs : List Event}
    (h : ∀ ev ∈ evs, ∀ s ∈ keptStrings ev, P s) : Stores P (JunitReporter.receive evs) := by
  induction evs using List.reverseRecOn with
  | nil => exact ⟨hnew, fun _ hc => absurd hc List.not_mem_nil⟩
  | append_singleton evs ev ih =>
      rw [List.forall_mem_append, List.forall_mem_singleton] at h
      rw [JunitReporter.receive, List.foldl_append]
      exact (ih h.1).onEvent h.2

/-- The file shows no other strings, but the text for no message. -/
theorem Stores.shown {P : Str → Prop} {r : JunitReporter} (h : Stores P r)
    (hfailed : P "failed".toList) : ∀ s ∈ shownStrings r.content, P s := by
  simp only [shownStrings, JunitReporter.content, List.forall_mem_cons, List.mem_flatMap,
    List.mem_map]
  refine ⟨h.suite, ?_⟩
  rintro s ⟨_, ⟨c, hc, rfl⟩, hs⟩
  obtain ⟨hsuite, hname, hmessage⟩ := h.rows c hc
  simp only [List.mem_cons, Option.mem_toList] at hs
  rcases hs with rfl | rfl | hs
  · exact hsuite
  · exact hname
  · unfold JunitCase.shown at hs
    split_ifs at hs
    · cases hs
      cases hm : c.message with
      | none => exact hfailed
      | some message => exact hmessage message hm

/-- The file of a reporter is a document if and only if XML has every character of the
strings that it shows; the document then shows the strings as attributes give them back.
It shows the strings of the reporter themselves if and only if their blanks are spaces too,
and this is so for every reporter whose events have no other strings. -/
theorem report_document (r : JunitReporter) :
    (Xml.parse r.report =
      if (shownStrings r.content).all fun s => s.all Xml.isChar then
        some (document (asRead r.content))
      else none) ∧
    (Xml.parse r.report = some (document r.content) ↔
      ∀ s ∈ shownStrings r.content, Keeps s) ∧
    ∀ evs, r = JunitReporter.receive evs → (∀ ev ∈ evs, ∀ s ∈ keptStrings ev, Keeps s) →
      Xml.parse r.report = some (document r.content) := by
  have hparse : Xml.parse r.report =
      if (shownStrings r.content).all fun s => s.all Xml.isChar then
        some (document (asRead r.content))
      else none := by
    rw [report_eq]
    exact parse_docText r.content
  have hexact : Xml.parse r.report = some (document r.content) ↔
      ∀ s ∈ shownStrings r.content, Keeps s := by
    rw [hparse]
    constructor
    · intro h s hs c hc
      split_ifs at h with hchars
      have hread := document_injective (Option.some.inj h)
      rw [asRead_eq_iff] at hread
      rw [List.all_eq_true] at hchars
      exact ⟨List.all_eq_true.mp (hchars s hs) c hc, (Xml.spaced_eq_iff s).mp (hread s hs) c hc⟩
    · intro h
      have hchars : ((shownStrings r.content).all fun s => s.all Xml.isChar) = true :=
        List.all_eq_true.mpr fun s hs => List.all_eq_true.mpr fun c hc => (h s hs c hc).1
      have hread : asRead r.content = r.content := (asRead_eq_iff _).mpr fun s hs =>
        (Xml.spaced_eq_iff s).mpr fun c hc => (h s hs c hc).2
      rw [if_pos hchars, hread]
  refine ⟨hparse, hexact, ?_⟩
  rintro evs rfl h
  exact hexact.mpr ((receive_stores (by decide +kernel) h).shown (by decide +kernel))

end PolyOnTest.Builtins
