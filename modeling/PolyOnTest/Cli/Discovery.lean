import PolyOnTest.Cli.Isolated
import PolyOnTest.Wire.Messages

/-!
# What the listing of the harness parses to

The discovery path of the harness writes one line for each case, and
`discover_cases` reads them.  When the names are words without a dot and the
lines fit their buffer, the answer is the list of the cases in its order
(`discoverCases_listing`).
-/

namespace PolyOnTest.Cli

open CodeLib CodeLib.CMemory PolyOnTest.Builtins PolyOnTest.Harness PolyOnTest.Wire

/-- A name that is UTF-8 text, a word without a dot. -/
structure WordName (name : Option CStr) : Prop where
  text : name = some (cStr (nameText name))
  word : IsName (nameText name)

/-- Three such names. -/
structure WordId (id : CaseId) : Prop where
  suite : WordName id.suite
  group : WordName id.group
  name : WordName id.name

/-- The case of the host for a case of the harness. -/
def testCase (t : Case) : TestCase :=
  ⟨nameText t.suite, nameText t.group, nameText t.name⟩

/-- The calls of `append_str` for the line of a case. -/
def discoverFrags (t : Case) : List Frag :=
  [litFrag "list-case:", nameFrag t.suite, litFrag ".", nameFrag t.group, litFrag ".",
    nameFrag t.name]

/-- The line of a case is not cut. -/
def FitsLine (t : Case) : Prop := (lineText (discoverFrags t)).length < 256

instance (t : Case) : Decidable (FitsLine t) :=
  inferInstanceAs (Decidable ((lineText (discoverFrags t)).length < 256))

/-- The text of a line behind `list-case:`. -/
def dottedId (c : TestCase) : Str := c.suite ++ '.' :: (c.group ++ '.' :: c.name)

/-- The text of a line. -/
def listCaseText (c : TestCase) : Str := "list-case:".toList ++ dottedId c

/-! ## The bytes -/

theorem nul_not_mem_nameText (name : Option CStr) : '\x00' ∉ nameText name := by
  refine Utf8.not_mem_lossy_ascii (b := 0) (by decide) ?_
  cases name with
  | none => exact List.not_mem_nil
  | some name => exact name.noNul

theorem WordName.bytes {name : Option CStr} (h : WordName name) :
    (orUnknown name).bytes = Utf8.encode (nameText name) := by
  have hbytes := bytesOf_cStr (nul_not_mem_nameText name)
  rw [← h.text] at hbytes
  rw [← hbytes, h.text]
  rfl

theorem lit_bytes {s : String} (h : '\x00' ∉ s.toList) :
    (litFrag s).text = Utf8.encode s.toList :=
  CStr.ofBytes_bytes (Utf8.zero_not_mem_encode h)

theorem discoverLine_bytes {t : Case} (h : WordId t.id) (hfit : FitsLine t) :
    (discoverLine t).bytes = Utf8.encode (listCaseText (testCase t)) := by
  have hline : (discoverLine t).bytes = lineText (discoverFrags t) := build_bytes hfit
  have hprefix : (litFrag "list-case:").text = Utf8.encode "list-case:".toList :=
    lit_bytes (by simp)
  have hdot : (litFrag ".").text = String.utf8EncodeChar '.' := by decide
  have hsuite : (nameFrag t.suite).text = Utf8.encode (nameText t.suite) := h.suite.bytes
  have hgroup : (nameFrag t.group).text = Utf8.encode (nameText t.group) := h.group.bytes
  have hname : (nameFrag t.name).text = Utf8.encode (nameText t.name) := h.name.bytes
  rw [hline]
  unfold discoverFrags lineText listCaseText dottedId testCase
  -- the text of the literal must not be evaluated
  generalize "list-case:".toList = front at hprefix ⊢
  simp only [List.flatMap_cons, List.flatMap_nil, List.append_nil, hprefix, hdot,
    hsuite, hgroup, hname, Utf8.encode_append, Utf8.encode_cons]

/-- The listing is the encoding of its lines. -/
theorem listing_bytes {ts : List Case} (h : ∀ t ∈ ts, WordId t.id ∧ FitsLine t) :
    (ts.flatMap fun t => emitLine (discoverLine t)).flatten =
      Utf8.encode (ts.flatMap fun t => listCaseText (testCase t) ++ ['\n']) := by
  have hfeed : Utf8.encode ['\n'] = [0x0A] := by decide
  induction ts with
  | nil => rfl
  | cons t ts ih =>
      obtain ⟨hid, hfit⟩ := h t (by simp)
      rw [List.flatMap_cons, List.flatMap_cons, List.flatten_append, Utf8.encode_append,
        Utf8.encode_append, ih fun x hx => h x (by simp [hx]), hfeed, emitLine,
        discoverLine_bytes hid hfit]
      simp

/-! ## The parser -/

theorem solid_dottedId {c : TestCase} (hsuite : IsName c.suite) (hgroup : IsName c.group)
    (hname : IsName c.name) : Text.Solid (dottedId c) := by
  have hdot : ∀ {s : Str}, Text.Solid s → Text.Solid ('.' :: s) := by
    intro s hs x hx
    rcases List.mem_cons.mp hx with rfl | hx
    · decide
    · exact hs x hx
  exact Text.solid_append hsuite.solid
    (hdot (Text.solid_append hgroup.solid (hdot hname.solid)))

theorem parseDiscoveryLine_text {c : TestCase} (hsuite : IsName c.suite)
    (hgroup : IsName c.group) (hname : IsName c.name) :
    parseDiscoveryLine (listCaseText c) = .ok [c] := by
  unfold parseDiscoveryLine listCaseText
  rw [Text.stripPrefix_append]
  dsimp only
  rw [Text.trim_solid (solid_dottedId hsuite hgroup hname), dottedId,
    Text.splitn_append hsuite.noDot, Text.splitn_append hgroup.noDot]
  rfl

/-- The parser gives the listed cases back, by induction on the lines. -/
theorem parseDiscoveryOutput_listing {cs : List TestCase}
    (h : ∀ c ∈ cs, IsName c.suite ∧ IsName c.group ∧ IsName c.name) :
    parseDiscoveryOutput (cs.flatMap fun c => listCaseText c ++ ['\n']) = .ok cs := by
  unfold parseDiscoveryOutput
  induction cs with
  | nil => rfl
  | cons c cs ih =>
      obtain ⟨hsuite, hgroup, hname⟩ := h c (by simp)
      have hprefix : Text.Solid "list-case:".toList := by decide
      have hsolid : Text.Solid (listCaseText c) :=
        Text.solid_append hprefix (solid_dottedId hsuite hgroup hname)
      have hfeed : '\n' ∉ listCaseText c := fun hmem =>
        absurd (hsolid _ hmem) (by decide)
      have hreturn : '\r' ∉ listCaseText c := fun hmem =>
        absurd (hsolid _ hmem) (by decide)
      have hsplit : (c :: cs).flatMap (fun c => listCaseText c ++ ['\n']) =
          listCaseText c ++ '\n' :: cs.flatMap fun c => listCaseText c ++ ['\n'] := by
        simp
      rw [hsplit, Text.lines_append hfeed hreturn, parseDiscoveryLines,
        parseDiscoveryLine_text hsuite hgroup hname, ih fun x hx => h x (by simp [hx])]
      rfl

/-- A machine whose build succeeds and whose listing process writes the lines of
some cases. -/
theorem discoverCases_listing {m : Machine} {filter : HostFilter} {ts : List Case}
    (hbuild : m.build = .ok ())
    (hdiscover : m.discover filter =
      .ok ⟨(ts.flatMap fun t => emitLine (discoverLine t)).flatten, .exited 0⟩)
    (h : ∀ t ∈ ts, WordId t.id ∧ FitsLine t) :
    discoverCases m filter = .ok (ts.map testCase) := by
  have hnames : ∀ c ∈ ts.map testCase, IsName c.suite ∧ IsName c.group ∧ IsName c.name := by
    intro c hc
    obtain ⟨t, ht, rfl⟩ := List.mem_map.mp hc
    obtain ⟨hid, -⟩ := h t ht
    exact ⟨hid.suite.word, hid.group.word, hid.name.word⟩
  have hparse := parseDiscoveryOutput_listing hnames
  rw [List.flatMap_map] at hparse
  unfold discoverCases
  rw [hbuild, hdiscover, listing_bytes h]
  simp only [bind, Except.bind]
  rw [if_neg (by decide), Utf8.fromUtf8_encode]
  exact hparse

end PolyOnTest.Cli
