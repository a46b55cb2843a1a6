import Mathlib.Data.List.Basic
import Mathlib.Data.List.Perm.Basic
import PolyOnTest.Harness.Emit

/-!
# Registration, order and lookup

The registry of `polytest_core.c`: the descriptors of cases, suites and groups,
their lists, the order in which a run takes the cases, and the lookups by name.

A descriptor has the address that the source compares when it checks whether
the descriptor is already linked.  The linked lists are lists, newest first.

The order is total on descriptors (`caseCmp` is a transitive comparison), and
`sort_cases` returns a sorted permutation of its list.
-/

namespace PolyOnTest.Harness

open CodeLib CodeLib.CMemory

/-- The address of a function of the test binary. -/
abbrev FnId := Nat

/-- `pot_case_t`. -/
structure Case where
  addr : Nat
  suite : Option CStr
  group : Option CStr
  name : Option CStr
  fn : Option FnId
  tags : Option (List CStr)
  deriving DecidableEq

/-- `pot_suite_t`. -/
structure Suite where
  addr : Nat
  name : Option CStr
  setup : Option FnId
  teardown : Option FnId
  tags : Option (List CStr)
  deriving DecidableEq

/-- `pot_group_t`. -/
structure Group where
  addr : Nat
  suite : Option CStr
  name : Option CStr
  setup : Option FnId
  teardown : Option FnId
  tags : Option (List CStr)
  deriving DecidableEq

/-- The lists `g_tests`, `g_suites` and `g_groups`. -/
structure Registry where
  tests : List Case
  suites : List Suite
  groups : List Group
  deriving DecidableEq

/-- The names of a descriptor. -/
def Case.id (t : Case) : CaseId := ⟨t.suite, t.group, t.name⟩

/-! ## Registration -/

/-- `already_linked_case`. -/
def alreadyLinkedCase (reg : Registry) (t : Case) : Bool :=
  reg.tests.any (·.addr == t.addr)

/-- `already_linked_suite`. -/
def alreadyLinkedSuite (reg : Registry) (s : Suite) : Bool :=
  reg.suites.any (·.addr == s.addr)

/-- `already_linked_group`. -/
def alreadyLinkedGroup (reg : Registry) (g : Group) : Bool :=
  reg.groups.any (·.addr == g.addr)

/-- `pot_register`. -/
def Registry.register (reg : Registry) : Option Case → Registry
  | none => reg
  | some t =>
      if alreadyLinkedCase reg t then reg else { reg with tests := t :: reg.tests }

/-- `pot_register_suite`. -/
def Registry.registerSuite (reg : Registry) : Option Suite → Registry
  | none => reg
  | some s =>
      if alreadyLinkedSuite reg s then reg
      else { reg with suites := s :: reg.suites }

/-- `pot_register_group`. -/
def Registry.registerGroup (reg : Registry) : Option Group → Registry
  | none => reg
  | some g =>
      if alreadyLinkedGroup reg g then reg
      else { reg with groups := g :: reg.groups }

/-- A registration touches one list. -/
theorem register_other (reg : Registry) (t : Option Case) :
    (reg.register t).suites = reg.suites ∧ (reg.register t).groups = reg.groups := by
  unfold Registry.register
  split
  · exact ⟨rfl, rfl⟩
  · split_ifs <;> exact ⟨rfl, rfl⟩

theorem registerSuite_other (reg : Registry) (s : Option Suite) :
    (reg.registerSuite s).tests = reg.tests ∧ (reg.registerSuite s).groups = reg.groups := by
  unfold Registry.registerSuite
  split
  · exact ⟨rfl, rfl⟩
  · split_ifs <;> exact ⟨rfl, rfl⟩

theorem registerGroup_other (reg : Registry) (g : Option Group) :
    (reg.registerGroup g).tests = reg.tests ∧ (reg.registerGroup g).suites = reg.suites := by
  unfold Registry.registerGroup
  split
  · exact ⟨rfl, rfl⟩
  · split_ifs <;> exact ⟨rfl, rfl⟩

/-! ## Order -/

/-- `str_cmp`. -/
def strCmp : Option CStr → Option CStr → Ordering
  | none, none => .eq
  | none, some _ => .lt
  | some _, none => .gt
  | some a, some b => CStr.strcmp a b

/-- `case_cmp`. -/
def caseCmp (a b : Case) : Ordering :=
  (strCmp a.suite b.suite).then
    ((strCmp a.group b.group).then (strCmp a.name b.name))

/-- One round of `sort_cases`: `head` goes behind every case that is not
greater. -/
def insertCase (head : Case) : List Case → List Case
  | [] => [head]
  | s :: sorted =>
      if caseCmp head s = .lt then head :: s :: sorted
      else s :: insertCase head sorted

/-- `sort_cases`. -/
def sortCases (tests : List Case) : List Case :=
  tests.foldl (fun sorted head => insertCase head sorted) []

/-! ## Lookup -/

/-- `find_suite`. -/
def findSuite (reg : Registry) (name : Option CStr) : Option Suite :=
  reg.suites.find? fun s => strCmp s.name name = .eq

/-- `find_group`. -/
def findGroup (reg : Registry) (suite group : Option CStr) : Option Group :=
  reg.groups.find? fun g => strCmp g.suite suite = .eq ∧ strCmp g.name group = .eq

/-- `tags_contain`. -/
def tagsContain (tags : Option (List CStr)) (tag : Option CStr) : Bool :=
  match tags, tag with
  | some tags, some tag => tags.any fun t => CStr.strcmp t tag = .eq
  | _, _ => false

/-- `case_matches_tag`. -/
def caseMatchesTag (reg : Registry) (t : Case) (tag : Option CStr) : Bool :=
  tagsContain t.tags tag ||
    (match findSuite reg t.suite with
      | some s => tagsContain s.tags tag
      | none => false) ||
    match findGroup reg t.suite t.group with
    | some g => tagsContain g.tags tag
    | none => false

/-! ## The order is total -/

/-- The order of `str_cmp` is the order of the byte lists, with NULL in front. -/
theorem strCmp_eq_compare (a b : Option CStr) :
    strCmp a b = compare (a.map CStr.bytes) (b.map CStr.bytes) := by
  cases a <;> cases b <;> rfl

theorem strCmp_eq_iff {a b : Option CStr} : strCmp a b = .eq ↔ a = b := by
  rw [strCmp_eq_compare, Std.compare_eq_iff_eq]
  constructor
  · intro h
    rcases a with _ | a <;> rcases b with _ | b
    · rfl
    · cases h
    · cases h
    · rw [CStr.ext (Option.some.inj h)]
  · intro h
    rw [h]

/-- A case as the three byte lists that `case_cmp` looks at. -/
def Case.key (t : Case) (field : Case → Option CStr) : Option (List UInt8) :=
  (field t).map CStr.bytes

theorem caseCmp_eq_compareLex :
    caseCmp = compareLex (compareOn fun t => t.key Case.suite)
      (compareLex (compareOn fun t => t.key Case.group)
        (compareOn fun t => t.key Case.name)) := by
  funext a b
  simp only [caseCmp, strCmp_eq_compare, compareLex, compareOn, Case.key]

instance : Std.TransCmp caseCmp := by
  rw [caseCmp_eq_compareLex]
  infer_instance

/-- `str_cmp` as a comparison of names. -/
instance : Std.TransCmp strCmp := by
  have h : strCmp = compareOn fun s : Option CStr => s.map CStr.bytes := by
    funext a b
    exact strCmp_eq_compare a b
  rw [h]
  infer_instance

/-- The order of the cases is first of all the order of the suites. -/
theorem strCmp_suite_of_caseCmp {a b : Case} (h : (caseCmp a b).isLE) :
    (strCmp a.suite b.suite).isLE := by
  unfold caseCmp at h
  cases hs : strCmp a.suite b.suite with
  | lt => rfl
  | eq => rfl
  | gt =>
    rw [hs] at h
    cases h

/-! ## The sorted list -/

/-- Each case is at most as large as every later one. -/
def SortedCases (tests : List Case) : Prop :=
  tests.Pairwise fun a b => (caseCmp a b).isLE

theorem insertCase_perm (head : Case) (sorted : List Case) :
    (insertCase head sorted).Perm (head :: sorted) := by
  induction sorted with
  | nil => exact List.Perm.refl _
  | cons s sorted ih =>
      rw [insertCase]
      split_ifs
      · exact List.Perm.refl _
      · exact (ih.cons s).trans (List.Perm.swap head s sorted)

/-- Inserting a case keeps the list sorted. -/
theorem insertCase_sorted (head : Case) {sorted : List Case}
    (h : SortedCases sorted) : SortedCases (insertCase head sorted) := by
  induction sorted with
  | nil => exact List.pairwise_singleton _ _
  | cons s sorted ih =>
      have htail : SortedCases sorted := (List.pairwise_cons.mp h).2
      have hhead : ∀ x ∈ sorted, (caseCmp s x).isLE := (List.pairwise_cons.mp h).1
      rw [insertCase]
      split_ifs with hlt
      · refine List.pairwise_cons.mpr ⟨?_, h⟩
        intro x hx
        have hs : (caseCmp head s).isLE := by rw [hlt]; rfl
        rcases List.mem_cons.mp hx with rfl | hx
        · exact hs
        · exact Std.TransCmp.isLE_trans hs (hhead x hx)
      · refine List.pairwise_cons.mpr ⟨?_, ih htail⟩
        intro x hx
        rcases List.mem_cons.mp ((insertCase_perm head sorted).mem_iff.mp hx)
          with rfl | hx
        · exact Std.OrientedCmp.isLE_of_isGE (by
            cases hc : caseCmp x s
            · exact absurd hc hlt
            · rfl
            · rfl)
        · exact hhead x hx

/-- The rounds of `sort_cases`, by induction on the cases that are left. -/
theorem foldl_insertCase (tests : List Case) {sorted : List Case}
    (h : SortedCases sorted) :
    SortedCases (tests.foldl (fun sorted head => insertCase head sorted) sorted) ∧
      (tests.foldl (fun sorted head => insertCase head sorted) sorted).Perm
        (tests ++ sorted) := by
  induction tests generalizing sorted with
  | nil => exact ⟨h, List.Perm.refl _⟩
  | cons head tests ih =>
      obtain ⟨hsorted, hperm⟩ := ih (insertCase_sorted head h)
      refine ⟨hsorted, hperm.trans ?_⟩
      refine ((insertCase_perm head sorted).append_left tests).trans ?_
      exact List.perm_middle

theorem sortCases_sorted (tests : List Case) : SortedCases (sortCases tests) :=
  (foldl_insertCase tests List.Pairwise.nil).1

theorem sortCases_perm (tests : List Case) : (sortCases tests).Perm tests := by
  have h := (foldl_insertCase tests List.Pairwise.nil).2
  rwa [List.append_nil] at h

/-- A round does nothing to a list whose cases are all at most `head`. -/
theorem insertCase_last {head : Case} {sorted : List Case}
    (h : ∀ s ∈ sorted, (caseCmp s head).isLE) :
    insertCase head sorted = sorted ++ [head] := by
  induction sorted with
  | nil => rfl
  | cons s sorted ih =>
      have hs : (caseCmp s head).isLE := h s (by simp)
      have hlt : caseCmp head s ≠ .lt := fun hc =>
        Std.OrientedCmp.not_isLE_of_lt hc hs
      rw [insertCase, if_neg hlt, ih fun x hx => h x (by simp [hx])]
      rfl

theorem foldl_insertCase_append (tests : List Case) {sorted : List Case}
    (h : SortedCases (sorted ++ tests)) :
    tests.foldl (fun sorted head => insertCase head sorted) sorted =
      sorted ++ tests := by
  induction tests generalizing sorted with
  | nil => simp
  | cons head tests ih =>
      have hlast : ∀ s ∈ sorted, (caseCmp s head).isLE := fun s hs =>
        (List.pairwise_append.mp h).2.2 s hs head (by simp)
      rw [List.foldl_cons, insertCase_last hlast, ih (by simpa using h)]
      simp

/-- A second sort changes nothing. -/
theorem sortCases_of_sorted {tests : List Case} (h : SortedCases tests) :
    sortCases tests = tests :=
  foldl_insertCase_append tests h

/-! ## Linked lists without duplicates -/

/-- No descriptor is linked twice. -/
structure Registry.Linked (reg : Registry) : Prop where
  tests : (reg.tests.map Case.addr).Nodup
  suites : (reg.suites.map Suite.addr).Nodup
  groups : (reg.groups.map Group.addr).Nodup

theorem not_mem_map_of_any {α : Type} {f : α → Nat} {xs : List α} {x : α}
    (h : ¬ xs.any (f · == f x) = true) : f x ∉ xs.map f := by
  intro hmem
  obtain ⟨y, hy, hyx⟩ := List.mem_map.mp hmem
  exact h (List.any_eq_true.mpr ⟨y, hy, by simp [hyx]⟩)

theorem Registry.Linked.register {reg : Registry} (h : reg.Linked)
    (t : Option Case) : (reg.register t).Linked := by
  rcases t with _ | t
  · exact h
  · unfold Registry.register alreadyLinkedCase
    dsimp only
    split_ifs with hany
    · exact h
    · exact ⟨List.nodup_cons.mpr ⟨not_mem_map_of_any hany, h.tests⟩, h.suites,
        h.groups⟩

theorem Registry.Linked.registerSuite {reg : Registry} (h : reg.Linked)
    (s : Option Suite) : (reg.registerSuite s).Linked := by
  rcases s with _ | s
  · exact h
  · unfold Registry.registerSuite alreadyLinkedSuite
    dsimp only
    split_ifs with hany
    · exact h
    · exact ⟨h.tests, List.nodup_cons.mpr ⟨not_mem_map_of_any hany, h.suites⟩,
        h.groups⟩

theorem Registry.Linked.registerGroup {reg : Registry} (h : reg.Linked)
    (g : Option Group) : (reg.registerGroup g).Linked := by
  rcases g with _ | g
  · exact h
  · unfold Registry.registerGroup alreadyLinkedGroup
    dsimp only
    split_ifs with hany
    · exact h
    · exact ⟨h.tests, h.suites,
        List.nodup_cons.mpr ⟨not_mem_map_of_any hany, h.groups⟩⟩

theorem Registry.Linked.sort {reg : Registry} (h : reg.Linked) :
    Registry.Linked { reg with tests := sortCases reg.tests } :=
  ⟨(((sortCases_perm reg.tests).map Case.addr).nodup_iff).mpr h.tests, h.suites,
    h.groups⟩

end PolyOnTest.Harness
