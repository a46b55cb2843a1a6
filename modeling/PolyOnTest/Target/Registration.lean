import PolyOnTest.Harness.Constructors
import PolyOnTest.Harness.Links
import PolyOnTest.Target.Startup

/-!
# Registration in the memory of the target

The descriptors of a firmware as the structures of `polytest.h` in the memory, with the
`next` fields behind the others, and `pot_register`, `pot_register_suite` and
`pot_register_group` on these.

The words that the three functions follow are `Links` (`linksOf`), and a registration links
a descriptor in front of the list unless it is there (`register_chain`).  It writes the
`next` field and the pointer to the list, and nothing else.
-/

namespace PolyOnTest.Target

open CodeLib CodeLib.CMemory CodeLib.FlatMemory CodeLib.WordMemory CodeLib.Fuel
  CodeLib.LinkedList PolyOnTest.Harness

/-! ## Lists in the memory -/

/-- The descriptors that have lists. -/
inductive Kind
  | case
  | suite
  | group
  deriving DecidableEq

/-- The offset of `next`, which is the last field. -/
def Kind.next : Kind → Nat
  | .case => 20
  | .suite => 16
  | .group => 20

/-- A word as a pointer. -/
def pointer (w : UInt32) : Option Nat := if w = 0 then none else some w.toNat

/-- The list from the pointer at `head` along the words at an offset. -/
def linksOf (m : Memory) (head off : Nat) : Links :=
  ⟨pointer (word m head), fun a => pointer (word m (a + off))⟩

/-- The loop of `already_linked_case`, `already_linked_suite` and `already_linked_group`. -/
def alreadyLinked (m : Memory) (off : Nat) (x : UInt32) : Nat → UInt32 → Option Bool
  | 0, _ => none
  | n + 1, p =>
      if p = 0 then some false
      else if p = x then some true
      else alreadyLinked m off x n (word m (p.toNat + off))

/-- The body that `pot_register`, `pot_register_suite` and `pot_register_group` share. -/
def register (n head off : Nat) (x : UInt32) (m : Memory) : Option Memory :=
  if x = 0 then some m
  else
    (alreadyLinked m off x n (word m head)).map fun linked =>
      if linked then m else setWord (setWord m (x.toNat + off) (word m head)) head x

variable {m m' : Memory} {head off : Nat} {x : UInt32}

theorem pointer_of_ne {w : UInt32} (h : w ≠ 0) : pointer w = some w.toNat := if_neg h

theorem linksOf_head (h : word m' head = word m head) :
    (linksOf m' head off).head = (linksOf m head off).head := congrArg pointer h

theorem linksOf_next {a : Nat} (h : word m' (a + off) = word m (a + off)) :
    (linksOf m' head off).next a = (linksOf m head off).next a := congrArg pointer h

/-- A list stays if the words along it do. -/
theorem chain_congr {as : List Nat}
    (h : Chain (linksOf m head off).next (linksOf m head off).head as)
    (hhead : word m' head = word m head)
    (hnext : ∀ a ∈ as, word m' (a + off) = word m (a + off)) :
    Chain (linksOf m' head off).next (linksOf m' head off).head as := by
  rw [linksOf_head hhead]
  exact h.congr fun a ha => linksOf_next (hnext a ha)

/-- The loop is the search on the links, by induction on the fuel. -/
theorem alreadyLinked_eq (m : Memory) (head off : Nat) (x : UInt32) (n : Nat) (p : UInt32) :
    alreadyLinked m off x n p =
      (findFrom (linksOf m head off).next (· == x.toNat) n (pointer p)).map Option.isSome := by
  induction n generalizing p with
  | zero => rfl
  | succ n ih =>
      rw [alreadyLinked]
      by_cases hp : p = 0
      · have hnull : pointer p = none := if_pos hp
        rw [if_pos hp, hnull]
        rfl
      · rw [if_neg hp, pointer_of_ne hp, findFrom]
        by_cases hx : p = x
        · rw [if_pos hx, hx, if_pos (beq_self_eq_true _)]
          rfl
        · have hne : ¬ (p.toNat == x.toNat) = true := fun h =>
            hx (UInt32.toNat_inj.mp (beq_iff_eq.mp h))
          rw [if_neg hx, if_neg hne, ih]
          rfl

/-- The bytes outside of two words are as they were. -/
def KeptBut (a b : Nat) (m m' : Memory) : Prop :=
  ∀ y, (y < a ∨ a + 4 ≤ y) → (y < b ∨ b + 4 ≤ y) → m' y = m y

/-- A registration links a descriptor in front of the list, unless it is there. -/
theorem register_chain {as : List Nat} (hx : x ≠ 0)
    (h : Chain (linksOf m head off).next (linksOf m head off).head as)
    (hhead : ∀ a ∈ x.toNat :: as, Apart head (a + off))
    (hnext : ∀ a ∈ as, a ≠ x.toNat → Apart (x.toNat + off) (a + off)) :
    EndsIn (fun n => register n head off x m) fun m' =>
      Chain (linksOf m' head off).next (linksOf m' head off).head
        (if x.toNat ∈ as then as else x.toNat :: as) ∧
      KeptBut (x.toNat + off) head m m' := by
  have hloop : Ends (fun n => alreadyLinked m off x n (word m head))
      (as.find? (· == x.toNat)).isSome := by
    have hfind := (findFrom_ends (· == x.toNat) h).map Option.isSome
    simp only [alreadyLinked_eq m head]
    exact hfind
  have hends := hloop.map fun linked =>
    if linked then m else setWord (setWord m (x.toNat + off) (word m head)) head x
  simp only [register, if_neg hx]
  by_cases hmem : x.toNat ∈ as
  · have hsome : (as.find? (· == x.toNat)).isSome = true := by
      rw [List.find?_isSome]
      exact ⟨_, hmem, beq_self_eq_true _⟩
    rw [hsome, if_pos rfl] at hends
    refine hends.endsIn ⟨?_, fun _ _ _ => rfl⟩
    rwa [if_pos hmem]
  · have hnone : (as.find? (· == x.toNat)).isSome = false := by
      rw [Option.isSome_eq_false_iff, Option.isNone_iff_eq_none, List.find?_eq_none]
      intro a ha heq
      exact hmem (beq_iff_eq.mp heq ▸ ha)
    rw [hnone, if_neg Bool.false_ne_true] at hends
    refine hends.endsIn ⟨?_, ?_⟩
    · rw [if_neg hmem]
      refine ⟨?_, ?_⟩
      · show pointer (word _ head) = _
        rw [word_setWord, pointer_of_ne hx]
      · -- the new `next` field has what the pointer to the list had
        have hnew : (linksOf (setWord (setWord m (x.toNat + off) (word m head)) head x)
            head off).next x.toNat = (linksOf m head off).head := by
          show pointer (word _ (x.toNat + off)) = pointer (word m head)
          rw [word_setWord_apart (hhead _ List.mem_cons_self), word_setWord]
        rw [hnew]
        refine h.congr fun a ha => linksOf_next ?_
        have hne : a ≠ x.toNat := fun heq => hmem (heq ▸ ha)
        rw [word_setWord_apart (hhead a (List.mem_cons_of_mem _ ha)),
          word_setWord_apart (hnext a ha hne)]
    · intro y hlink hptr
      rw [setWord_other hptr, setWord_other hlink]

/-! ## Descriptors in the memory -/

section Descriptors

variable (l : Layout) (m : Memory)

/-- A pointer to a literal, which is in the flash, or NULL. -/
def StrAt (p : UInt32) : Option CStr → Prop
  | none => p = 0
  | some s => p ≠ 0 ∧ p.toNat + s.bytes.length < l.ram ∧ HasStr m p.toNat s

/-- An array of literals in the flash, with NULL behind them. -/
def TagsFrom : Nat → List CStr → Prop
  | p, [] => p + 4 ≤ l.ram ∧ word m p = 0
  | p, t :: ts => p + 4 ≤ l.ram ∧ StrAt l m (word m p) (some t) ∧ TagsFrom (p + 4) ts

/-- A pointer to such an array, or NULL. -/
def TagsAt (p : UInt32) : Option (List CStr) → Prop
  | none => p = 0
  | some tags => p ≠ 0 ∧ TagsFrom l m p.toNat tags

/-- A `pot_case_t`, but for `next`. -/
structure CaseAt (a : Nat) (t : Case) : Prop where
  addr : t.addr = a
  suite : StrAt l m (word m a) t.suite
  group : StrAt l m (word m (a + 4)) t.group
  name : StrAt l m (word m (a + 8)) t.name
  fn : pointer (word m (a + 12)) = t.fn
  tags : TagsAt l m (word m (a + 16)) t.tags

/-- A `pot_suite_t`, but for `next`. -/
structure SuiteAt (a : Nat) (s : Suite) : Prop where
  addr : s.addr = a
  name : StrAt l m (word m a) s.name
  setup : pointer (word m (a + 4)) = s.setup
  teardown : pointer (word m (a + 8)) = s.teardown
  tags : TagsAt l m (word m (a + 12)) s.tags

/-- A `pot_group_t`, but for `next`. -/
structure GroupAt (a : Nat) (g : Group) : Prop where
  addr : g.addr = a
  suite : StrAt l m (word m a) g.suite
  name : StrAt l m (word m (a + 4)) g.name
  setup : pointer (word m (a + 8)) = g.setup
  teardown : pointer (word m (a + 12)) = g.teardown
  tags : TagsAt l m (word m (a + 16)) g.tags

/-- The descriptor at an address is the one of this state of the constructors. -/
def DescriptorAt (b : Boot) : Kind → Nat → Prop
  | .case, a => CaseAt l m a (b.case a)
  | .suite, a => SuiteAt l m a (b.suite a)
  | .group, a => GroupAt l m a (b.group a)

end Descriptors

variable {l : Layout}

theorem word_flash (h : SameFlash l m m') {p : Nat} (hp : p + 4 ≤ l.ram) :
    word m' p = word m p :=
  word_congr fun i hi => (h (p + i) (by omega)).symm

theorem StrAt.congr (h : SameFlash l m m') {p : UInt32} {s : Option CStr}
    (hs : StrAt l m p s) : StrAt l m' p s := by
  cases s with
  | none => exact hs
  | some s =>
    obtain ⟨hp, hlt, hstr⟩ := hs
    refine ⟨hp, hlt, HasAt.congr hstr fun y _ hy => (h y ?_).symm⟩
    rw [List.length_append, List.length_singleton] at hy
    omega

theorem TagsFrom.congr (h : SameFlash l m m') {p : Nat} {tags : List CStr}
    (ht : TagsFrom l m p tags) : TagsFrom l m' p tags := by
  induction tags generalizing p with
  | nil => exact ⟨ht.1, (word_flash h ht.1).trans ht.2⟩
  | cons t ts ih =>
      obtain ⟨hp, hs, hrest⟩ := ht
      refine ⟨hp, ?_, ih hrest⟩
      rw [word_flash h hp]
      exact hs.congr h

theorem TagsAt.congr (h : SameFlash l m m') {p : UInt32} {tags : Option (List CStr)}
    (ht : TagsAt l m p tags) : TagsAt l m' p tags := by
  cases tags with
  | none => exact ht
  | some tags => exact ⟨ht.1, ht.2.congr h⟩

/-- A suite whose teardown and tags may have been set. -/
theorem SuiteAt.set (h : SameFlash l m m') {a : Nat} {s : Suite} (hs : SuiteAt l m a s)
    (hname : word m' a = word m a) (hsetup : word m' (a + 4) = word m (a + 4))
    {teardown : Option FnId} (hteardown : pointer (word m' (a + 8)) = teardown)
    {tags : Option (List CStr)} (htags : TagsAt l m' (word m' (a + 12)) tags) :
    SuiteAt l m' a { s with teardown := teardown, tags := tags } where
  addr := hs.addr
  name := by
    rw [hname]
    exact hs.name.congr h
  setup := by
    rw [hsetup]
    exact hs.setup
  teardown := hteardown
  tags := htags

/-- A group whose teardown and tags may have been set. -/
theorem GroupAt.set (h : SameFlash l m m') {a : Nat} {g : Group} (hg : GroupAt l m a g)
    (hsuite : word m' a = word m a) (hname : word m' (a + 4) = word m (a + 4))
    (hsetup : word m' (a + 8) = word m (a + 8))
    {teardown : Option FnId} (hteardown : pointer (word m' (a + 12)) = teardown)
    {tags : Option (List CStr)} (htags : TagsAt l m' (word m' (a + 16)) tags) :
    GroupAt l m' a { g with teardown := teardown, tags := tags } where
  addr := hg.addr
  suite := by
    rw [hsuite]
    exact hg.suite.congr h
  name := by
    rw [hname]
    exact hg.name.congr h
  setup := by
    rw [hsetup]
    exact hg.setup
  teardown := hteardown
  tags := htags

/-- A descriptor stays if the flash and its own fields do. -/
theorem DescriptorAt.congr (h : SameFlash l m m') {b : Boot} {k : Kind} {a : Nat}
    (hfields : ∀ y, a ≤ y → y < a + k.next → m' y = m y) (hd : DescriptorAt l m b k a) :
    DescriptorAt l m' b k a := by
  have hword : ∀ i, i + 4 ≤ k.next → word m' (a + i) = word m (a + i) := fun i hi =>
    word_congr fun j hj => hfields _ (by omega) (by omega)
  cases k with
  | case =>
    have h0 : word m' a = word m a := hword 0 (by decide)
    have hd : CaseAt l m a (b.case a) := hd
    refine ⟨hd.addr, ?_, ?_, ?_, ?_, ?_⟩
    · exact h0 ▸ hd.suite.congr h
    · exact hword 4 (by decide) ▸ hd.group.congr h
    · exact hword 8 (by decide) ▸ hd.name.congr h
    · exact hword 12 (by decide) ▸ hd.fn
    · exact hword 16 (by decide) ▸ hd.tags.congr h
  | suite =>
    have hd : SuiteAt l m a (b.suite a) := hd
    apply hd.set h (hword 0 (by decide)) (hword 4 (by decide))
    · exact hword 8 (by decide) ▸ hd.teardown
    · exact hword 12 (by decide) ▸ hd.tags.congr h
  | group =>
    have hd : GroupAt l m a (b.group a) := hd
    apply hd.set h (hword 0 (by decide)) (hword 4 (by decide)) (hword 8 (by decide))
    · exact hword 12 (by decide) ▸ hd.teardown
    · exact hword 16 (by decide) ▸ hd.tags.congr h

end PolyOnTest.Target
