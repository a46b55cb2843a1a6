import PolyOnTest.Harness.Runner

/-!
# Constructors

The macros of `polytest.h` define static descriptors and functions with the attribute
`constructor`, which run in front of `main`.  `POT_SUITE` and `POT_SUITE_SETUP` define a
suite and register it; `POT_SUITE_TEARDOWN` and `POT_SUITE_TAGS` set a field of the suite
and register it as well, so any of them may be the first.  Groups do the same, and a case
is registered as it is.

A static descriptor is at an address.  The lists of the registry have addresses here, as
a field may be set after the descriptor was linked.
-/

namespace PolyOnTest.Harness

open CodeLib.CMemory

/-- The constructors that the macros define. -/
inductive Ctor
  /-- `POT_SUITE` and `POT_SUITE_SETUP`. -/
  | suite (a : Nat)
  /-- `POT_SUITE_TEARDOWN`. -/
  | suiteTeardown (a : Nat) (f : FnId)
  /-- `POT_SUITE_TAGS`. -/
  | suiteTags (a : Nat) (tags : List CStr)
  /-- `POT_GROUP_SETUP`. -/
  | group (a : Nat)
  /-- `POT_GROUP_TEARDOWN`. -/
  | groupTeardown (a : Nat) (f : FnId)
  /-- `POT_GROUP_TAGS`. -/
  | groupTags (a : Nat) (tags : List CStr)
  /-- `POT_TEST` and `POT_TEST_TAGS`. -/
  | test (a : Nat)
  deriving DecidableEq

/-- The static descriptors, and the addresses in `g_tests`, `g_suites` and `g_groups`. -/
structure Boot where
  case : Nat → Case
  suite : Nat → Suite
  group : Nat → Group
  tests : List Nat
  suites : List Nat
  groups : List Nat

/-- The registry that the lists stand for. -/
def Boot.registry (b : Boot) : Registry :=
  ⟨b.tests.map b.case, b.suites.map b.suite, b.groups.map b.group⟩

/-- A registration: an address that is linked already changes nothing. -/
def link (as : List Nat) : Option Nat → List Nat
  | none => as
  | some a => if a ∈ as then as else a :: as

namespace Ctor

/-- The suite that a constructor registers. -/
def suiteAddr : Ctor → Option Nat
  | .suite a | .suiteTeardown a _ | .suiteTags a _ => some a
  | _ => none

/-- The group that a constructor registers. -/
def groupAddr : Ctor → Option Nat
  | .group a | .groupTeardown a _ | .groupTags a _ => some a
  | _ => none

/-- The case that a constructor registers. -/
def testAddr : Ctor → Option Nat
  | .test a => some a
  | _ => none

/-- What a constructor assigns to the fields of the suite at an address. -/
def editSuite (c : Ctor) (x : Nat) (s : Suite) : Suite :=
  match c with
  | .suiteTeardown a f => if x = a then { s with teardown := some f } else s
  | .suiteTags a tags => if x = a then { s with tags := some tags } else s
  | _ => s

/-- What a constructor assigns to the fields of the group at an address. -/
def editGroup (c : Ctor) (x : Nat) (g : Group) : Group :=
  match c with
  | .groupTeardown a f => if x = a then { g with teardown := some f } else g
  | .groupTags a tags => if x = a then { g with tags := some tags } else g
  | _ => g

/-- A constructor: the assignment, and then the registration. -/
def run (b : Boot) (c : Ctor) : Boot where
  case := b.case
  suite x := c.editSuite x (b.suite x)
  group x := c.editGroup x (b.group x)
  tests := link b.tests c.testAddr
  suites := link b.suites c.suiteAddr
  groups := link b.groups c.groupAddr

/-- The assignment of a constructor. -/
def assign (b : Boot) (c : Ctor) : Boot :=
  { b with
    suite := fun x => c.editSuite x (b.suite x)
    group := fun x => c.editGroup x (b.group x) }

/-- The field that a constructor sets. -/
inductive Field
  | suiteTeardown (a : Nat)
  | suiteTags (a : Nat)
  | groupTeardown (a : Nat)
  | groupTags (a : Nat)
  deriving DecidableEq

def field : Ctor → Option Field
  | .suiteTeardown a _ => some (.suiteTeardown a)
  | .suiteTags a _ => some (.suiteTags a)
  | .groupTeardown a _ => some (.groupTeardown a)
  | .groupTags a _ => some (.groupTags a)
  | _ => none

end Ctor

/-- The state in front of `main`, for an order of the constructors. -/
def Boot.start (b : Boot) (cs : List Ctor) : Boot := cs.foldl Ctor.run b

/-- The descriptors of a test binary as they are loaded. -/
structure Loaded (b : Boot) : Prop where
  tests : b.tests = []
  suites : b.suites = []
  groups : b.groups = []
  case_addr : ∀ a, (b.case a).addr = a
  suite_addr : ∀ a, (b.suite a).addr = a
  group_addr : ∀ a, (b.group a).addr = a

/-- No field is set twice: each macro defines functions named after its arguments, so it
stands once for a suite or a group of a file. -/
def SetOnce (cs : List Ctor) : Prop :=
  ∀ c ∈ cs, ∀ c' ∈ cs, c.field = c'.field → c.field ≠ none → c = c'

/-- The system in front of `main`. -/
def Boot.sys {ω : Type} (b : Boot) (world : ω) : Sys ω :=
  ⟨{ Globals.init with env := ⟨b.registry, none, none⟩ }, world, []⟩

/-! ## The lists -/

theorem mem_link {as : List Nat} {o : Option Nat} {x : Nat} :
    x ∈ link as o ↔ x ∈ as ∨ o = some x := by
  cases o with
  | none => simp [link]
  | some a =>
    unfold link
    dsimp only
    split_ifs with ha
    · constructor
      · exact .inl
      · rintro (hx | hx)
        · exact hx
        · exact Option.some.inj hx ▸ ha
    · rw [List.mem_cons, Option.some.injEq, or_comm]
      exact or_congr_right eq_comm

theorem nodup_link {as : List Nat} (h : as.Nodup) (o : Option Nat) : (link as o).Nodup := by
  cases o with
  | none => exact h
  | some a =>
    unfold link
    dsimp only
    split_ifs with ha
    · exact h
    · exact List.nodup_cons.mpr ⟨ha, h⟩

/-- The addresses of a list behind some constructors. -/
theorem foldl_link (addr : Ctor → Option Nat) (cs : List Ctor) {as : List Nat}
    (h : as.Nodup) :
    (cs.foldl (fun as c => link as (addr c)) as).Nodup ∧
      ∀ x, x ∈ cs.foldl (fun as c => link as (addr c)) as ↔
        x ∈ as ∨ ∃ c ∈ cs, addr c = some x := by
  induction cs generalizing as with
  | nil => exact ⟨h, by simp⟩
  | cons c cs ih =>
      obtain ⟨hnodup, hmem⟩ := ih (nodup_link h (addr c))
      refine ⟨hnodup, fun x => ?_⟩
      rw [List.foldl_cons, hmem, mem_link, List.exists_mem_cons_iff, or_assoc]

theorem map_link {α : Type} (f : Nat → α) (addr : α → Nat) (haddr : ∀ a, addr (f a) = a)
    (as : List Nat) (a : Nat) :
    (link as (some a)).map f =
      if (as.map f).any (addr · == addr (f a)) then as.map f else f a :: as.map f := by
  have hany : (as.map f).any (addr · == addr (f a)) = true ↔ a ∈ as := by
    simp [haddr]
  unfold link
  dsimp only
  by_cases ha : a ∈ as
  · rw [if_pos ha, if_pos (hany.mpr ha)]
  · rw [if_neg ha, if_neg fun h => ha (hany.mp h)]
    rfl

theorem register_tests (reg : Registry) (t : Case) :
    (reg.register (some t)).tests =
      if reg.tests.any (·.addr == t.addr) then reg.tests else t :: reg.tests := by
  unfold Registry.register alreadyLinkedCase
  dsimp only
  split_ifs <;> rfl

theorem registerSuite_suites (reg : Registry) (s : Suite) :
    (reg.registerSuite (some s)).suites =
      if reg.suites.any (·.addr == s.addr) then reg.suites else s :: reg.suites := by
  unfold Registry.registerSuite alreadyLinkedSuite
  dsimp only
  split_ifs <;> rfl

theorem registerGroup_groups (reg : Registry) (g : Group) :
    (reg.registerGroup (some g)).groups =
      if reg.groups.any (·.addr == g.addr) then reg.groups else g :: reg.groups := by
  unfold Registry.registerGroup alreadyLinkedGroup
  dsimp only
  split_ifs <;> rfl

theorem editSuite_addr (c : Ctor) (x : Nat) (s : Suite) : (c.editSuite x s).addr = s.addr := by
  unfold Ctor.editSuite
  split
  · split_ifs <;> rfl
  · split_ifs <;> rfl
  · rfl

theorem editGroup_addr (c : Ctor) (x : Nat) (g : Group) : (c.editGroup x g).addr = g.addr := by
  unfold Ctor.editGroup
  split
  · split_ifs <;> rfl
  · split_ifs <;> rfl
  · rfl

/-- A constructor is its assignment, and then the call of `pot_register`,
`pot_register_suite` or `pot_register_group`. -/
theorem run_registry {b : Boot} (hcase : ∀ a, (b.case a).addr = a)
    (hsuite : ∀ a, (b.suite a).addr = a) (hgroup : ∀ a, (b.group a).addr = a) (c : Ctor) :
    (c.run b).registry.tests =
        ((c.assign b).registry.register (c.testAddr.map (c.assign b).case)).tests ∧
      (c.run b).registry.suites =
        ((c.assign b).registry.registerSuite (c.suiteAddr.map (c.assign b).suite)).suites ∧
      (c.run b).registry.groups =
        ((c.assign b).registry.registerGroup (c.groupAddr.map (c.assign b).group)).groups := by
  refine ⟨?_, ?_, ?_⟩
  · show (link b.tests c.testAddr).map b.case = _
    cases c.testAddr with
    | none => rfl
    | some a =>
      rw [map_link b.case Case.addr hcase]
      exact (register_tests (c.assign b).registry (b.case a)).symm
  · show (link b.suites c.suiteAddr).map (c.assign b).suite = _
    cases c.suiteAddr with
    | none => rfl
    | some a =>
      rw [map_link (c.assign b).suite Suite.addr
        fun a => (editSuite_addr c a (b.suite a)).trans (hsuite a)]
      exact (registerSuite_suites (c.assign b).registry ((c.assign b).suite a)).symm
  · show (link b.groups c.groupAddr).map (c.assign b).group = _
    cases c.groupAddr with
    | none => rfl
    | some a =>
      rw [map_link (c.assign b).group Group.addr
        fun a => (editGroup_addr c a (b.group a)).trans (hgroup a)]
      exact (registerGroup_groups (c.assign b).registry ((c.assign b).group a)).symm

/-- What the constructors leave, list by list and descriptor by descriptor. -/
theorem start_eq (b : Boot) (cs : List Ctor) :
    b.start cs =
      { case := b.case
        suite := fun x => cs.foldl (fun s c => c.editSuite x s) (b.suite x)
        group := fun x => cs.foldl (fun g c => c.editGroup x g) (b.group x)
        tests := cs.foldl (fun as c => link as c.testAddr) b.tests
        suites := cs.foldl (fun as c => link as c.suiteAddr) b.suites
        groups := cs.foldl (fun as c => link as c.groupAddr) b.groups } := by
  induction cs generalizing b with
  | nil => rfl
  | cons c cs ih =>
      show Boot.start (c.run b) cs = _
      rw [ih]
      rfl

/-! ## The order of the constructors -/

theorem editSuite_comm {cs : List Ctor} (hset : SetOnce cs) {c c' : Ctor} (hc : c ∈ cs)
    (hc' : c' ∈ cs) (x : Nat) (s : Suite) :
    c'.editSuite x (c.editSuite x s) = c.editSuite x (c'.editSuite x s) := by
  have hsame : c.field = c'.field → c.field ≠ none → c = c' := hset c hc c' hc'
  cases c <;> cases c' <;> simp only [Ctor.editSuite] <;> split_ifs <;> first
    | rfl
    | (subst_vars
       have heq := hsame rfl nofun
       cases heq
       rfl)

theorem editGroup_comm {cs : List Ctor} (hset : SetOnce cs) {c c' : Ctor} (hc : c ∈ cs)
    (hc' : c' ∈ cs) (x : Nat) (g : Group) :
    c'.editGroup x (c.editGroup x g) = c.editGroup x (c'.editGroup x g) := by
  have hsame : c.field = c'.field → c.field ≠ none → c = c' := hset c hc c' hc'
  cases c <;> cases c' <;> simp only [Ctor.editGroup] <;> split_ifs <;> first
    | rfl
    | (subst_vars
       have heq := hsame rfl nofun
       cases heq
       rfl)

/-- Two orders of the constructors leave the same descriptors, and the same addresses in
the lists. -/
theorem start_perm {b : Boot} (hload : Loaded b) {cs cs' : List Ctor} (hperm : cs.Perm cs')
    (hset : SetOnce cs) :
    (b.start cs).registry.tests.Perm (b.start cs').registry.tests ∧
      (b.start cs).registry.suites.Perm (b.start cs').registry.suites ∧
      (b.start cs).registry.groups.Perm (b.start cs').registry.groups := by
  have hlist : ∀ addr : Ctor → Option Nat,
      (cs.foldl (fun as c => link as (addr c)) []).Perm
        (cs'.foldl (fun as c => link as (addr c)) []) := by
    intro addr
    obtain ⟨hnodup, hmem⟩ := foldl_link addr cs List.nodup_nil
    obtain ⟨hnodup', hmem'⟩ := foldl_link addr cs' List.nodup_nil
    refine (List.perm_ext_iff_of_nodup hnodup hnodup').mpr fun x => ?_
    rw [hmem, hmem']
    simp [hperm.mem_iff]
  have hsuite : ∀ x, cs.foldl (fun s c => c.editSuite x s) (b.suite x) =
      cs'.foldl (fun s c => c.editSuite x s) (b.suite x) := by
    intro x
    apply hperm.foldl_eq'
    intro c hc c' hc' s
    exact editSuite_comm hset hc hc' x s
  have hgroup : ∀ x, cs.foldl (fun g c => c.editGroup x g) (b.group x) =
      cs'.foldl (fun g c => c.editGroup x g) (b.group x) := by
    intro x
    apply hperm.foldl_eq'
    intro c hc c' hc' g
    exact editGroup_comm hset hc hc' x g
  rw [start_eq, start_eq, hload.tests, hload.suites, hload.groups]
  simp only [Boot.registry, hsuite, hgroup]
  exact ⟨(hlist _).map _, (hlist _).map _, (hlist _).map _⟩

end PolyOnTest.Harness
