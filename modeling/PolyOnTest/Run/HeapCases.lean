import PolyOnTest.Run.Shape

/-!
# Cases on the heap

`pot_register_heap_case` takes the memory of a descriptor from `malloc`.  `malloc` is a
parameter: what it answers to each call.  A block that nobody frees is not given out again,
and none is where the program keeps its own descriptors (`Fresh`).

`heap_cases` is about any mix of registrations: exactly the calls that return 0 add a case,
and the other registrations, the walk over the section among them, are as if there were no
heap.
-/

namespace PolyOnTest.Run

open CodeLib.CMemory PolyOnTest.Harness

variable {ω : Type}

/-! ## Registration -/

/-- A registration of a program with `POT_USE_HEAP`. -/
inductive Registration
  | static (t : Option Case)
  | heap (suite group name : Option CStr) (fn : Option FnId)

/-- The registry, and how often `malloc` was called. -/
structure HeapReg where
  reg : Registry
  calls : Nat

/-- `pot_register_heap_case`, with the value that it returns. -/
def potRegisterHeapCase (malloc : Nat → Option Nat) (suite group name : Option CStr)
    (fn : Option FnId) (x : HeapReg) : HeapReg × Int :=
  match malloc x.calls with
  | none => (⟨x.reg, x.calls + 1⟩, -1)
  | some a => (⟨x.reg.register (some ⟨a, suite, group, name, fn, none⟩), x.calls + 1⟩, 0)

/-- One registration, with the values that `pot_register_heap_case` returned so far. -/
def registerOne (malloc : Nat → Option Nat) (x : HeapReg × List Int) :
    Registration → HeapReg × List Int
  | .static t => (⟨x.1.reg.register t, x.1.calls⟩, x.2)
  | .heap suite group name fn =>
      let (reg, value) := potRegisterHeapCase malloc suite group name fn x.1
      (reg, x.2 ++ [value])

/-! ## What the heap should give -/

/-- A descriptor for each block that `malloc` gives out, from its call with the number `k`
on. -/
def heapCases (malloc : Nat → Option Nat) : Nat → List Registration → List Case
  | _, [] => []
  | k, .static _ :: rs => heapCases malloc k rs
  | k, .heap suite group name fn :: rs =>
      match malloc k with
      | none => heapCases malloc (k + 1) rs
      | some a => ⟨a, suite, group, name, fn, none⟩ :: heapCases malloc (k + 1) rs

/-- The answer to each registration on the heap. -/
def heapAnswers (malloc : Nat → Option Nat) : Nat → List Registration → List Int
  | _, [] => []
  | k, .static _ :: rs => heapAnswers malloc k rs
  | k, .heap .. :: rs => (if malloc k = none then -1 else 0) :: heapAnswers malloc (k + 1) rs

/-- The registrations without the heap. -/
def statics (rs : List Registration) : List (Option Case) :=
  rs.filterMap fun
    | .static t => some t
    | .heap .. => none

/-- What `malloc` is relied on for: its blocks are apart from each other and from the
descriptors of the program. -/
structure Fresh (malloc : Nat → Option Nat) (own : Nat → Prop) : Prop where
  apart : ∀ i j a, malloc i = some a → malloc j = some a → i = j
  own : ∀ i a, malloc i = some a → ¬own a

/-! ## The lists -/

/-- The cases of `reg` are those of `alone` and the heap cases `heap`, which come from the
first `k` calls of `malloc`. -/
structure Mixed (malloc : Nat → Option Nat) (own : Nat → Prop) (k : Nat) (reg alone : Registry)
    (heap : List Case) : Prop where
  tests : reg.tests.Perm (alone.tests ++ heap)
  alone : ∀ t ∈ alone.tests, own t.addr
  heap : ∀ t ∈ heap, ∃ i < k, malloc i = some t.addr

variable {malloc : Nat → Option Nat} {own : Nat → Prop} {k : Nat} {reg alone : Registry}
  {heap : List Case}

theorem Mixed.mem_iff (h : Mixed malloc own k reg alone heap) (t : Case) :
    t ∈ reg.tests ↔ t ∈ alone.tests ∨ t ∈ heap :=
  h.tests.mem_iff.trans List.mem_append

/-- A descriptor of the program is linked in both registries or in none. -/
theorem Mixed.linked_iff (hmalloc : Fresh malloc own) (h : Mixed malloc own k reg alone heap)
    {t : Case} (ht : own t.addr) : alreadyLinkedCase reg t = alreadyLinkedCase alone t := by
  rw [Bool.eq_iff_iff]
  unfold alreadyLinkedCase
  simp only [List.any_eq_true, beq_iff_eq]
  constructor
  · rintro ⟨u, hu, haddr⟩
    rcases (h.mem_iff u).mp hu with hu | hu
    · exact ⟨u, hu, haddr⟩
    · obtain ⟨i, -, hi⟩ := h.heap u hu
      rw [haddr] at hi
      exact absurd ht (hmalloc.own i _ hi)
  · rintro ⟨u, hu, haddr⟩
    exact ⟨u, (h.mem_iff u).mpr (Or.inl hu), haddr⟩

theorem Mixed.static (hmalloc : Fresh malloc own) (h : Mixed malloc own k reg alone heap)
    {t : Option Case} (ht : ∀ u ∈ t, own u.addr) :
    Mixed malloc own k (reg.register t) (alone.register t) heap := by
  cases t with
  | none => exact h
  | some t =>
    have hown : own t.addr := ht t rfl
    unfold Registry.register
    dsimp only
    rw [h.linked_iff hmalloc hown]
    split_ifs
    · exact h
    · exact ⟨h.tests.cons t, List.forall_mem_cons.mpr ⟨hown, h.alone⟩, h.heap⟩

/-- A block of `malloc` is linked nowhere yet. -/
theorem Mixed.block (hmalloc : Fresh malloc own) (h : Mixed malloc own k reg alone heap)
    {t : Case} (ht : malloc k = some t.addr) : alreadyLinkedCase reg t = false := by
  rw [← Bool.not_eq_true]
  unfold alreadyLinkedCase
  simp only [List.any_eq_true, beq_iff_eq]
  rintro ⟨u, hu, haddr⟩
  rcases (h.mem_iff u).mp hu with hu | hu
  · have hown := h.alone u hu
    rw [haddr] at hown
    exact hmalloc.own k _ ht hown
  · obtain ⟨i, hi, hblock⟩ := h.heap u hu
    rw [haddr] at hblock
    have heq := hmalloc.apart i k _ hblock ht
    omega

theorem Mixed.push (hmalloc : Fresh malloc own) (h : Mixed malloc own k reg alone heap)
    {t : Case} (ht : malloc k = some t.addr) :
    Mixed malloc own (k + 1) (reg.register (some t)) alone (heap ++ [t]) where
  tests := by
    unfold Registry.register
    dsimp only
    rw [h.block hmalloc ht, if_neg Bool.false_ne_true]
    refine (h.tests.cons t).trans ?_
    rw [← List.append_assoc]
    exact (List.perm_append_singleton t (alone.tests ++ heap)).symm
  alone := h.alone
  heap := by
    intro u hu
    rcases List.mem_append.mp hu with hu | hu
    · obtain ⟨i, hi, hblock⟩ := h.heap u hu
      exact ⟨i, by omega, hblock⟩
    · rw [List.mem_singleton.mp hu]
      exact ⟨k, by omega, ht⟩

/-- A refused call leaves nothing behind. -/
theorem Mixed.refused (h : Mixed malloc own k reg alone heap) :
    Mixed malloc own (k + 1) reg alone heap where
  tests := h.tests
  alone := h.alone
  heap := by
    intro t ht
    obtain ⟨i, hi, hblock⟩ := h.heap t ht
    exact ⟨i, by omega, hblock⟩

/-- Any mix of registrations, by induction. -/
theorem Mixed.registrations (hmalloc : Fresh malloc own) (rs : List Registration)
    (hrs : ∀ t ∈ statics rs, ∀ u ∈ t, own u.addr) (h : Mixed malloc own k reg alone heap)
    (values : List Int) :
    ∃ k', Mixed malloc own k' (rs.foldl (registerOne malloc) (⟨reg, k⟩, values)).1.reg
        ((statics rs).foldl Registry.register alone) (heap ++ heapCases malloc k rs) ∧
      (rs.foldl (registerOne malloc) (⟨reg, k⟩, values)).2 = values ++ heapAnswers malloc k rs := by
  induction rs generalizing k reg alone heap values with
  | nil =>
    refine ⟨k, ?_, (List.append_nil values).symm⟩
    rw [heapCases, List.append_nil]
    exact h
  | cons r rs ih =>
    cases r with
    | static t =>
      obtain ⟨ht, hrest⟩ := List.forall_mem_cons.mp hrs
      exact ih hrest (h.static hmalloc ht) values
    | heap suite group name fn =>
      have hrest : ∀ t ∈ statics rs, ∀ u ∈ t, own u.addr := hrs
      rw [List.foldl_cons, registerOne, potRegisterHeapCase, heapCases, heapAnswers]
      dsimp only
      cases hblock : malloc k with
      | none =>
        obtain ⟨k', hmixed, hvalues⟩ := ih hrest h.refused (values ++ [-1])
        refine ⟨k', hmixed, hvalues.trans ?_⟩
        rw [List.append_assoc]
        rfl
      | some a =>
        obtain ⟨k', hmixed, hvalues⟩ := ih hrest
          (h.push (t := ⟨a, suite, group, name, fn, none⟩) hmalloc hblock) (values ++ [0])
        rw [List.append_assoc] at hmixed hvalues
        exact ⟨k', hmixed, hvalues⟩

/-- The walk over the section. -/
theorem Mixed.sections (hmalloc : Fresh malloc own) {p : Program ω}
    (hp : ∀ t ∈ p.potInfo, own t.addr) (h : Mixed malloc own k reg alone heap) :
    Mixed malloc own k (collectSectionCases p reg) (collectSectionCases p alone) heap := by
  unfold collectSectionCases
  generalize p.potInfo = ts at hp
  induction ts generalizing reg alone with
  | nil => exact h
  | cons t ts ih =>
    obtain ⟨ht, hts⟩ := List.forall_mem_cons.mp hp
    exact ih (h.static hmalloc fun u hu => Option.some.inj hu ▸ ht) hts

/-- There is a descriptor for each answer 0. -/
theorem heapCases_length (malloc : Nat → Option Nat) (k : Nat) (rs : List Registration) :
    (heapCases malloc k rs).length = (heapAnswers malloc k rs).count 0 := by
  induction rs generalizing k with
  | nil => rfl
  | cons r rs ih =>
    cases r with
    | static t => exact ih k
    | heap suite group name fn =>
      rw [heapCases, heapAnswers]
      cases malloc k with
      | none => simpa using ih (k + 1)
      | some a => simpa using ih (k + 1)

/-! ## Runs -/

/-- The lists when the process starts. -/
def noCases : Registry := ⟨[], [], []⟩

/-- Behind any mix of registrations a run of all cases executes, once each, the cases that
the program's own descriptors, linked and in the section, would give without the heap, and
one case for each call of `pot_register_heap_case` that returned 0.  A call returned -1
exactly when `malloc` gave it no block. -/
theorem heap_cases (p : Program ω) (hquiet : CallsOnly p fun c => quiet c)
    (hsections : ∀ t ∈ p.potInfo, own t.addr) (hmalloc : Fresh malloc own)
    (rs : List Registration) (hrs : ∀ t ∈ statics rs, ∀ u ∈ t, own u.addr) (s : Sys ω)
    (hs : s.g.env.reg.tests =
      (rs.foldl (registerOne malloc) (⟨noCases, 0⟩, [])).1.reg.tests) :
    let values := (rs.foldl (registerOne malloc) (⟨noCases, 0⟩, [])).2
    let without := collectSectionCases p ((statics rs).foldl Registry.register noCases)
    values = heapAnswers malloc 0 rs ∧ (heapCases malloc 0 rs).length = values.count 0 ∧
      ∃ new, (potRunAll p s).1.trace = s.trace ++ new ∧
        (executed new).Perm (without.tests ++ heapCases malloc 0 rs) := by
  have hstart : Mixed malloc own 0 noCases noCases [] :=
    ⟨List.Perm.refl _, fun _ ht => absurd ht List.not_mem_nil,
      fun _ ht => absurd ht List.not_mem_nil⟩
  obtain ⟨k', hmixed, hvalues⟩ := hstart.registrations hmalloc rs hrs []
  have hlinked : Mixed malloc own k' s.g.env.reg
      ((statics rs).foldl Registry.register noCases) (heapCases malloc 0 rs) :=
    ⟨hs ▸ hmixed.tests, hmixed.alone, hmixed.heap⟩
  have hwalked := hlinked.sections hmalloc hsections
  obtain ⟨new, htrace, hexecuted⟩ := executed_runFiltered hquiet matchAll s
  have hall : (sortCases (registered p s)).filter (matchAll (prepare p s).g.env) =
      sortCases (registered p s) := List.filter_eq_self.mpr fun _ _ => rfl
  intro values without
  refine ⟨hvalues, ?_, new, htrace, ?_⟩
  · rw [show values = heapAnswers malloc 0 rs from hvalues]
    exact heapCases_length malloc 0 rs
  · rw [hexecuted, hall]
    exact (sortCases_perm _).trans hwalked.tests

/-- `malloc` with one refusal. -/
def refusing (k : Nat) : Option Nat := if k = 1 then none else some (100 + k)

/-- A case that does nothing. -/
def idleCase (addr : Nat) : Case := ⟨addr, none, none, none, none, none⟩

theorem heap_cases_refused :
    let rs : List Registration := [.heap none none none none, .static (some (idleCase 7)),
      .heap none none none none, .heap none none none none]
    let p : Program Unit := ⟨fun _ w => ([], w), [idleCase 9, idleCase 7]⟩
    let x := rs.foldl (registerOne refusing) (⟨noCases, 0⟩, [])
    let s : Sys Unit := ⟨{ Globals.init with env := ⟨x.1.reg, none, none⟩ }, (), []⟩
    x.2 = [0, -1, 0] ∧ ∃ new, (potRunAll p s).1.trace = s.trace ++ new ∧
      (executed new).Perm [idleCase 9, idleCase 7, idleCase 100, idleCase 102] := by
  have hfresh : Fresh refusing (· < 100) := by
    refine ⟨fun i j a hi hj => ?_, fun i a hi => ?_⟩
    · unfold refusing at hi hj
      split_ifs at hi hj
      have hij := Option.some.inj (hi.trans hj.symm)
      omega
    · unfold refusing at hi
      split_ifs at hi
      have ha := Option.some.inj hi
      omega
  intro rs p x s
  have hquiet : CallsOnly p fun c => quiet c := fun _ _ _ hc => absurd hc List.not_mem_nil
  have hown : ∀ t ∈ statics rs, ∀ u ∈ t, u.addr < 100 := by
    intro t ht u hu
    obtain rfl := List.mem_singleton.mp (show t ∈ [some (idleCase 7)] from ht)
    obtain rfl := Option.some.inj hu
    decide
  have hsection : ∀ t ∈ p.potInfo, t.addr < 100 := by decide
  obtain ⟨hvalues, -, hrun⟩ := heap_cases p hquiet hsection hfresh rs hown s rfl
  exact ⟨hvalues, hrun⟩

end PolyOnTest.Run
