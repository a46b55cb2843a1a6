import PolyOnTest.Target.Registration

/-!
# From the reset to `main`

`call_constructors` calls the functions of `.init_array`, which set fields of the
descriptors and register them.  The compiled constructors work on the memory; `Booted` says
that the memory is a state of `Boot`, and each constructor keeps it (`run_booted`).

`reset_boots` is the result.  Whatever the RAM held at the reset, the memory in front of
`main` is what the constructors make of the descriptors that were loaded: the three lists
are in the memory, and each descriptor has its fields.  Every other byte of `.data` and
`.bss` has the value of the image.
-/

namespace PolyOnTest.Target

open CodeLib CodeLib.CMemory CodeLib.FlatMemory CodeLib.WordMemory CodeLib.Fuel
  CodeLib.LinkedList PolyOnTest.Harness

/-- A constructor in the flash: the word that it stores at an offset of its descriptor, and
the registration of the latter. -/
structure Constructor where
  kind : Kind
  target : UInt32
  store : Option (Nat × UInt32)

/-- The assignment of a constructor. -/
def Constructor.assign (c : Constructor) (m : Memory) : Memory :=
  match c.store with
  | none => m
  | some (off, v) => setWord m (c.target.toNat + off) v

/-- A firmware: the pointers to the lists (`g_tests`, `g_suites` and `g_groups`) are in
`.bss`, its descriptors are in `.data`, and no two objects overlap. -/
structure Firmware where
  layout : Layout
  ptr : Kind → Nat
  object : Kind → Nat → Prop
  code : UInt32 → Constructor
  ptr_bss : ∀ k, layout.sbss ≤ ptr k ∧ ptr k + 4 ≤ layout.ebss
  ptr_apart : ∀ k k', k ≠ k' → Apart (ptr k) (ptr k')
  object_data : ∀ k a, object k a → layout.sdata ≤ a ∧ a + k.next + 4 ≤ layout.edata
  object_apart : ∀ k a k' a', object k a → object k' a' → (k, a) ≠ (k', a') →
    a + k.next + 4 ≤ a' ∨ a' + k'.next + 4 ≤ a

namespace Firmware

variable (fw : Firmware)

/-- A constructor. -/
def run (n : Nat) (c : Constructor) (m : Memory) : Option Memory :=
  register n (fw.ptr c.kind) c.kind.next c.target (c.assign m)

/-- `call_constructors`, from the pointer `fn` on. -/
def callConstructors (n fn : Nat) (m : Memory) : Option Memory :=
  if fn < fw.layout.initEnd then
    (fw.run n (fw.code (word m fn)) m).bind fun m => callConstructors n (fn + 4) m
  else some m
termination_by fw.layout.initEnd - fn

/-- `Reset_Handler` in front of `main`. -/
def resetHandler (n : Nat) (m : Memory) : Option Memory :=
  fw.callConstructors n fw.layout.initStart (startup fw.layout m)

end Firmware

/-- What the compiler makes of the constructors of `polytest.h`. -/
inductive Compiled (l : Layout) (m : Memory) : Constructor → Ctor → Prop
  | suite (x : UInt32) : Compiled l m ⟨.suite, x, none⟩ (.suite x.toNat)
  | suiteTeardown (x f : UInt32) (hf : f ≠ 0) :
      Compiled l m ⟨.suite, x, some (8, f)⟩ (.suiteTeardown x.toNat f.toNat)
  | suiteTags (x p : UInt32) (tags : List CStr) (h : TagsAt l m p (some tags)) :
      Compiled l m ⟨.suite, x, some (12, p)⟩ (.suiteTags x.toNat tags)
  | group (x : UInt32) : Compiled l m ⟨.group, x, none⟩ (.group x.toNat)
  | groupTeardown (x f : UInt32) (hf : f ≠ 0) :
      Compiled l m ⟨.group, x, some (12, f)⟩ (.groupTeardown x.toNat f.toNat)
  | groupTags (x p : UInt32) (tags : List CStr) (h : TagsAt l m p (some tags)) :
      Compiled l m ⟨.group, x, some (16, p)⟩ (.groupTags x.toNat tags)
  | test (x : UInt32) : Compiled l m ⟨.case, x, none⟩ (.test x.toNat)

/-- The lists of a state of the constructors. -/
def list (b : Boot) : Kind → List Nat
  | .case => b.tests
  | .suite => b.suites
  | .group => b.groups

/-- The memory is a state of the constructors. -/
structure Booted (fw : Firmware) (m : Memory) (b : Boot) : Prop where
  chain : ∀ k, Chain (linksOf m (fw.ptr k) k.next).next (linksOf m (fw.ptr k) k.next).head
    (list b k)
  mem : ∀ k, ∀ a ∈ list b k, fw.object k a
  descriptor : ∀ k a, fw.object k a → DescriptorAt fw.layout m b k a

/-- The bytes of the descriptors and of the pointers to the lists. -/
def Firmware.Touched (fw : Firmware) (y : Nat) : Prop :=
  (∃ k a, fw.object k a ∧ a ≤ y ∧ y < a + k.next + 4) ∨ ∃ k, fw.ptr k ≤ y ∧ y < fw.ptr k + 4

/-- All other bytes are as they were. -/
def Firmware.Kept (fw : Firmware) (m m' : Memory) : Prop := ∀ y, ¬ fw.Touched y → m' y = m y

variable {fw : Firmware} {m m' : Memory} {b : Boot} {c : Constructor} {ctor : Ctor} {k k' : Kind}
  {a a' : Nat}

/-! ## Places -/

theorem not_touched_flash (h : a < fw.layout.ram) : ¬ fw.Touched a := by
  have hram := fw.layout.ram_le
  rintro (⟨k, x, hx, hle, -⟩ | ⟨k, hle, -⟩)
  · have hdata := fw.object_data k x hx
    omega
  · have hbss := fw.ptr_bss k
    have hdata := fw.layout.data_le
    have hge := fw.layout.data_bss
    omega

theorem Firmware.Kept.flash (h : fw.Kept m m') : SameFlash fw.layout m m' := fun y hy =>
  (h y (not_touched_flash hy)).symm

/-- The pointers to the lists are behind the descriptors. -/
theorem object_ptr (h : fw.object k a) (k' : Kind) : a + k.next + 4 ≤ fw.ptr k' := by
  have hdata := fw.object_data k a h
  have hbss := fw.ptr_bss k'
  have hge := fw.layout.data_bss
  omega

theorem ptr_apart_next (h : fw.object k a) (k' : Kind) : Apart (fw.ptr k') (a + k.next) :=
  .inr (by have := object_ptr h k'; omega)

/-- The `next` fields of two descriptors. -/
theorem next_apart (h : fw.object k a) (h' : fw.object k' a') (hne : (k, a) ≠ (k', a')) :
    Apart (a + k.next) (a' + k'.next) := by
  rcases fw.object_apart k a k' a' h h' hne with hle | hle
  · exact .inl (by omega)
  · exact .inr (by omega)

/-! ## A constructor -/

/-- The steps of a constructor on the states: the assignment and the registration. -/
theorem list_run (b : Boot) (h : Compiled fw.layout m c ctor) (k : Kind) :
    list (ctor.run b) k =
      if k = c.kind then
        if c.target.toNat ∈ list b k then list b k else c.target.toNat :: list b k
      else list b k := by
  cases h <;> cases k <;> rfl

/-- An assignment of a constructor keeps the other descriptors. -/
theorem descriptor_run_other (h : Compiled fw.layout m c ctor)
    (hne : (k, a) ≠ (c.kind, c.target.toNat)) {l : Layout} :
    DescriptorAt l m' (ctor.run b) k a ↔ DescriptorAt l m' b k a := by
  have hother : ∀ {k₀ : Kind}, (k₀, a) ≠ (k₀, c.target.toNat) → a ≠ c.target.toNat := by
    rintro k₀ hk rfl
    exact hk rfl
  cases h with
  | suiteTeardown x f hf =>
    cases k with
    | suite =>
      show SuiteAt l m' a (if a = x.toNat then _ else _) ↔ _
      rw [if_neg (hother hne)]
      rfl
    | _ => exact Iff.rfl
  | suiteTags x p tags htags =>
    cases k with
    | suite =>
      show SuiteAt l m' a (if a = x.toNat then _ else _) ↔ _
      rw [if_neg (hother hne)]
      rfl
    | _ => exact Iff.rfl
  | groupTeardown x f hf =>
    cases k with
    | group =>
      show GroupAt l m' a (if a = x.toNat then _ else _) ↔ _
      rw [if_neg (hother hne)]
      rfl
    | _ => exact Iff.rfl
  | groupTags x p tags htags =>
    cases k with
    | group =>
      show GroupAt l m' a (if a = x.toNat then _ else _) ↔ _
      rw [if_neg (hother hne)]
      rfl
    | _ => exact Iff.rfl
  | _ => cases k <;> exact Iff.rfl

/-- An assignment writes into the fields of its descriptor. -/
theorem assign_other (h : Compiled fw.layout m c ctor) (m₀ : Memory) {y : Nat}
    (hy : y < c.target.toNat ∨ c.target.toNat + c.kind.next ≤ y) : c.assign m₀ y = m₀ y := by
  cases h with
  | suiteTeardown x f hf | suiteTags x f tags hf | groupTeardown x f hf | groupTags x f tags hf =>
    apply setWord_other
    dsimp only [Kind.next] at hy ⊢
    omega
  | _ => rfl

theorem object_ram (h : fw.object k a) : fw.layout.ram ≤ a := by
  have hdata := fw.object_data k a h
  have hram := fw.layout.ram_le
  omega

theorem assign_flash (h : Compiled fw.layout m c ctor)
    (hobject : fw.object c.kind c.target.toNat) (m₀ : Memory) :
    SameFlash fw.layout m₀ (c.assign m₀) := fun y hy =>
  (assign_other h m₀ (by have := object_ram hobject; omega)).symm

/-- The assignment sets the field of the descriptor that its constructor sets. -/
theorem descriptor_assign (h : Compiled fw.layout m c ctor)
    (hobject : fw.object c.kind c.target.toNat)
    (hd : DescriptorAt fw.layout m b c.kind c.target.toNat) :
    DescriptorAt fw.layout (c.assign m) (ctor.run b) c.kind c.target.toNat := by
  have hflash := assign_flash h hobject m
  have hword : ∀ off v i, (i + 4 ≤ off ∨ off + 4 ≤ i) →
      word (setWord m (c.target.toNat + off) v) (c.target.toNat + i) =
        word m (c.target.toNat + i) := fun off v i hi =>
    word_setWord_apart (by unfold Apart; omega)
  cases h with
  | suiteTeardown x f hf =>
    have hd : SuiteAt fw.layout m x.toNat (b.suite x.toNat) := hd
    show SuiteAt _ _ _ (if x.toNat = x.toNat then _ else _)
    rw [if_pos rfl]
    apply hd.set hflash (hword 8 f 0 (by omega)) (hword 8 f 4 (by omega))
    · show pointer (word (setWord m (x.toNat + 8) f) (x.toNat + 8)) = _
      rw [word_setWord, pointer_of_ne hf]
    · exact hword 8 f 12 (by omega) ▸ hd.tags.congr hflash
  | suiteTags x p tags htags =>
    have hd : SuiteAt fw.layout m x.toNat (b.suite x.toNat) := hd
    show SuiteAt _ _ _ (if x.toNat = x.toNat then _ else _)
    rw [if_pos rfl]
    apply hd.set hflash (hword 12 p 0 (by omega)) (hword 12 p 4 (by omega))
    · exact (congrArg pointer (hword 12 p 8 (by omega))).trans hd.teardown
    · show TagsAt _ _ (word (setWord m (x.toNat + 12) p) (x.toNat + 12)) _
      rw [word_setWord]
      exact htags.congr hflash
  | groupTeardown x f hf =>
    have hd : GroupAt fw.layout m x.toNat (b.group x.toNat) := hd
    show GroupAt _ _ _ (if x.toNat = x.toNat then _ else _)
    rw [if_pos rfl]
    apply hd.set hflash (hword 12 f 0 (by omega)) (hword 12 f 4 (by omega))
      (hword 12 f 8 (by omega))
    · show pointer (word (setWord m (x.toNat + 12) f) (x.toNat + 12)) = _
      rw [word_setWord, pointer_of_ne hf]
    · exact hword 12 f 16 (by omega) ▸ hd.tags.congr hflash
  | groupTags x p tags htags =>
    have hd : GroupAt fw.layout m x.toNat (b.group x.toNat) := hd
    show GroupAt _ _ _ (if x.toNat = x.toNat then _ else _)
    rw [if_pos rfl]
    apply hd.set hflash (hword 16 p 0 (by omega)) (hword 16 p 4 (by omega))
      (hword 16 p 8 (by omega))
    · exact (congrArg pointer (hword 16 p 12 (by omega))).trans hd.teardown
    · show TagsAt _ _ (word (setWord m (x.toNat + 16) p) (x.toNat + 16)) _
      rw [word_setWord]
      exact htags.congr hflash
  | _ => exact hd

/-- A word whose bytes are as they were. -/
theorem word_kept {p : Nat} (h : ∀ y, p ≤ y → y < p + 4 → m' y = m y) :
    word m' p = word m p :=
  word_congr fun i hi => h _ (by omega) (by omega)

/-- A constructor does to the memory what it does to the states. -/
theorem run_booted (h : Booted fw m b) (hc : Compiled fw.layout m c ctor)
    (hobject : fw.object c.kind c.target.toNat) :
    EndsIn (fun n => fw.run n c m) fun m' => Booted fw m' (ctor.run b) ∧ fw.Kept m m' := by
  have hassign : ∀ y, (y < c.target.toNat ∨ c.target.toNat + c.kind.next ≤ y) →
      c.assign m y = m y := fun y hy => assign_other hc m hy
  have hlast := object_ptr hobject
  -- the assignment keeps the lists
  have hchain : ∀ k, Chain (linksOf (c.assign m) (fw.ptr k) k.next).next
      (linksOf (c.assign m) (fw.ptr k) k.next).head (list b k) := by
    intro k
    apply chain_congr (h.chain k)
    · apply word_kept
      intro y hle _
      have hptr := hlast k
      exact hassign y (by omega)
    · intro a ha
      apply word_kept
      intro y hle hlt
      apply hassign
      by_cases hsame : (k, a) = (c.kind, c.target.toNat)
      · obtain ⟨rfl, rfl⟩ := Prod.mk.inj hsame
        exact .inr hle
      · have hapart := fw.object_apart k a _ _ (h.mem k a ha) hobject hsame
        omega
  have hnull : c.target ≠ 0 := by
    intro hzero
    have hram := object_ram hobject
    have hpos := fw.layout.ram_pos
    rw [hzero] at hram
    have hzero' : (0 : UInt32).toNat = 0 := rfl
    omega
  have hmem : ∀ a ∈ c.target.toNat :: list b c.kind, fw.object c.kind a :=
    List.forall_mem_cons.mpr ⟨hobject, h.mem c.kind⟩
  have hregister := register_chain hnull (hchain c.kind)
    (fun a ha => ptr_apart_next (hmem a ha) c.kind)
    (fun a ha hne => next_apart hobject (h.mem c.kind a ha) fun heq =>
      hne (Prod.mk.inj heq).2.symm)
  obtain ⟨m', hends, hlinked, hkept⟩ := hregister
  have hkept' : ∀ y, y < c.target.toNat ∨ c.target.toNat + c.kind.next + 4 ≤ y →
      (y < fw.ptr c.kind ∨ fw.ptr c.kind + 4 ≤ y) → m' y = m y := by
    intro y hout hptr
    rw [hkept y (by omega) hptr]
    exact hassign y (by omega)
  have hall : fw.Kept m m' := by
    intro y hy
    apply hkept'
    · by_contra hin
      exact hy (.inl ⟨c.kind, c.target.toNat, hobject, by omega, by omega⟩)
    · by_contra hin
      exact hy (.inr ⟨c.kind, by omega, by omega⟩)
  refine ⟨m', hends, ⟨fun k => ?_, fun k a ha => ?_, fun k a ha => ?_⟩, hall⟩
  · rw [list_run b hc]
    by_cases hk : k = c.kind
    · subst hk
      rw [if_pos rfl]
      exact hlinked
    · rw [if_neg hk]
      apply chain_congr (h.chain k)
      · apply word_kept
        intro y hle hlt
        have hptr := hlast k
        have hother := fw.ptr_apart k c.kind hk
        unfold Apart at hother
        exact hkept' y (by omega) (by omega)
      · intro a ha
        apply word_kept
        intro y hle hlt
        have hobj := h.mem k a ha
        have hptr := object_ptr hobj c.kind
        have hapart := fw.object_apart k a _ _ hobj hobject fun heq => hk (Prod.mk.inj heq).1
        exact hkept' y (by omega) (by omega)
  · rw [list_run b hc] at ha
    split_ifs at ha with hk hin
    · exact h.mem k a ha
    · subst hk
      exact hmem a ha
    · exact h.mem k a ha
  · by_cases hsame : (k, a) = (c.kind, c.target.toNat)
    · obtain ⟨rfl, rfl⟩ := Prod.mk.inj hsame
      have hassigned := descriptor_assign hc hobject (h.descriptor _ _ hobject)
      have hflash : SameFlash fw.layout (c.assign m) m' := by
        intro y hy
        have hram := object_ram hobject
        have hptr := hlast c.kind
        exact (hkept y (by omega) (by omega)).symm
      apply hassigned.congr hflash
      intro y hle hlt
      have hptr := hlast c.kind
      exact hkept y (by omega) (by omega)
    · rw [descriptor_run_other hc hsame]
      apply (h.descriptor k a ha).congr hall.flash
      intro y hle hlt
      have hptr := object_ptr ha c.kind
      have hapart := fw.object_apart k a _ _ ha hobject hsame
      exact hkept' y (by omega) (by omega)

/-! ## All constructors -/

/-- The functions from a pointer into `.init_array` on. -/
def InitArray (fw : Firmware) (m : Memory) : Nat → List Ctor → Prop
  | fn, [] => fn = fw.layout.initEnd
  | fn, ctor :: cs =>
      fn + 4 ≤ fw.layout.initEnd ∧ Compiled fw.layout m (fw.code (word m fn)) ctor ∧
        fw.object (fw.code (word m fn)).kind (fw.code (word m fn)).target.toNat ∧
        InitArray fw m (fn + 4) cs

/-- A flash whose constructors are `cs`, and whose `.data` holds the descriptors of `b`. -/
structure Flashed (fw : Firmware) (rom : Memory) (b : Boot) (cs : List Ctor) : Prop where
  init : InitArray fw rom fw.layout.initStart cs
  descriptor : ∀ k a, fw.object k a → DescriptorAt fw.layout (startup fw.layout rom) b k a
  loaded : Loaded b

theorem Flashed.empty {rom : Memory} {cs : List Ctor} (h : Flashed fw rom b cs) (k : Kind) :
    list b k = [] := by
  cases k with
  | case => exact h.loaded.tests
  | suite => exact h.loaded.suites
  | group => exact h.loaded.groups

theorem Compiled.congr {l : Layout} (h : SameFlash l m m') (hc : Compiled l m c ctor) :
    Compiled l m' c ctor := by
  cases hc with
  | suite x => exact .suite x
  | suiteTeardown x f hf => exact .suiteTeardown x f hf
  | suiteTags x p tags ht => exact .suiteTags x p tags (ht.congr h)
  | group x => exact .group x
  | groupTeardown x f hf => exact .groupTeardown x f hf
  | groupTags x p tags ht => exact .groupTags x p tags (ht.congr h)
  | test x => exact .test x

theorem InitArray.congr (h : SameFlash fw.layout m m') {fn : Nat} {cs : List Ctor}
    (hi : InitArray fw m fn cs) : InitArray fw m' fn cs := by
  induction cs generalizing fn with
  | nil => exact hi
  | cons ctor cs ih =>
      obtain ⟨hle, hc, hobject, hrest⟩ := hi
      have hend := fw.layout.init_le
      have hword : word m' fn = word m fn := word_flash h (by omega)
      exact ⟨hle, hword ▸ hc.congr h, hword ▸ hobject, ih hrest⟩

theorem Firmware.Kept.trans {m₁ m₂ m₃ : Memory} (h : fw.Kept m₁ m₂) (h' : fw.Kept m₂ m₃) :
    fw.Kept m₁ m₃ := fun y hy => (h' y hy).trans (h y hy)

/-- By induction on the constructors that are left. -/
theorem callConstructors_booted {fn : Nat} {cs : List Ctor} (h : Booted fw m b)
    (hi : InitArray fw m fn cs) :
    EndsIn (fun n => fw.callConstructors n fn m) fun m' =>
      Booted fw m' (b.start cs) ∧ fw.Kept m m' := by
  induction cs generalizing m b fn with
  | nil =>
      have hdone : ¬ fn < fw.layout.initEnd := by
        rw [show fn = fw.layout.initEnd from hi]
        exact lt_irrefl _
      have hstop : ∀ n, fw.callConstructors n fn m = some m := fun n => by
        rw [Firmware.callConstructors, if_neg hdone]
      simp only [hstop]
      exact EndsIn.pure ⟨h, fun _ _ => rfl⟩
  | cons ctor cs ih =>
      obtain ⟨hle, hc, hobject, hrest⟩ := hi
      have hloop : ∀ n, fw.callConstructors n fn m =
          (fw.run n (fw.code (word m fn)) m).bind fun m => fw.callConstructors n (fn + 4) m := by
        intro n
        rw [Firmware.callConstructors, if_pos (by omega)]
      simp only [hloop]
      apply (run_booted h hc hobject).bind (g := fun m n => fw.callConstructors n (fn + 4) m)
      rintro m₁ ⟨hbooted, hkept⟩
      obtain ⟨m₂, hends, hlast, hkept'⟩ := ih hbooted (hrest.congr hkept.flash)
      exact ⟨m₂, hends, hlast, hkept.trans hkept'⟩

/-! ## The reset -/

/-- The lists are empty behind the loop that clears `.bss`. -/
theorem startup_booted {rom : Memory} {cs : List Ctor} (h : Flashed fw rom b cs)
    (hm : SameFlash fw.layout rom m) : Booted fw (startup fw.layout m) b where
  chain k := by
    rw [h.empty k]
    have hbss := fw.ptr_bss k
    have hzero : ∀ i < 4, startup fw.layout m (fw.ptr k + i) = 0 := fun i hi =>
      startup_bss fw.layout m (by omega)
    have hword : word (startup fw.layout m) (fw.ptr k) = 0 := by
      have hsame : word (startup fw.layout m) (fw.ptr k) = word (fun _ => 0) 0 :=
        word_congr fun i hi => hzero i hi
      rw [hsame]
      rfl
    show pointer (word (startup fw.layout m) (fw.ptr k)) = none
    rw [hword]
    rfl
  mem k a ha := by
    rw [h.empty k] at ha
    exact absurd ha List.not_mem_nil
  descriptor k a ha := by
    have hflash : SameFlash fw.layout (startup fw.layout rom) (startup fw.layout m) := by
      intro y hy
      rw [startup_flash fw.layout rom hy, startup_flash fw.layout m hy]
      exact hm y hy
    apply (h.descriptor k a ha).congr hflash
    intro y hle hlt
    have hdata := fw.object_data k a ha
    exact (startup_agrees fw.layout hm (.inr (.inl (by omega)))).symm

/-- Whatever the RAM held, the memory in front of `main` is what the constructors make of the
image: the lists, the descriptors, and every other byte that the flash determines. -/
theorem reset_boots {rom : Memory} {cs : List Ctor} (h : Flashed fw rom b cs)
    (hm : SameFlash fw.layout rom m) :
    EndsIn (fun n => fw.resetHandler n m) fun m' =>
      Booted fw m' (b.start cs) ∧
        ∀ y, Determined fw.layout y → ¬ fw.Touched y → m' y = startup fw.layout rom y := by
  have hflash : SameFlash fw.layout rom (startup fw.layout m) := fun y hy =>
    (hm y hy).trans (startup_flash fw.layout m hy).symm
  obtain ⟨m', hends, hbooted, hkept⟩ :=
    callConstructors_booted (startup_booted h hm) (h.init.congr hflash)
  refine ⟨m', hends, hbooted, fun y hy huntouched => ?_⟩
  rw [hkept y huntouched]
  exact (startup_agrees fw.layout hm hy).symm

end PolyOnTest.Target
