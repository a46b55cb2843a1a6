import PolyOnTest.Run.BootOrder

/-!
# The section registry

With `POT_USE_SECTION_REGISTRY`, `POT_TEST` puts the descriptor of a case into the section
`.pot_info` and defines no constructor; `POT_TEST_TAGS` defines one as before.  Each run
walks over the section first (`pot_collect_section_cases`), in steps of the size of a
descriptor.

Where the section has all descriptors and nothing between them (`Section.Packed`), the walk
does what the constructors of the cases would have done (`collect_start`), and a later walk
finds the cases linked.  So the two builds of a binary cannot be told apart: that is
`section_registry`.  The descriptors of the two builds are identified, a case with its
address in one build is the same case in the other.
-/

namespace PolyOnTest.Run

open CodeLib CodeLib.CMemory PolyOnTest.Harness

variable {ω : Type} {code : FnId → ω → List Call × ω}

/-! ## The walk over the section -/

/-- The section of a build.  `gnu` stands for GCC or Clang on a system other than Apple's,
`size` is `sizeof(pot_case_t)`, and the linker defines the two ends. -/
structure Section where
  gnu : Bool
  size : Nat
  start : Nat
  stop : Nat

namespace Section

/-- The loop of `pot_collect_section_cases`: the pointers that it registers. -/
def walk (size stop : Nat) : Nat → Nat → List Nat
  | 0, _ => []
  | n + 1, p => if p < stop then p :: walk size stop n (p + size) else []

/-- `pot_collect_section_cases`.  Its loop ends within as many rounds as there are bytes. -/
def pointers (x : Section) : List Nat :=
  if x.gnu then walk x.size x.stop (x.stop - x.start) x.start else []

/-- Descriptors at 0 and 64, with padding: the walk meets neither the second one nor a
descriptor. -/
example : pointers ⟨true, 48, 0, 112⟩ = [0, 48, 96] := by decide

/-- From `p` to `stop` there are descriptors, each behind the end of the one before. -/
def Adjacent (size stop : Nat) : Nat → List Nat → Prop
  | p, [] => p = stop
  | p, a :: as => a = p ∧ Adjacent size stop (p + size) as

/-- What is relied on of the compiler and the linker: there is a walk, and the section has
the descriptors at these addresses, without padding, and nothing else. -/
structure Packed (x : Section) (moved : List Nat) : Prop where
  gnu : x.gnu = true
  size : 0 < x.size
  adjacent : Adjacent x.size x.stop x.start moved

theorem Adjacent.stop_eq {size stop p : Nat} {as : List Nat} (h : Adjacent size stop p as) :
    stop = p + as.length * size := by
  induction as generalizing p with
  | nil => simpa using h.symm
  | cons a as ih =>
      rw [ih h.2, List.length_cons, Nat.succ_mul]
      omega

/-- The walk over adjacent descriptors, by induction on these. -/
theorem Adjacent.walk_eq {size stop p : Nat} {as : List Nat} (hsize : 0 < size)
    (h : Adjacent size stop p as) {n : Nat} (hn : as.length ≤ n) : walk size stop n p = as := by
  induction as generalizing p n with
  | nil =>
      have hp : p = stop := h
      cases n with
      | zero => rfl
      | succ n => exact if_neg (by omega)
  | cons a as ih =>
      obtain ⟨rfl, hrest⟩ := h
      cases n with
      | zero => simp at hn
      | succ n =>
        have hstop := hrest.stop_eq
        rw [walk, if_pos (by omega), ih hrest (Nat.le_of_succ_le_succ hn)]

/-- The walk over a packed section registers its descriptors. -/
theorem Packed.pointers_eq {x : Section} {moved : List Nat} (h : x.Packed moved) :
    x.pointers = moved := by
  have hlength : moved.length ≤ x.stop - x.start := by
    have hmul := Nat.le_mul_of_pos_right moved.length h.size
    have hstop := h.adjacent.stop_eq
    omega
  rw [pointers, h.gnu, if_pos rfl]
  exact h.adjacent.walk_eq h.size hlength

end Section

/-! ## The two builds -/

/-- The build with constructors only. -/
def ctorBuild (code : FnId → ω → List Call × ω) : Program ω := ⟨code, []⟩

/-- The build with a section: a run first registers what stands at its pointers. -/
def sectionBuild (code : FnId → ω → List Call × ω) (b : Boot) (x : Section) : Program ω :=
  ⟨code, x.pointers.map b.case⟩

/-- The constructor of a case is one call of `pot_register`. -/
theorem run_test {b : Boot} (hcase : ∀ a, (b.case a).addr = a) (a : Nat) :
    ((Ctor.test a).run b).registry = b.registry.register (some (b.case a)) := by
  have htests := register_tests b.registry (b.case a)
  have hlink := map_link b.case Case.addr hcase b.tests a
  have hrest := register_other b.registry (some (b.case a))
  have hsame : b.registry.register (some (b.case a)) =
      ⟨(link b.tests (some a)).map b.case, b.registry.suites, b.registry.groups⟩ := by
    rw [hlink, ← hrest.1, ← hrest.2]
    exact congrArg (Registry.mk · _ _) htests
  exact hsame.symm

/-- A walk over the section is a run of constructors behind the others. -/
theorem collect_start {b : Boot} (hcase : ∀ a, (b.case a).addr = a) (cs : List Ctor)
    {x : Section} {moved : List Nat} (hx : x.Packed moved) :
    collectSectionCases (sectionBuild code b x) (b.start cs).registry =
      (b.start (cs ++ moved.map .test)).registry := by
  have hkeeps : ∀ cs : List Ctor, (b.start cs).case = b.case := by
    intro cs
    rw [start_eq]
  show (x.pointers.map b.case).foldl _ _ = _
  rw [hx.pointers_eq]
  clear hx
  induction moved generalizing cs with
  | nil => rw [List.map_nil, List.map_nil, List.append_nil]; rfl
  | cons a moved ih =>
      have hstep : (b.start cs).registry.register (some (b.case a)) =
          (b.start (cs ++ [.test a])).registry := by
        have hlast : b.start (cs ++ [.test a]) = (Ctor.test a).run (b.start cs) :=
          List.foldl_append
        rw [hlast, run_test (by rw [hkeeps]; exact hcase), hkeeps]
      rw [List.map_cons, List.foldl_cons, hstep, ih]
      simp

/-- In front of `main`, the two builds are ready for the same runs. -/
theorem builds_ready {b : Boot} (hload : Loaded b) {cs cs' : List Ctor} {x : Section}
    {moved : List Nat} (hx : x.Packed moved) (hperm : cs.Perm (cs' ++ moved.map .test))
    (hset : SetOnce cs) (hnames : DistinctNames (ctorBuild code) (b.start cs).registry)
    (world : ω) :
    Ready (ctorBuild code) (sectionBuild code b x) ((b.start cs).sys world)
      ((b.start cs').sys world) where
  code := rfl
  filterGroup := rfl
  filterCase := rfl
  prepared group name := by
    obtain ⟨htests, hsuites, hgroups⟩ := start_perm hload hperm hset
    have hcollect : collectSectionCases (sectionBuild code b x)
        (((b.start cs').sys world).setFilter group name).g.env.reg =
          (b.start (cs' ++ moved.map .test)).registry :=
      collect_start hload.case_addr cs' hx
    refine ⟨_, hnames.alike htests hsuites hgroups, ?_⟩
    unfold Harness.prepare
    dsimp only
    rw [hcollect]
    rfl

/-- A binary whose cases are in a packed section and a binary whose cases have constructors
write the same bytes, call the same functions in the same order and give the same answers, for
any runs one after the other and whatever the test code registers meanwhile, and
`pot_run_from_env` does the same behind them. -/
theorem section_registry {b : Boot} (hload : Loaded b) {cs cs' : List Ctor} {x : Section}
    {moved : List Nat} (hx : x.Packed moved) (hperm : cs.Perm (cs' ++ moved.map .test))
    (hset : SetOnce cs) (hnames : DistinctNames (ctorBuild code) (b.start cs).registry)
    (world : ω) (es : List Entry) (v : Vars) :
    let r := runs (ctorBuild code) es ((b.start cs).sys world)
    let r' := runs (sectionBuild code b x) es ((b.start cs').sys world)
    r.2 = r'.2 ∧ r.1.trace = r'.1.trace ∧ r.1.world = r'.1.world ∧
      seen (potRunFromEnv (ctorBuild code) v r.1) =
        seen (potRunFromEnv (sectionBuild code b x) v r'.1) := by
  have hsame : SameSoFar (ctorBuild code) (sectionBuild code b x) ((b.start cs).sys world)
      ((b.start cs').sys world) :=
    ⟨rfl, rfl, builds_ready hload hx hperm hset hnames world⟩
  exact hsame.seen es v

/-- A section with two descriptors of 48 bytes. -/
def pairSection : Section := ⟨true, 48, 0x400, 0x460⟩

theorem pairSection_packed : pairSection.Packed [0x400, 0x430] :=
  ⟨rfl, by decide, rfl, rfl, rfl⟩

/-- Two cases in the section, in the other order, and a third one with tags. -/
theorem section_registry_mixed :
    let code := (bodyCalls [.ignore none]).code
    let cs := [.suite 0, .suiteTeardown 0 7, .test 0x430, .test 0x400, .test 3]
    let cs' := [.suiteTeardown 0 7, .test 3, .suite 0]
    let b := { twoCases with case := fun a => { twoCases.case a with
      name := some (CStr.lit
        (if a = 3 then "two" else if a = 0x400 then "one" else "zero")) } }
    let es := [.all, .suite (some (CStr.lit "math")), .all]
    let v : Vars := ⟨none, none, some (CStr.lit "math"), none, none⟩
    let r := runs (ctorBuild code) es ((b.start cs).sys ())
    let r' := runs (sectionBuild code b pairSection) es ((b.start cs').sys ())
    r.2 = r'.2 ∧ r.1.trace = r'.1.trace ∧ r.1.world = r'.1.world ∧
      seen (potRunFromEnv (ctorBuild code) v r.1) =
        seen (potRunFromEnv (sectionBuild code b pairSection) v r'.1) :=
  section_registry ⟨rfl, rfl, rfl, fun _ => rfl, fun _ => rfl, fun _ => rfl⟩
    pairSection_packed (by decide) (by unfold SetOnce; decide)
    ⟨by decide, by decide, by decide⟩ () _ _

end PolyOnTest.Run
