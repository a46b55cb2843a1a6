import PolyOnTest.Harness.Constructors
import PolyOnTest.Harness.Links
import PolyOnTest.Run.Lifecycle
import PolyOnTest.Run.Stretches

/-!
# Where the registry comes from

The lists of the registry hold what was registered and nothing else: the
arguments of the registration calls, which are all in the trace, and the cases
of the section once a run has walked over it.  The same is true of the three
lists, so they are the instances of `Column`.
-/

namespace PolyOnTest.Run

open CodeLib.CMemory PolyOnTest.Harness

variable {ω : Type}

/-! ## Arguments -/

/-- The case that a call registers. -/
def caseArg : Call → Option Nat
  | .register t => t.map Case.addr
  | _ => none

/-- The suite that a call registers. -/
def suiteArg : Call → Option Nat
  | .registerSuite s => s.map Suite.addr
  | _ => none

/-- The group that a call registers. -/
def groupArg : Call → Option Nat
  | .registerGroup g => g.map Group.addr
  | _ => none

/-- The calls outside of runs. -/
def outside (actions : List Action) : List Call :=
  actions.filterMap fun
    | .call c => some c
    | .run _ => none

/-! ## Columns -/

/-- One list of the registry: its addresses, the address that a call puts into
it, and those that a walk over the section puts into it. -/
structure Column (p : Program ω) where
  list : Registry → List Nat
  arg : Call → Option Nat
  own : List Nat
  call : ∀ (g : Globals) (c : Call) (a : Nat),
    a ∈ list (c.effect g).env.reg ↔ a ∈ list g.env.reg ∨ arg c = some a
  prepare : ∀ (s : Sys ω) (a : Nat),
    a ∈ list (prepare p s).g.env.reg ↔ a ∈ list s.g.env.reg ∨ a ∈ own

/-- Linking a descriptor unless it is linked adds its address. -/
theorem mem_link {D : Type} (addr : D → Nat) (ds : List D) (d : D) (a : Nat) :
    a ∈ (if ds.any (addr · == addr d) then ds else d :: ds).map addr ↔
      a ∈ ds.map addr ∨ addr d = a := by
  split_ifs with hlinked
  · refine ⟨Or.inl, ?_⟩
    rintro (ha | rfl)
    · exact ha
    · obtain ⟨d', hd', haddr⟩ := List.any_eq_true.mp hlinked
      exact List.mem_map.mpr ⟨d', hd', beq_iff_eq.mp haddr⟩
  · rw [List.map_cons, List.mem_cons, or_comm, eq_comm]

theorem mem_register (reg : Registry) (t : Option Case) (a : Nat) :
    a ∈ (reg.register t).tests.map Case.addr ↔
      a ∈ reg.tests.map Case.addr ∨ t.map Case.addr = some a := by
  cases t with
  | none => exact ⟨Or.inl, Or.rec id nofun⟩
  | some t =>
    rw [register_tests, mem_link Case.addr, Option.map_some, Option.some_inj]

theorem mem_registerSuite (reg : Registry) (s : Option Suite) (a : Nat) :
    a ∈ (reg.registerSuite s).suites.map Suite.addr ↔
      a ∈ reg.suites.map Suite.addr ∨ s.map Suite.addr = some a := by
  cases s with
  | none => exact ⟨Or.inl, Or.rec id nofun⟩
  | some s =>
    rw [registerSuite_suites, mem_link Suite.addr, Option.map_some, Option.some_inj]

theorem mem_registerGroup (reg : Registry) (g : Option Group) (a : Nat) :
    a ∈ (reg.registerGroup g).groups.map Group.addr ↔
      a ∈ reg.groups.map Group.addr ∨ g.map Group.addr = some a := by
  cases g with
  | none => exact ⟨Or.inl, Or.rec id nofun⟩
  | some g =>
    rw [registerGroup_groups, mem_link Group.addr, Option.map_some, Option.some_inj]

theorem count_env (s : Sys ω) (status : TestStatus) : (s.count status).g.env = s.g.env := by
  cases status <;> rfl

/-- A walk over the section adds its cases. -/
theorem mem_collect (p : Program ω) (reg : Registry) (a : Nat) :
    a ∈ (collectSectionCases p reg).tests.map Case.addr ↔
      a ∈ reg.tests.map Case.addr ∨ a ∈ p.potInfo.map Case.addr := by
  unfold collectSectionCases
  induction p.potInfo generalizing reg with
  | nil => exact ⟨Or.inl, Or.rec id fun h => absurd h List.not_mem_nil⟩
  | cons t ts ih =>
      rw [List.foldl_cons, ih, mem_register, List.map_cons, List.mem_cons, Option.map_some,
        Option.some_inj, or_assoc, eq_comm (a := t.addr)]

section Columns

variable (p : Program ω)

/-- The list from `g_tests`. -/
def testsColumn : Column p where
  list := fun reg => reg.tests.map Case.addr
  arg := caseArg
  own := p.potInfo.map Case.addr
  call := fun g c a => by
    cases c with
    | register t => exact mem_register g.env.reg t a
    | registerSuite s =>
      rw [← (registerSuite_other g.env.reg s).1]
      exact ⟨Or.inl, Or.rec id nofun⟩
    | registerGroup u =>
      rw [← (registerGroup_other g.env.reg u).1]
      exact ⟨Or.inl, Or.rec id nofun⟩
    | _ => exact ⟨Or.inl, Or.rec id nofun⟩
  prepare := fun s a => by
    rw [← mem_collect]
    exact ((sortCases_perm _).map Case.addr).mem_iff

/-- The list from `g_suites`. -/
def suitesColumn : Column p where
  list := fun reg => reg.suites.map Suite.addr
  arg := suiteArg
  own := []
  call := fun g c a => by
    cases c with
    | register t =>
      rw [← (register_other g.env.reg t).1]
      exact ⟨Or.inl, Or.rec id nofun⟩
    | registerSuite s => exact mem_registerSuite g.env.reg s a
    | registerGroup u =>
      rw [← (registerGroup_other g.env.reg u).2]
      exact ⟨Or.inl, Or.rec id nofun⟩
    | _ => exact ⟨Or.inl, Or.rec id nofun⟩
  prepare := fun s a => by
    rw [← collect_suites p s.g.env.reg]
    exact ⟨Or.inl, Or.rec id fun h => absurd h List.not_mem_nil⟩

/-- The list from `g_groups`. -/
def groupsColumn : Column p where
  list := fun reg => reg.groups.map Group.addr
  arg := groupArg
  own := []
  call := fun g c a => by
    cases c with
    | register t =>
      rw [← (register_other g.env.reg t).2]
      exact ⟨Or.inl, Or.rec id nofun⟩
    | registerSuite s =>
      rw [← (registerSuite_other g.env.reg s).2]
      exact ⟨Or.inl, Or.rec id nofun⟩
    | registerGroup u => exact mem_registerGroup g.env.reg u a
    | _ => exact ⟨Or.inl, Or.rec id nofun⟩
  prepare := fun s a => by
    rw [← collect_groups p s.g.env.reg]
    exact ⟨Or.inl, Or.rec id fun h => absurd h List.not_mem_nil⟩

end Columns

/-! ## Stretches of a run -/

/-- From `s` to `s'` the trace grew, and the list by what the calls in it
register. -/
def Column.Grows {p : Program ω} (col : Column p) (s s' : Sys ω) : Prop :=
  ∃ new, s'.trace = s.trace ++ new ∧
    ∀ a, a ∈ col.list s'.g.env.reg ↔
      a ∈ col.list s.g.env.reg ∨ a ∈ (calls new).filterMap col.arg

namespace Column

variable {p : Program ω} {col : Column p} {s s' : Sys ω}

/-- A step without calls that leaves the registry alone. -/
theorem Grows.quiet (new : List Step) (htrace : s'.trace = s.trace ++ new)
    (hcalls : calls new = []) (hreg : s'.g.env.reg = s.g.env.reg) : col.Grows s s' := by
  refine ⟨new, htrace, fun a => ?_⟩
  rw [hcalls, hreg]
  exact ⟨Or.inl, Or.rec id fun h => absurd h List.not_mem_nil⟩

theorem Grows.refl (s : Sys ω) : col.Grows s s :=
  Grows.quiet [] (List.append_nil s.trace).symm rfl rfl

theorem Grows.trans {s'' : Sys ω} (h : col.Grows s s') (h' : col.Grows s' s'') :
    col.Grows s s'' := by
  obtain ⟨new, htrace, hlist⟩ := h
  obtain ⟨new', htrace', hlist'⟩ := h'
  refine ⟨new ++ new', by rw [htrace', htrace, List.append_assoc], fun a => ?_⟩
  rw [hlist', hlist, calls_append, List.filterMap_append, List.mem_append, or_assoc]

theorem grows_call (col : Column p) (s : Sys ω) (c : Call) : col.Grows s (s.call c) := by
  refine ⟨.call c :: (c.msgs s.g).map .msg, rfl, fun a => ?_⟩
  have hcalls : calls (.call c :: (c.msgs s.g).map .msg) = [c] :=
    congrArg (c :: ·) (calls_map_msg (c.msgs s.g))
  rw [hcalls, List.mem_filterMap]
  simp only [List.mem_singleton, exists_eq_left]
  exact col.call s.g c a

/-- A run grows the list by what its calls register. -/
theorem grows_stretch (col : Column p) : Stretch p col.Grows where
  refl := Grows.refl
  trans := Grows.trans
  say s m _ := Grows.quiet [.msg m] rfl rfl rfl
  enter := enter_of_calls Grows.refl Grows.trans col.grows_call
    fun s _ hook f => Grows.quiet [.enter hook f] rfl rfl rfl
  begin s t := Grows.quiet [.take t] rfl rfl rfl
  count s status := Grows.quiet []
    ((count_trace s status).trans (List.append_nil _).symm) rfl (by rw [count_env])

/-! ## Sequences of actions -/

/-- The list has what the calls in the trace registered, and what the section
has if there was a run. -/
def Accounts (col : Column p) (ran : Prop) (s : Sys ω) : Prop :=
  ∀ a, a ∈ col.list s.g.env.reg ↔
    a ∈ (calls s.trace).filterMap col.arg ∨ ran ∧ a ∈ col.own

theorem Accounts.grows {ran : Prop} (h : col.Accounts ran s) (hgrows : col.Grows s s') :
    col.Accounts ran s' := by
  obtain ⟨new, htrace, hlist⟩ := hgrows
  intro a
  rw [hlist, h a, htrace, calls_append, List.filterMap_append, List.mem_append, or_right_comm]

theorem Accounts.runFiltered {ran : Prop} (h : col.Accounts ran s)
    (sel : Env → Case → Bool) : col.Accounts True (Harness.runFiltered p sel s).1 := by
  have hprepare : col.Accounts True (Harness.prepare p s) := by
    intro a
    rw [col.prepare, h a]
    show _ ↔ a ∈ (calls s.trace).filterMap col.arg ∨ _
    tauto
  exact hprepare.grows (col.grows_stretch.runFiltered sel s)

section Actions

variable {img : Image} {p : Program ω} {col : Column (img.program p)} {s : Sys ω}

theorem Accounts.call {ran : Prop} (h : col.Accounts ran s) (c : Call) :
    col.Accounts ran (Action.onLists img p s (.call c)) ∧
      img.load c ∈ calls (Action.onLists img p s (.call c)).trace := by
  refine ⟨h.grows (col.grows_call s _), ?_⟩
  show img.load c ∈ calls (s.trace ++ .call (img.load c) :: _)
  rw [calls_append]
  exact List.mem_append_right _ List.mem_cons_self

theorem Accounts.run {ran : Prop} (h : col.Accounts ran s) (e : Entry) :
    col.Accounts True (Action.onLists img p s (.run e)) := by
  obtain ⟨sel, s', hrun, htrace, hreg⟩ := Entry.run_eq (img.program p) e s
  have hsame : col.Accounts ran s' := by
    intro a
    rw [hreg, htrace]
    exact h a
  show col.Accounts True (e.run (img.program p) s).1
  rw [hrun]
  exact hsame.runFiltered sel

/-- No action takes a call out of the trace. -/
theorem onLists_calls (img : Image) (p : Program ω) (s : Sys ω) (action : Action) :
    calls s.trace ⊆ calls (action.onLists img p s).trace := by
  cases action with
  | call c =>
    show _ ⊆ calls (s.trace ++ .call (img.load c) :: _)
    rw [calls_append]
    exact List.subset_append_left _ _
  | run e =>
    obtain ⟨sel, s', hrun, htrace, -⟩ := Entry.run_eq (img.program p) e s
    obtain ⟨new, hgrew, -⟩ := (testsColumn (img.program p)).grows_stretch.runFiltered sel s'
    have hlast : (Action.onLists img p s (.run e)).trace = s.trace ++ new := by
      show (e.run (img.program p) s).1.trace = _
      rw [hrun, hgrew, ← htrace]
      rfl
    rw [hlast, calls_append]
    exact List.subset_append_left _ _

/-- Behind a sequence of actions the list is accounted for, and the calls
outside of runs are in the trace.  By induction on the actions from the last
one. -/
theorem actions_accounts (col : Column (img.program p))
    (hempty : col.list ⟨[], [], []⟩ = []) (world : ω) (actions : List Action) :
    let s := actions.foldl (Action.onLists img p) ⟨Globals.init, world, []⟩
    col.Accounts (∃ e, .run e ∈ actions) s ∧
      ∀ c ∈ outside actions, img.load c ∈ calls s.trace := by
  induction actions using List.reverseRecOn with
  | nil =>
      refine ⟨fun a => ?_, fun c hc => absurd hc List.not_mem_nil⟩
      show a ∈ col.list ⟨[], [], []⟩ ↔ _
      simp [hempty, calls]
  | append_singleton actions action ih =>
      obtain ⟨haccounts, houtside⟩ := ih
      rw [List.foldl_append]
      generalize actions.foldl (Action.onLists img p) ⟨Globals.init, world, []⟩ = s
        at haccounts houtside
      have hkept : ∀ c ∈ outside actions, img.load c ∈ calls (action.onLists img p s).trace :=
        fun c hc => onLists_calls img p s action (houtside c hc)
      cases action with
      | call c =>
        have hran : (∃ e, .run e ∈ actions ++ [.call c]) ↔ ∃ e, .run e ∈ actions := by simp
        obtain ⟨hlast, hmem⟩ := haccounts.call c
        refine ⟨fun a => by rw [hran]; exact hlast a, fun c' hc' => ?_⟩
        rw [outside, List.filterMap_append, List.mem_append] at hc'
        rcases hc' with hc' | hc'
        · exact hkept c' hc'
        · obtain rfl := List.mem_singleton.mp hc'
          exact hmem
      | run e =>
        have hran : (∃ e', .run e' ∈ actions ++ [.run e]) ↔ True :=
          iff_true_intro ⟨e, by simp⟩
        refine ⟨fun a => by rw [hran]; exact haccounts.run e a, fun c hc => ?_⟩
        rw [outside, List.filterMap_append, List.mem_append] at hc
        rcases hc with hc | hc
        · exact hkept c hc
        · exact absurd hc List.not_mem_nil

end Actions

end Column

end PolyOnTest.Run
