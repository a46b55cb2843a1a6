import PolyOnTest.Run.Order
import PolyOnTest.Run.Registered

/-!
# The integrity of the registry

The code on the links does what the code on the lists does, and it always ends.
`Represents` connects a list in memory with a list of descriptors and with the
addresses that were registered, and `Sync` connects a `Machine` with a state of
`Runner`.  Each function of `Links` has one lemma: from a state in `Sync` it
ends, and the state behind it is in `Sync` with that of its namesake.

`runFiltered_sync` says this of a whole run, in which test code registers more
descriptors while the loop is on its way through the list.  A registration puts
a descriptor in front of the list, so what the loop still has to visit stays the
end of it.  `registry_integrity` follows for every sequence of registrations and
runs.  `Registered` says which descriptors these sequences register.
-/

namespace PolyOnTest.Run

open CodeLib CodeLib.CMemory CodeLib.Fuel CodeLib.LinkedList PolyOnTest.Harness

variable {ω D : Type}

/-! ## One list -/

/-- The list in memory has the descriptors `ds`, and these are the ones that
were registered. -/
def Represents (load : Nat → D) (l : Links) (ds : List D) (asked : List Nat) : Prop :=
  ∃ as, Chain l.next l.head as ∧ ds = as.map load ∧ ∀ a, a ∈ as ↔ a ∈ asked

/-- The way along the `next` fields ends and visits each of the descriptors
exactly once. -/
def Visits (l : Links) (asked : List Nat) : Prop :=
  ∃ as, Chain l.next l.head as ∧ as.Nodup ∧ ∀ a, a ∈ as ↔ a ∈ asked

theorem Represents.visits {load : Nat → D} {l : Links} {ds : List D} {asked : List Nat}
    (h : Represents load l ds asked) : Visits l asked := by
  obtain ⟨as, hchain, -, hasked⟩ := h
  exact ⟨as, hchain, hchain.nodup, hasked⟩

/-- The addresses in the list are those that were registered. -/
theorem Represents.mem_iff {load : Nat → D} {addr : D → Nat} (haddr : ∀ a, addr (load a) = a)
    {l : Links} {ds : List D} {asked : List Nat} (h : Represents load l ds asked) (a : Nat) :
    a ∈ asked ↔ a ∈ ds.map addr := by
  obtain ⟨as, -, rfl, hasked⟩ := h
  have hsame : (as.map load).map addr = as := by
    rw [List.map_map]
    exact (List.map_congr_left fun a _ => haddr a).trans (List.map_id as)
  rw [hsame, hasked]

theorem Represents.register {load : Nat → D} {addr : D → Nat} (haddr : ∀ a, addr (load a) = a)
    {l : Links} {ds : List D} {asked : List Nat} (h : Represents load l ds asked) (x : Nat) :
    EndsIn (fun n => l.register n (some x)) fun l' =>
      Represents load l' (if ds.any (addr · == x) then ds else load x :: ds)
        (asked ++ [x]) := by
  obtain ⟨as, hchain, rfl, hasked⟩ := h
  obtain ⟨l', hends, hchain'⟩ := l.register_ends hchain x
  refine hends.endsIn ⟨_, hchain', ?_, fun a => ?_⟩
  · have hany : (as.map load).any (addr · == x) = true ↔ x ∈ as := by
      simp [List.any_map, haddr]
    simp only [hany]
    split_ifs
    · rfl
    · rw [List.map_cons]
  · rw [List.mem_append, List.mem_singleton, ← hasked]
    split_ifs with hx
    · constructor
      · exact Or.inl
      · rintro (ha | rfl)
        · exact ha
        · exact hx
    · rw [List.mem_cons, or_comm]

/-- A search for a descriptor is a search in the list. -/
theorem Represents.find {load : Nat → D} {l : Links} {ds : List D} {asked : List Nat}
    (h : Represents load l ds asked) (test : D → Bool) :
    Ends (fun n => (findFrom l.next (fun a => test (load a)) n l.head).map (Option.map load))
      (ds.find? test) := by
  obtain ⟨as, hchain, rfl, -⟩ := h
  rw [List.find?_map]
  exact (findFrom_ends (fun a => test (load a)) hchain).map _

theorem Represents.sort {img : Image} {l : Links} {ts : List Case} {asked : List Nat}
    (h : Represents img.case l ts asked) :
    EndsIn (fun n => l.sortCases img n) fun l' =>
      Represents img.case l' (sortCases ts) asked := by
  obtain ⟨as, hchain, rfl, hasked⟩ := h
  obtain ⟨l', bs, hends, hchain', hperm, hcases, -⟩ := sortCases_ends img hchain
  exact hends.endsIn ⟨bs, hchain', hcases.symm, fun a => hperm.mem_iff.trans (hasked a)⟩

/-! ## The three lists -/

/-- The registry in memory is the registry on lists. -/
structure Coherent (img : Image) (heap : Heap) (reg : Registry) (asked : Asked) : Prop where
  tests : Represents img.case heap.tests reg.tests asked.cases
  suites : Represents img.suite heap.suites reg.suites asked.suites
  groups : Represents img.group heap.groups reg.groups asked.groups

section Registry

variable {img : Image} {heap : Heap} {reg : Registry} {asked : Asked}

theorem Coherent.potRegister (h : Coherent img heap reg asked) (a : Nat) :
    EndsIn (fun n => heap.potRegister n (some a)) fun heap' =>
      Coherent img heap' (reg.register (some (img.case a)))
        { asked with cases := asked.cases ++ [a] } := by
  refine (h.tests.register img.case_addr a).map _ fun l hl => ?_
  unfold Registry.register alreadyLinkedCase
  simp only [img.case_addr]
  split_ifs at hl ⊢
  · exact ⟨hl, h.suites, h.groups⟩
  · exact ⟨hl, h.suites, h.groups⟩

theorem Coherent.potRegisterSuite (h : Coherent img heap reg asked) (a : Nat) :
    EndsIn (fun n => heap.potRegisterSuite n (some a)) fun heap' =>
      Coherent img heap' (reg.registerSuite (some (img.suite a)))
        { asked with suites := asked.suites ++ [a] } := by
  refine (h.suites.register img.suite_addr a).map _ fun l hl => ?_
  unfold Registry.registerSuite alreadyLinkedSuite
  simp only [img.suite_addr]
  split_ifs at hl ⊢
  · exact ⟨h.tests, hl, h.groups⟩
  · exact ⟨h.tests, hl, h.groups⟩

theorem Coherent.potRegisterGroup (h : Coherent img heap reg asked) (a : Nat) :
    EndsIn (fun n => heap.potRegisterGroup n (some a)) fun heap' =>
      Coherent img heap' (reg.registerGroup (some (img.group a)))
        { asked with groups := asked.groups ++ [a] } := by
  refine (h.groups.register img.group_addr a).map _ fun l hl => ?_
  unfold Registry.registerGroup alreadyLinkedGroup
  simp only [img.group_addr]
  split_ifs at hl ⊢
  · exact ⟨h.tests, h.suites, hl⟩
  · exact ⟨h.tests, h.suites, hl⟩

/-- Calls that register nothing leave the links as they are. -/
theorem Coherent.call {g : Globals} (h : Coherent img heap g.env.reg asked) (c : Call) :
    EndsIn (fun n => heap.call n c) fun heap' =>
      Coherent img heap' ((img.load c).effect g).env.reg (asked.call c) := by
  cases c with
  | register t =>
    cases t with
    | none => exact EndsIn.pure h
    | some t => exact h.potRegister t.addr
  | registerSuite u =>
    cases u with
    | none => exact EndsIn.pure h
    | some u => exact h.potRegisterSuite u.addr
  | registerGroup u =>
    cases u with
    | none => exact EndsIn.pure h
    | some u => exact h.potRegisterGroup u.addr
  | _ => exact EndsIn.pure h

theorem Coherent.findSuite (h : Coherent img heap reg asked) (name : Option CStr) :
    Ends (fun n => heap.findSuite img n name) (findSuite reg name) :=
  h.suites.find fun s => strCmp s.name name = .eq

theorem Coherent.findGroup (h : Coherent img heap reg asked) (suite group : Option CStr) :
    Ends (fun n => heap.findGroup img n suite group) (findGroup reg suite group) :=
  h.groups.find fun g => strCmp g.suite suite = .eq ∧ strCmp g.name group = .eq

/-- The three places for a tag, in the order in which the code looks at them. -/
theorem caseMatchesTag_eq (t : Case) (tag : Option CStr) :
    caseMatchesTag reg t tag =
      if tagsContain t.tags tag then true
      else if (findSuite reg t.suite).any fun s => tagsContain s.tags tag then true
      else (findGroup reg t.suite t.group).any fun g => tagsContain g.tags tag := by
  unfold caseMatchesTag
  cases tagsContain t.tags tag <;> cases findSuite reg t.suite <;>
    cases findGroup reg t.suite t.group <;> simp

theorem Coherent.caseMatchesTag (h : Coherent img heap reg asked) (t : Case)
    (tag : Option CStr) :
    Ends (fun n => heap.caseMatchesTag img n t tag) (caseMatchesTag reg t tag) := by
  rw [caseMatchesTag_eq]
  unfold Heap.caseMatchesTag
  split_ifs with hcase hsuite
  · exact Ends.pure true
  · refine (h.findSuite t.suite).bind ?_
    simp only [hsuite, if_true]
    exact Ends.pure true
  · refine (h.findSuite t.suite).bind ?_
    simp only [hsuite, Bool.false_eq_true, if_false]
    exact (h.findGroup t.suite t.group).map _

/-- Of the match functions, only `match_tag` looks at the links. -/
theorem Coherent.test {env : Env} (h : Coherent img heap env.reg asked) (matcher : Matcher)
    (t : Case) : Ends (fun n => matcher.test img n heap env t) (matcher.sel env t) := by
  cases matcher with
  | tag u => exact h.caseMatchesTag t (some u)
  | _ => exact Ends.pure _

end Registry

/-! ## The machine -/

/-- The machine with the state `s` of the list model. -/
structure Sync (img : Image) (s : Sys ω) (m : Machine ω) : Prop where
  sys : m.sys = s
  coherent : Coherent img m.heap s.g.env.reg m.asked

section Machine

variable {img : Image} {p : Program ω} {s : Sys ω} {m : Machine ω}

theorem Sync.say (h : Sync img s m) (msg : Msg) : Sync img (s.say msg) (m.say msg) := by
  obtain ⟨rfl, hco⟩ := h
  exact ⟨rfl, hco⟩

theorem Sync.call (h : Sync img s m) (c : Call) :
    EndsIn (fun n => m.call img n c) (Sync img (s.call (img.load c))) := by
  obtain ⟨rfl, hco⟩ := h
  exact (hco.call c).map _ fun heap hheap => ⟨rfl, hheap⟩

/-- Test code may register more descriptors. -/
theorem Sync.enter (h : Sync img s m) (hook : Hook) (f : Option FnId) :
    EndsIn (fun n => Machine.enter img p n hook f m)
      (Sync img (s.enter (img.program p) hook f)) := by
  cases f with
  | none => exact EndsIn.pure h
  | some f =>
    obtain ⟨rfl, hco⟩ := h
    simp only [Machine.enter, Sys.enter, Image.program, List.foldl_map]
    exact EndsIn.foldlM (f := Machine.call img) (R := Sync img)
      (fun _ _ c hm => hm.call c) _ ⟨rfl, hco⟩

theorem closeSuite_sync (h : Sync img s m) (o : Open) :
    EndsIn (fun n => Machine.closeSuite img p n o m)
      (Sync img (closeSuite (img.program p) o s)) := by
  unfold Machine.closeSuite closeSuite
  cases o.suite with
  | none => exact EndsIn.pure h
  | some name =>
    refine (h.coherent.findSuite (some name)).bind_endsIn ?_
    exact (h.enter .suiteTeardown _).map _ fun m hm => hm.say _

theorem openSuiteEmit_sync (h : Sync img s m) (name : Option CStr) :
    EndsIn (fun n => Machine.openSuiteEmit img p n name m)
      (Sync img (openSuiteEmit (img.program p) name s)) := by
  refine (h.coherent.findSuite name).bind_endsIn ?_
  exact (h.enter .suiteSetup _).map _ fun m hm => hm.say _

theorem runBody_sync (h : Sync img s m) (t : Case) :
    EndsIn (fun n => Machine.runBody img p n t m)
      (Sync img (runBody (img.program p) t s)) := by
  refine (h.coherent.findGroup t.suite t.group).bind_endsIn ?_
  refine (h.enter .groupSetup _).bind fun m hm => ?_
  exact (hm.enter .body t.fn).bind fun m hm => hm.enter .groupTeardown _

/-- The same for the state of the loop. -/
def SyncOpen (img : Image) (y : Sys ω × Open) (x : Machine ω × Open) : Prop :=
  Sync img y.1 x.1 ∧ x.2 = y.2

variable {y : Sys ω × Open} {x : Machine ω × Open}

theorem switchSuite_sync (h : SyncOpen img y x) (t : Case) :
    EndsIn (fun n => Machine.switchSuite img p n t x)
      (SyncOpen img (switchSuite (img.program p) t y)) := by
  obtain ⟨hm, ho⟩ := h
  unfold Machine.switchSuite switchSuite
  rw [ho]
  split_ifs
  · refine (closeSuite_sync hm y.2).bind fun m hm => ?_
    exact (openSuiteEmit_sync hm t.suite).map _ fun m hm => ⟨hm, rfl⟩
  · exact EndsIn.pure ⟨hm, ho⟩

theorem runCase_sync (h : SyncOpen img y x) (t : Case) :
    EndsIn (fun n => Machine.runCase img p n t x)
      (SyncOpen img (runCase (img.program p) t y)) := by
  obtain ⟨s, o⟩ := y
  obtain ⟨m, o'⟩ := x
  obtain ⟨⟨rfl, hco⟩, rfl⟩ := h
  have hbegin : Sync img ((m.sys.begin t).say (.caseStart t.id))
      { m with sys := (m.sys.begin t).say (.caseStart t.id) } := ⟨rfl, hco⟩
  refine (runBody_sync hbegin t).map _ fun m' hm => ?_
  obtain ⟨hsys, hco'⟩ := hm
  refine ⟨⟨?_, ?_⟩, ?_⟩
  · simp only [runCase, hsys]
  · rw [← hsys] at hco'
    simp only [runCase, ← hsys]
    exact count_env m'.sys m'.sys.status ▸ hco'
  · simp only [runCase, hsys]

theorem loopBody_sync (h : SyncOpen img y x) (matcher : Matcher) (a : Nat) :
    EndsIn (fun n => Machine.loopBody img p n matcher a x)
      (SyncOpen img (loopBody (img.program p) matcher.sel y (img.case a))) := by
  obtain ⟨s, o⟩ := y
  obtain ⟨m, o'⟩ := x
  obtain ⟨⟨rfl, hco⟩, rfl⟩ := h
  refine (hco.test matcher (img.case a)).bind_endsIn ?_
  unfold loopBody
  dsimp only
  split_ifs
  · exact (switchSuite_sync ⟨⟨rfl, hco⟩, rfl⟩ (img.case a)).bind fun _ hx => runCase_sync hx _
  · exact EndsIn.pure ⟨⟨rfl, hco⟩, rfl⟩

/-! ## The loop -/

theorem register_suffix (reg : Registry) (t : Option Case) :
    reg.tests <:+ (reg.register t).tests := by
  cases t with
  | none => exact List.suffix_refl _
  | some t =>
    unfold Registry.register
    dsimp only
    split_ifs
    · exact List.suffix_refl _
    · exact List.suffix_cons t reg.tests

/-- Registrations leave the end of the list as it is. -/
theorem suffix_invariant (p : Program ω) (ts : List Case) :
    Invariant p fun g => ts <:+ g.env.reg.tests where
  call := fun _ _ c _ g hg => by
    cases c with
    | register t => exact hg.trans (register_suffix g.env.reg t)
    | registerSuite u =>
      have hsame : (g.env.reg.registerSuite u).tests = g.env.reg.tests := by
        cases u with
        | none => rfl
        | some u =>
          unfold Registry.registerSuite
          dsimp only
          split_ifs <;> rfl
      exact hsame ▸ hg
    | registerGroup u =>
      have hsame : (g.env.reg.registerGroup u).tests = g.env.reg.tests := by
        cases u with
        | none => rfl
        | some u =>
          unfold Registry.registerGroup
          dsimp only
          split_ifs <;> rfl
      exact hsame ▸ hg
    | _ => exact hg
  case := fun _ _ hg => hg
  counters := fun _ _ _ _ hg => hg

/-- The loop finds the way from each case that it visits to the next one. -/
theorem Represents.next_eq {l : Links} {ts : List Case} {asked : List Nat}
    (h : Represents img.case l ts asked) {a : Nat} {rest : List Nat}
    (hsuffix : (a :: rest).map img.case <:+ ts) : l.next a = rest.head? := by
  obtain ⟨as, hchain, rfl, -⟩ := h
  obtain ⟨front, hfront⟩ := hsuffix
  obtain ⟨as₁, as₂, rfl, -, has₂⟩ := List.map_eq_append_iff.mp hfront.symm
  obtain rfl := img.case_injective.list_map has₂
  have hrest : Chain l.next (l.next a) rest := (Chain.suffix hchain).2
  cases rest with
  | nil => exact hrest
  | cons b rest => exact hrest.1

/-- The loop, by induction on the cases that it still has to visit. -/
theorem runLoop_sync (matcher : Matcher) (rest : List Nat) {y : Sys ω × Open}
    {x : Machine ω × Open} (h : SyncOpen img y x)
    (hsuffix : rest.map img.case <:+ y.1.g.env.reg.tests) :
    EndsIn (fun n => Machine.runLoop img p matcher n rest.head? x)
      (SyncOpen img
        ((rest.map img.case).foldl (loopBody (img.program p) matcher.sel) y)) := by
  induction rest generalizing y x with
  | nil => exact EndsIn.of_succ (EndsIn.pure h)
  | cons a rest ih =>
      have hkeep := loopBody_inv
        (suffix_invariant (img.program p) ((a :: rest).map img.case)) matcher.sel
        hsuffix (img.case a)
      refine EndsIn.of_succ ?_
      simp only [List.head?_cons, Machine.runLoop]
      refine (loopBody_sync h matcher a).bind fun x' hx' => ?_
      rw [hx'.1.coherent.tests.next_eq hkeep]
      exact ih hx' ((List.suffix_cons _ _).trans hkeep)

/-! ## Runs -/

theorem collectSectionCases_sync (h : Sync img s m) :
    EndsIn (fun n => Machine.collectSectionCases img p n m)
      (Sync img (m.setReg (collectSectionCases (img.program p) s.g.env.reg))) := by
  obtain ⟨rfl, hco⟩ := h
  unfold Machine.collectSectionCases collectSectionCases
  simp only [Image.program, List.foldl_map]
  refine EndsIn.foldlM (f := Machine.collectCase img)
    (R := fun reg m' => Sync img (m.setReg reg) m') (fun reg m' t hm' => ?_) _ ⟨rfl, hco⟩
  refine (hm'.coherent.potRegister t.addr).map _ fun heap hheap => ⟨?_, hheap⟩
  simp only [Machine.setReg, hm'.sys]

theorem prepare_sync (h : Sync img s m) :
    EndsIn (fun n => Machine.prepare img p n m)
      (Sync img (prepare (img.program p) s)) := by
  have hcollect := collectSectionCases_sync (p := p) h
  obtain ⟨rfl, -⟩ := h
  refine hcollect.bind fun m' hm' => ?_
  refine hm'.coherent.tests.sort.map _ fun l hl => ⟨?_, hl, hm'.coherent.suites,
    hm'.coherent.groups⟩
  simp only [Machine.setReg, hm'.sys, prepare]

/-- A run on the links is a run on the lists. -/
theorem runFiltered_sync (h : Sync img s m) (matcher : Matcher) :
    EndsIn (fun n => Machine.runFiltered img p n matcher m) fun r =>
      Sync img (runFiltered (img.program p) matcher.sel s).1 r.1 ∧
        r.2 = (runFiltered (img.program p) matcher.sel s).2 := by
  refine (prepare_sync h).bind fun m' hm' => ?_
  obtain ⟨as, hchain, htests, hasked⟩ := hm'.coherent.tests
  have hhead : m'.heap.tests.head = as.head? := by
    cases as with
    | nil => exact hchain
    | cons a as => exact hchain.1
  have hbanner := hm'.say .banner
  have hloop := runLoop_sync (p := p) (x := (m'.say .banner, ⟨none, 0, 0, 0⟩))
    (y := ((prepare (img.program p) s).say .banner, ⟨none, 0, 0, 0⟩)) matcher as
    ⟨hbanner, rfl⟩ (htests ▸ List.suffix_refl _)
  rw [← htests, ← hhead] at hloop
  refine hloop.bind fun x hx => ?_
  rw [hx.2]
  refine (closeSuite_sync hx.1 _).map _ fun last hlast => ⟨?_, ?_⟩
  · rw [hlast.sys]
    exact hlast.say _
  · rw [hlast.sys]
    rfl

theorem act_sync (h : Sync img s m) (action : Action) :
    EndsIn (fun n => m.act img p n action) (Sync img (action.onLists img p s)) := by
  cases action with
  | call c => exact h.call c
  | run e =>
    obtain ⟨rfl, hco⟩ := h
    have hfilters : Sync img (e.filters m.sys) { m with sys := e.filters m.sys } :=
      ⟨rfl, filters_env m.sys e ▸ hco⟩
    have hrun := runFiltered_sync (p := p) hfilters e.matcher
    rw [← Entry.run_matcher] at hrun
    exact hrun.map _ fun r hr => hr.1

/-- Every sequence of actions ends, in a state of the list model. -/
theorem actions_sync (img : Image) (p : Program ω) (world : ω)
    (tests suites groups : Nat → Option Nat) (actions : List Action) :
    EndsIn (fun n => actions.foldlM (Machine.act img p n)
        (Machine.init world tests suites groups))
      (Sync img (actions.foldl (Action.onLists img p) ⟨Globals.init, world, []⟩)) := by
  have hempty {D : Type} (load : Nat → D) (next : Nat → Option Nat) :
      Represents load ⟨none, next⟩ [] [] := ⟨[], rfl, rfl, fun _ => Iff.rfl⟩
  have hinit : Sync img ⟨Globals.init, world, []⟩
      (Machine.init world tests suites groups) :=
    ⟨rfl, hempty img.case tests, hempty img.suite suites, hempty img.group groups⟩
  exact EndsIn.foldlM (f := Machine.act img p) (R := Sync img)
    (fun _ _ action hm => act_sync hm action) actions hinit

/-- The descriptors that are registered by a sequence of actions that leaves the
trace: by its calls outside of runs, by the calls of test code in the trace, and
by the walks over the section, one in each run. -/
structure Registered (actions : List Action) (trace : List Step) (potInfo : List Case)
    (asked : Asked) : Prop where
  cases : ∀ a, a ∈ asked.cases ↔
    a ∈ (outside actions).filterMap caseArg ∨ a ∈ (calls trace).filterMap caseArg ∨
      (∃ e, .run e ∈ actions) ∧ a ∈ potInfo.map Case.addr
  suites : ∀ a, a ∈ asked.suites ↔
    a ∈ (outside actions).filterMap suiteArg ∨ a ∈ (calls trace).filterMap suiteArg
  groups : ∀ a, a ∈ asked.groups ↔
    a ∈ (outside actions).filterMap groupArg ∨ a ∈ (calls trace).filterMap groupArg

/-- The list of one kind, with the calls outside of runs named. -/
theorem accounts_outside (col : Column (img.program p)) (hempty : col.list ⟨[], [], []⟩ = [])
    (hload : ∀ c, col.arg (img.load c) = col.arg c) (world : ω) (actions : List Action)
    (a : Nat) :
    let s := actions.foldl (Action.onLists img p) ⟨Globals.init, world, []⟩
    a ∈ col.list s.g.env.reg ↔
      a ∈ (outside actions).filterMap col.arg ∨ a ∈ (calls s.trace).filterMap col.arg ∨
        (∃ e, .run e ∈ actions) ∧ a ∈ col.own := by
  obtain ⟨haccounts, houtside⟩ := col.actions_accounts hempty world actions
  dsimp only
  rw [haccounts a, ← or_assoc]
  refine or_congr_left ⟨Or.inr, ?_⟩
  rintro (ha | ha)
  · obtain ⟨c, hc, harg⟩ := List.mem_filterMap.mp ha
    exact List.mem_filterMap.mpr ⟨_, houtside c hc, (hload c).trans harg⟩
  · exact ha

/-- A state of the list model knows what was registered. -/
theorem Sync.registered {world : ω} {actions : List Action} {m : Machine ω}
    (h : Sync img (actions.foldl (Action.onLists img p) ⟨Globals.init, world, []⟩) m) :
    Registered actions m.sys.trace p.potInfo m.asked := by
  have hpotInfo : (img.program p).potInfo.map Case.addr = p.potInfo.map Case.addr := by
    unfold Image.program
    rw [List.map_map]
    exact List.map_congr_left fun t _ => img.case_addr t.addr
  have hload : ∀ c, caseArg (img.load c) = caseArg c ∧ suiteArg (img.load c) = suiteArg c ∧
      groupArg (img.load c) = groupArg c := by
    intro c
    cases c with
    | register t => cases t <;> simp [Image.load, caseArg, suiteArg, groupArg, img.case_addr]
    | registerSuite s =>
      cases s <;> simp [Image.load, caseArg, suiteArg, groupArg, img.suite_addr]
    | registerGroup g =>
      cases g <;> simp [Image.load, caseArg, suiteArg, groupArg, img.group_addr]
    | _ => exact ⟨rfl, rfl, rfl⟩
  have hcases := accounts_outside (testsColumn (img.program p)) rfl (fun c => (hload c).1)
    world actions
  have hsuites := accounts_outside (suitesColumn (img.program p)) rfl (fun c => (hload c).2.1)
    world actions
  have hgroups := accounts_outside (groupsColumn (img.program p)) rfl (fun c => (hload c).2.2)
    world actions
  rw [h.sys]
  constructor
  · intro a
    rw [h.coherent.tests.mem_iff img.case_addr, ← hpotInfo]
    exact hcases a
  · intro a
    rw [h.coherent.suites.mem_iff img.suite_addr]
    exact (hsuites a).trans (or_congr_right (or_iff_left fun h => List.not_mem_nil h.2))
  · intro a
    rw [h.coherent.groups.mem_iff img.group_addr]
    exact (hgroups a).trans (or_congr_right (or_iff_left fun h => List.not_mem_nil h.2))

/-- Registry integrity.  From the empty registry, after every sequence of
registrations and runs, in which test code may register more, the ways from
`g_tests`, `g_suites` and `g_groups` end and visit exactly the descriptors that
were registered, each of them once. -/
theorem registry_integrity (img : Image) (p : Program ω) (world : ω)
    (tests suites groups : Nat → Option Nat) (actions : List Action) :
    ∃ m, Ends (fun n => actions.foldlM (Machine.act img p n)
        (Machine.init world tests suites groups)) m ∧
      m.sys = actions.foldl (Action.onLists img p) ⟨Globals.init, world, []⟩ ∧
      Registered actions m.sys.trace p.potInfo m.asked ∧
      Visits m.heap.tests m.asked.cases ∧ Visits m.heap.suites m.asked.suites ∧
      Visits m.heap.groups m.asked.groups := by
  obtain ⟨m, hends, hsync⟩ := actions_sync img p world tests suites groups actions
  exact ⟨m, hends, hsync.sys, hsync.registered, hsync.coherent.tests.visits,
    hsync.coherent.suites.visits, hsync.coherent.groups.visits⟩

end Machine

end PolyOnTest.Run
