import PolyOnTest.CodeLib.LinkedList
import PolyOnTest.Harness.Runner

/-!
# The registry in memory

`Registry` has lists where `polytest_core.c` has descriptors that are linked by
their own `next` fields.  This module is the code on the links: the search
before a registration, the registration, the sort that rewires the list it
reads, the lookups, and `run_filtered`, whose loop follows `next` while the
bodies register more cases.

A pointer is an address, or `none` for NULL.  `Image` is what stands at the
addresses besides the links.  The loops get fuel, one unit for each trip.

A `Machine` has the links and, next to them, the state of `Runner`.  The code
below takes all that it knows about the registry from the links; the registry in
`sys` is carried along by the functions of `Runner`, so that the two can be
compared.
-/

namespace PolyOnTest.Harness

open CodeLib CodeLib.CMemory CodeLib.Fuel CodeLib.LinkedList

/-! ## Memory -/

/-- The descriptors at the addresses. -/
structure Image where
  case : Nat → Case
  suite : Nat → Suite
  group : Nat → Group
  case_addr : ∀ a, (case a).addr = a
  suite_addr : ∀ a, (suite a).addr = a
  group_addr : ∀ a, (group a).addr = a

theorem Image.case_injective (img : Image) : Function.Injective img.case :=
  Function.LeftInverse.injective img.case_addr

/-- A list: the pointer to the first descriptor and the `next` fields. -/
structure Links where
  head : Option Nat
  next : Nat → Option Nat

/-- The lists from `g_tests`, `g_suites` and `g_groups`. -/
structure Heap where
  tests : Links
  suites : Links
  groups : Links

/-! ## Registration -/

/-- The loop of `already_linked_case`, `already_linked_suite` and
`already_linked_group`. -/
def Links.alreadyLinked (n : Nat) (l : Links) (x : Nat) : Option Bool :=
  (findFrom l.next (· == x) n l.head).map Option.isSome

/-- The body that `pot_register`, `pot_register_suite` and `pot_register_group`
share. -/
def Links.register (n : Nat) (l : Links) : Option Nat → Option Links
  | none => some l
  | some x =>
      (l.alreadyLinked n x).map fun linked =>
        if linked then l else ⟨some x, Function.update l.next x l.head⟩

/-- A registration puts a new descriptor in front and does nothing to a linked
one. -/
theorem Links.register_ends {l : Links} {as : List Nat} (h : Chain l.next l.head as)
    (x : Nat) : ∃ l', Ends (fun n => l.register n (some x)) l' ∧
      Chain l'.next l'.head (if x ∈ as then as else x :: as) := by
  have hlinked := ((findFrom_ends (· == x) h).map Option.isSome).map fun linked =>
    if linked then l else ⟨some x, Function.update l.next x l.head⟩
  by_cases hx : x ∈ as
  · have hsome : (as.find? (· == x)).isSome := by
      rw [List.find?_isSome]
      exact ⟨x, hx, beq_self_eq_true x⟩
    rw [if_pos hsome] at hlinked
    refine ⟨l, hlinked, ?_⟩
    rwa [if_pos hx]
  · have hnone : as.find? (· == x) = none := by
      rw [List.find?_eq_none]
      intro a ha heq
      exact hx (beq_iff_eq.mp heq ▸ ha)
    rw [hnone] at hlinked
    refine ⟨_, hlinked, ?_⟩
    rw [if_neg hx]
    exact h.push hx

/-- `pot_register` -/
def Heap.potRegister (n : Nat) (h : Heap) (testCase : Option Nat) : Option Heap :=
  (h.tests.register n testCase).map fun l => { h with tests := l }

/-- `pot_register_suite` -/
def Heap.potRegisterSuite (n : Nat) (h : Heap) (suite : Option Nat) : Option Heap :=
  (h.suites.register n suite).map fun l => { h with suites := l }

/-- `pot_register_group` -/
def Heap.potRegisterGroup (n : Nat) (h : Heap) (group : Option Nat) : Option Heap :=
  (h.groups.register n group).map fun l => { h with groups := l }

/-- What a call of test code does to the links. -/
def Heap.call (n : Nat) (h : Heap) : Call → Option Heap
  | .register t => h.potRegister n (t.map Case.addr)
  | .registerSuite s => h.potRegisterSuite n (s.map Suite.addr)
  | .registerGroup g => h.potRegisterGroup n (g.map Group.addr)
  | _ => some h

/-! ## `sort_cases` -/

/-- The inner loop: `s` moves on while `head` is not less than the case behind
it. -/
def sortWalk (img : Image) (next : Nat → Option Nat) (head : Nat) : Nat → Nat → Option Nat
  | 0, _ => none
  | n + 1, s =>
      match next s with
      | none => some s
      | some t =>
          if caseCmp (img.case head) (img.case t) ≠ .lt then sortWalk img next head n t
          else some s

/-- The part of the outer loop that links `head` into the sorted list. -/
def sortRound (img : Image) (n : Nat) (next : Nat → Option Nat) (sorted : Option Nat)
    (head : Nat) : Option ((Nat → Option Nat) × Option Nat) :=
  match sorted with
  | none => some (Function.update next head sorted, some head)
  | some first =>
      if caseCmp (img.case head) (img.case first) = .lt then
        some (Function.update next head sorted, some head)
      else
        (sortWalk img next head n first).map fun s =>
          (Function.update (Function.update next head (next s)) s (some head), sorted)

/-- The outer loop.  It reads `head->next` before it links `head`. -/
def sortLoop (img : Image) : Nat → (Nat → Option Nat) → Option Nat → Option Nat →
    Option ((Nat → Option Nat) × Option Nat)
  | 0, _, _, _ => none
  | _ + 1, next, none, sorted => some (next, sorted)
  | n + 1, next, some head, sorted =>
      (sortRound img n next sorted head).bind fun x =>
        sortLoop img n x.1 (next head) x.2

/-- `sort_cases`: the list from the pointer that it returns. -/
def Links.sortCases (img : Image) (n : Nat) (l : Links) : Option Links :=
  (sortLoop img n l.next l.head none).map fun x => ⟨x.2, x.1⟩

/-! ## Lookup -/

/-- `find_suite` -/
def Heap.findSuite (img : Image) (n : Nat) (h : Heap) (name : Option CStr) :
    Option (Option Suite) :=
  (findFrom h.suites.next (fun a => strCmp (img.suite a).name name = .eq) n
    h.suites.head).map (Option.map img.suite)

/-- `find_group` -/
def Heap.findGroup (img : Image) (n : Nat) (h : Heap) (suite group : Option CStr) :
    Option (Option Group) :=
  (findFrom h.groups.next (fun a => strCmp (img.group a).suite suite = .eq ∧
    strCmp (img.group a).name group = .eq) n h.groups.head).map (Option.map img.group)

/-- `case_matches_tag` -/
def Heap.caseMatchesTag (img : Image) (n : Nat) (h : Heap) (t : Case) (tag : Option CStr) :
    Option Bool :=
  if tagsContain t.tags tag then some true
  else
    (h.findSuite img n t.suite).bind fun s =>
      if s.any fun s => tagsContain s.tags tag then some true
      else
        (h.findGroup img n t.suite t.group).map fun g =>
          g.any fun g => tagsContain g.tags tag

/-- The function and the string that `run_filtered` gets. -/
inductive Matcher
  | all
  | suite (u : CStr)
  | group (u : CStr)
  | case (u : CStr)
  | tag (u : CStr)
  deriving DecidableEq

/-- The function on the list model. -/
def Matcher.sel : Matcher → Env → Case → Bool
  | .all => matchAll
  | .suite u => matchSuite u
  | .group u => matchGroup u
  | .case u => matchCase u
  | .tag u => matchTag u

/-- The function on the links.  Only `match_tag` looks at them. -/
def Matcher.test (img : Image) (n : Nat) (h : Heap) (env : Env) (t : Case) :
    Matcher → Option Bool
  | .tag u => h.caseMatchesTag img n t (some u)
  | m => some (m.sel env t)

/-! ## `run_filtered` -/

/-- The addresses that the registration functions were called with so far. -/
structure Asked where
  cases : List Nat
  suites : List Nat
  groups : List Nat

/-- The addresses after a call of test code. -/
def Asked.call (k : Asked) : Call → Asked
  | .register (some t) => { k with cases := k.cases ++ [t.addr] }
  | .registerSuite (some s) => { k with suites := k.suites ++ [s.addr] }
  | .registerGroup (some g) => { k with groups := k.groups ++ [g.addr] }
  | _ => k

/-- The call with what stands in memory at its address. -/
def Image.load (img : Image) : Call → Call
  | .register t => .register (t.map fun t => img.case t.addr)
  | .registerSuite s => .registerSuite (s.map fun s => img.suite s.addr)
  | .registerGroup g => .registerGroup (g.map fun g => img.group g.addr)
  | c => c

/-- The test binary whose calls have what stands in memory at their addresses. -/
def Image.program {ω : Type} (img : Image) (p : Program ω) : Program ω where
  code f w := ((p.code f w).1.map img.load, (p.code f w).2)
  potInfo := p.potInfo.map fun t => img.case t.addr

/-- The links, the rest of the state, and the history of the registrations. -/
structure Machine (ω : Type) where
  heap : Heap
  sys : Sys ω
  asked : Asked

namespace Machine

variable {ω : Type} (img : Image) (p : Program ω) (n : Nat)

/-- Emits a message. -/
def say (m : Machine ω) (msg : Msg) : Machine ω := { m with sys := m.sys.say msg }

/-- One call of test code. -/
def call (m : Machine ω) (c : Call) : Option (Machine ω) :=
  (m.heap.call n c).map fun heap => ⟨heap, m.sys.call (img.load c), m.asked.call c⟩

/-- Enters a function of the test binary, unless the pointer is NULL. -/
def enter (hook : Hook) (f : Option FnId) (m : Machine ω) : Option (Machine ω) :=
  match f with
  | none => some m
  | some f =>
      (p.code f m.sys.world).1.foldlM (call img n)
        { m with
          sys :=
            { m.sys with
              world := (p.code f m.sys.world).2
              trace := m.sys.trace ++ [.enter hook f] } }

/-- `close_suite` -/
def closeSuite (o : Open) (m : Machine ω) : Option (Machine ω) :=
  match o.suite with
  | none => some m
  | some _ =>
      (m.heap.findSuite img n o.suite).bind fun s =>
        (enter img p n .suiteTeardown (s.bind Suite.teardown) m).map fun m =>
          m.say (.suiteEnd o.suite o.passed o.failed o.skipped)

/-- `open_suite_emit` -/
def openSuiteEmit (name : Option CStr) (m : Machine ω) : Option (Machine ω) :=
  (m.heap.findSuite img n name).bind fun s =>
    (enter img p n .suiteSetup (s.bind Suite.setup) m).map fun m => m.say (.suiteStart name)

/-- The block of `run_filtered` that runs a case between its group fixtures. -/
def runBody (t : Case) (m : Machine ω) : Option (Machine ω) :=
  (m.heap.findGroup img n t.suite t.group).bind fun g =>
    (enter img p n .groupSetup (g.bind Group.setup) m).bind fun m =>
      (enter img p n .body t.fn m).bind fun m =>
        enter img p n .groupTeardown (g.bind Group.teardown) m

/-- The part of the loop body that closes and opens suites. -/
def switchSuite (t : Case) (x : Machine ω × Open) : Option (Machine ω × Open) :=
  if strCmp x.2.suite t.suite ≠ .eq then
    (closeSuite img p n x.2 x.1).bind fun m =>
      (openSuiteEmit img p n t.suite m).map fun m => (m, ⟨t.suite, 0, 0, 0⟩)
  else some x

/-- The part of the loop body that runs a case. -/
def runCase (t : Case) (x : Machine ω × Open) : Option (Machine ω × Open) :=
  (runBody img p n t { x.1 with sys := (x.1.sys.begin t).say (.caseStart t.id) }).map
    fun m =>
      ({ m with sys := (m.sys.count m.sys.status).say (.caseEnd t.id m.sys.status) },
        x.2.count m.sys.status)

/-- The loop body for the case at an address. -/
def loopBody (matcher : Matcher) (a : Nat) (x : Machine ω × Open) :
    Option (Machine ω × Open) :=
  (matcher.test img n x.1.heap x.1.sys.g.env (img.case a)).bind fun selected =>
    if selected then
      (switchSuite img p n (img.case a) x).bind fun x => runCase img p n (img.case a) x
    else some x

/-- The loop.  It reads `t->next` behind the body. -/
def runLoop (matcher : Matcher) : Nat → Option Nat → Machine ω × Open →
    Option (Machine ω × Open)
  | 0, _, _ => none
  | _ + 1, none, x => some x
  | k + 1, some a, x =>
      (loopBody img p k matcher a x).bind fun x =>
        runLoop matcher k (x.1.heap.tests.next a) x

/-- The registry of the list model, for the comparison. -/
def setReg (m : Machine ω) (reg : Registry) : Sys ω :=
  { m.sys with g := { m.sys.g with env := { m.sys.g.env with reg := reg } } }

/-- The registration of a section case. -/
def collectCase (m : Machine ω) (t : Case) : Option (Machine ω) :=
  (m.heap.potRegister n (some t.addr)).map fun heap =>
    ⟨heap, m.setReg (m.sys.g.env.reg.register (some (img.case t.addr))),
      { m.asked with cases := m.asked.cases ++ [t.addr] }⟩

/-- `pot_collect_section_cases` -/
def collectSectionCases (m : Machine ω) : Option (Machine ω) :=
  p.potInfo.foldlM (collectCase img n) m

/-- The part of `run_filtered` in front of the loop. -/
def prepare (m : Machine ω) : Option (Machine ω) :=
  (collectSectionCases img p n m).bind fun m =>
    (m.heap.tests.sortCases img n).map fun list =>
      let reg := { m.sys.g.env.reg with tests := Harness.sortCases m.sys.g.env.reg.tests }
      let sys := m.setReg reg
      { m with
        heap := { m.heap with tests := list }
        sys := { sys with g := { sys.g with passed := 0, failed := 0, skipped := 0 } } }

/-- `run_filtered` -/
def runFiltered (matcher : Matcher) (m : Machine ω) : Option (Machine ω × Nat) :=
  (prepare img p n m).bind fun m =>
    let m := m.say .banner
    (runLoop img p matcher n m.heap.tests.head (m, ⟨none, 0, 0, 0⟩)).bind fun x =>
      (closeSuite img p n x.2 x.1).map fun m =>
        (m.say (.done m.sys.g.passed m.sys.g.failed m.sys.g.skipped),
          if m.sys.g.failed ≠ 0 then 1 else 0)

end Machine

/-! ## The public functions -/

/-- The function and the string of an entry point. -/
def Entry.matcher : Entry → Matcher
  | .all => .all
  | .tag none => .all
  | .tag (some t) => .tag t
  | .suite u =>
      match nonEmpty u with
      | none => .all
      | some u => .suite u
  | .group u g =>
      match nonEmpty u, nonEmpty g with
      | some u, some _ => .group u
      | _, _ => .all
  | .case u g c =>
      match nonEmpty u, nonEmpty g, nonEmpty c with
      | some u, some _, some _ => .case u
      | _, _, _ => .all

/-- The filter assignments of an entry point. -/
def Entry.filters {ω : Type} (s : Sys ω) : Entry → Sys ω
  | .group u g =>
      match nonEmpty u, nonEmpty g with
      | some _, some g => s.setFilter (some g) s.g.env.filterCase
      | _, _ => s
  | .case u g c =>
      match nonEmpty u, nonEmpty g, nonEmpty c with
      | some _, some g, some c => s.setFilter (some g) (some c)
      | _, _, _ => s
  | _ => s

/-- What the test binary does with the harness, outside of a run and by one. -/
inductive Action
  | call (c : Call)
  | run (e : Entry)
  deriving DecidableEq

/-- One of these, on the links. -/
def Machine.act {ω : Type} (img : Image) (p : Program ω) (n : Nat) (m : Machine ω) :
    Action → Option (Machine ω)
  | .call c => m.call img n c
  | .run e =>
      (Machine.runFiltered img p n e.matcher { m with sys := e.filters m.sys }).map Prod.fst

/-- One of these, on the lists. -/
def Action.onLists {ω : Type} (img : Image) (p : Program ω) (s : Sys ω) : Action → Sys ω
  | .call c => s.call (img.load c)
  | .run e => (e.run (img.program p) s).1

/-- Before the first registration.  The `next` fields hold anything. -/
def Machine.init {ω : Type} (world : ω) (tests suites groups : Nat → Option Nat) :
    Machine ω where
  heap := ⟨⟨none, tests⟩, ⟨none, suites⟩, ⟨none, groups⟩⟩
  sys := ⟨Globals.init, world, []⟩
  asked := ⟨[], [], []⟩

end PolyOnTest.Harness
