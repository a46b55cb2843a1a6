import PolyOnTest.Run.Lifecycle

/-!
# Filters of a run and of the discovery

`pot_run_from_env` selects cases in two ways.  The discovery path tests each
case against the tag, the suite and the group.  The other path is a cascade that
starts one run: for the tag if there is one, else for suite and group, else for
the suite, else for all.

`cascade_executes` gives the cases of the cascade.  `discovered_iff_executed`
compares the two: they differ exactly when a tag comes with a suite, and some
case with the tag is outside of the suite or the group.
-/

namespace PolyOnTest.Run

open CodeLib.CMemory PolyOnTest.Harness

variable {ω : Type}

/-- What the cascade selects. -/
def cascadeSelects (reg : Registry) (v : Vars) (t : Case) : Bool :=
  match nonEmpty v.tag with
  | some tag => caseMatchesTag reg t (some tag)
  | none => passesSuite v t && passesGroup v t

/-- Only the suites and the groups of a registry matter for a tag. -/
theorem caseMatchesTag_congr {reg reg' : Registry} (hsuites : reg.suites = reg'.suites)
    (hgroups : reg.groups = reg'.groups) (t : Case) (tag : Option CStr) :
    caseMatchesTag reg t tag = caseMatchesTag reg' t tag := by
  unfold caseMatchesTag findSuite findGroup
  rw [hsuites, hgroups]

theorem matchTag_prepare (p : Program ω) (s : Sys ω) (tag : CStr) (t : Case) :
    matchTag tag (prepare p s).g.env t =
      caseMatchesTag (collectSectionCases p s.g.env.reg) t (some tag) :=
  caseMatchesTag_congr rfl rfl t (some tag)

theorem nonEmpty_eq {s : Option CStr} {x : CStr} (h : nonEmpty s = some x) :
    s = some x :=
  (Option.filter_eq_some_iff.mp h).1

/-- The cases that the cascade executes, without `POT_CASE` and with a group
only together with a suite. -/
theorem cascade_executes {p : Program ω} (hquiet : CallsOnly p fun c => quiet c)
    (s : Sys ω) {v : Vars} (hcase : nonEmpty v.case = none)
    (hgroup : nonEmpty v.suite = none → nonEmpty v.group = none) :
    ∃ new, (cascade p v s).1.trace = s.trace ++ new ∧
      executed new = (sortCases (registered p s)).filter
        (cascadeSelects (collectSectionCases p s.g.env.reg) v) := by
  -- a run of one of the entry points, from a state with the same registry
  have hrun : ∀ (sel : Env → Case → Bool) (s' : Sys ω), s'.trace = s.trace →
      s'.g.env.reg = s.g.env.reg →
      (∀ t, sel (prepare p s').g.env t =
        cascadeSelects (collectSectionCases p s.g.env.reg) v t) →
      ∃ new, (runFiltered p sel s').1.trace = s.trace ++ new ∧
        executed new = (sortCases (registered p s)).filter
          (cascadeSelects (collectSectionCases p s.g.env.reg) v) := by
    intro sel s' htrace hreg hsel
    obtain ⟨new, hnew, hexecuted⟩ := executed_runFiltered hquiet sel s'
    refine ⟨new, by rw [hnew, htrace], ?_⟩
    rw [hexecuted, registered, registered, hreg]
    exact List.filter_congr fun t _ => hsel t
  unfold cascade
  rw [hcase, if_neg (by simp)]
  cases htag : nonEmpty v.tag with
  | some tag =>
    rw [if_pos Option.isSome_some, nonEmpty_eq htag, potRunTag]
    refine hrun _ s rfl rfl fun t => ?_
    rw [matchTag_prepare, cascadeSelects, htag]
  | none =>
    rw [if_neg (by simp)]
    cases hsuite : nonEmpty v.suite with
    | none =>
      rw [hgroup hsuite, if_neg (by simp), if_neg (by simp)]
      refine hrun _ s rfl rfl fun t => ?_
      rw [cascadeSelects, htag, passesSuite, hsuite, passesGroup, hgroup hsuite]
      rfl
    | some suite =>
      cases hg : nonEmpty v.group with
      | none =>
        rw [if_neg (by simp), if_pos Option.isSome_some, potRunSuite, hsuite]
        refine hrun _ s rfl rfl fun t => ?_
        rw [cascadeSelects, htag, passesSuite, hsuite, passesGroup, hg]
        simp [matchSuite]
      | some group =>
        rw [if_pos ⟨rfl, rfl⟩, potRunGroup, hsuite, hg]
        refine hrun _ (s.setFilter (some group) s.g.env.filterCase) rfl rfl fun t => ?_
        rw [cascadeSelects, htag, passesSuite, hsuite, passesGroup, hg]
        rfl

/-- The discovery lists the cases that the same variables execute, exactly when
no tag is set or every registered case with the tag passes the other two
filters. -/
theorem discovered_iff_executed {p : Program ω}
    (hquiet : CallsOnly p fun c => quiet c) (s : Sys ω) (v : Vars) (d : CStr)
    (hcase : nonEmpty v.case = none)
    (hgroup : nonEmpty v.suite = none → nonEmpty v.group = none) :
    ∃ r new,
      potRunFromEnv p { v with discover := some d } s =
        .listed ((discovered p v s).flatMap fun t => emitLine (discoverLine t)) ∧
      potRunFromEnv p { v with discover := none } s = .ran r ∧
      r.1.trace = s.trace ++ new ∧
      ((∀ t, t ∈ discovered p v s ↔ t ∈ executed new) ↔
        nonEmpty v.tag = none ∨
          ∀ t ∈ registered p s,
            passesTag (collectSectionCases p s.g.env.reg) v t →
              passesSuite v t ∧ passesGroup v t) := by
  obtain ⟨new, hnew, hexecuted⟩ := cascade_executes hquiet s hcase hgroup
  have hmem : ∀ t, t ∈ sortCases (registered p s) ↔ t ∈ registered p s := fun t =>
    (sortCases_perm (registered p s)).mem_iff
  refine ⟨cascade p v s, new, rfl, rfl, hnew, ?_⟩
  rw [hexecuted]
  show (∀ t, t ∈ (sortCases (registered p s)).filter
    (discoverSelects (collectSectionCases p s.g.env.reg) v) ↔ _) ↔ _
  simp only [List.mem_filter, hmem, discoverSelects, cascadeSelects, passesTag]
  cases htag : nonEmpty v.tag with
  | none => simp
  | some tag =>
    constructor
    · intro h
      refine Or.inr fun t ht hpasses => ?_
      have hboth := (h t).mpr ⟨ht, hpasses⟩
      simp only [Bool.and_eq_true] at hboth
      exact ⟨hboth.2.1.2, hboth.2.2⟩
    · rintro (hnone | h) t
      · cases hnone
      · constructor
        · rintro ⟨ht, hall⟩
          simp only [Bool.and_eq_true] at hall
          exact ⟨ht, hall.1.1⟩
        · rintro ⟨ht, hpasses⟩
          have hboth := h t ht hpasses
          refine ⟨ht, ?_⟩
          simp only [Bool.and_eq_true]
          exact ⟨⟨hpasses, hboth.1⟩, hboth.2⟩

/-- The case `A.g.a` and the case `B.g.b`, both with the tag `slow`. -/
def slowCases : Case × Case :=
  (⟨1, some (CStr.lit "A"), some (CStr.lit "g"), some (CStr.lit "a"), none,
      some [CStr.lit "slow"]⟩,
    ⟨2, some (CStr.lit "B"), some (CStr.lit "g"), some (CStr.lit "b"), none,
      some [CStr.lit "slow"]⟩)

/-- A fresh process that has registered both. -/
def slowSys : Sys Unit :=
  (Sys.call ⟨.init, (), []⟩ (.register (some slowCases.1))).call
    (.register (some slowCases.2))

/-- The tag with the first of the two suites. -/
def slowVars : Vars := ⟨none, some (CStr.lit "slow"), some (CStr.lit "A"), none, none⟩

/-- A filter by suite only. -/
theorem discovered_iff_executed_suite :
    ∃ r new,
      potRunFromEnv (bodyCalls [])
          ⟨some (CStr.lit "1"), none, some (CStr.lit "A"), none, none⟩ slowSys =
        .listed ((discovered (bodyCalls [])
          ⟨none, none, some (CStr.lit "A"), none, none⟩ slowSys).flatMap
            fun t => emitLine (discoverLine t)) ∧
      potRunFromEnv (bodyCalls []) ⟨none, none, some (CStr.lit "A"), none, none⟩
        slowSys = .ran r ∧
      r.1.trace = slowSys.trace ++ new ∧
      ((∀ t, t ∈ discovered (bodyCalls [])
          ⟨none, none, some (CStr.lit "A"), none, none⟩ slowSys ↔
            t ∈ executed new) ↔
        nonEmpty none = none ∨
          ∀ t ∈ registered (bodyCalls []) slowSys,
            passesTag (collectSectionCases (bodyCalls []) slowSys.g.env.reg)
                ⟨none, none, some (CStr.lit "A"), none, none⟩ t →
              passesSuite ⟨none, none, some (CStr.lit "A"), none, none⟩ t ∧
                passesGroup ⟨none, none, some (CStr.lit "A"), none, none⟩ t) :=
  discovered_iff_executed (bodyCalls_only (by decide)) slowSys
    ⟨none, none, some (CStr.lit "A"), none, none⟩ (CStr.lit "1") (by decide)
    (by decide)

/-- With the tag and the suite set, the discovery lists one of the two cases
and the run executes both. -/
theorem discovered_tag_and_suite :
    discovered (bodyCalls []) slowVars slowSys = [slowCases.1] ∧
      executed (cascade (bodyCalls []) slowVars slowSys).1.trace =
        [slowCases.1, slowCases.2] := by
  decide +kernel

end PolyOnTest.Run
