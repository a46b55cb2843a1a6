import Mathlib.Data.List.Induction

/-!
# Machines under a schedule

A machine with several parties: `step s a` is the state behind the action `a`, and there
is none where the action is not possible in `s`.  A schedule is the list of the actions
in the order in which they happen, so a statement about all schedules is a statement
about all interleavings.

`run_invariant` carries an invariant, which may speak about the actions so far.
`run_bounded` bounds the length of a run by a potential, and `run_settles` gives a run
that can not be made longer.
-/

namespace CodeLib.Scheduled

variable {S A : Type} {step : S → A → Option S} {s s' : S} {as bs : List A}

/-- The state behind a schedule. -/
def run (step : S → A → Option S) (s : S) (as : List A) : Option S := as.foldlM step s

@[simp] theorem run_nil : run step s [] = some s := rfl

theorem run_cons {a : A} :
    run step s (a :: as) = some s' ↔ ∃ t, step s a = some t ∧ run step t as = some s' := by
  unfold run
  rw [List.foldlM_cons]
  exact Option.bind_eq_some_iff

theorem run_append :
    run step s (as ++ bs) = some s' ↔
      ∃ t, run step s as = some t ∧ run step t bs = some s' := by
  unfold run
  rw [List.foldlM_append]
  exact Option.bind_eq_some_iff

theorem run_snoc {a : A} :
    run step s (as ++ [a]) = some s' ↔ ∃ t, run step s as = some t ∧ step t a = some s' := by
  rw [run_append]
  apply exists_congr
  intro t
  rw [run_cons]
  simp

/-- What holds in front of the first action and is kept by each one holds behind every
schedule. -/
theorem run_invariant {I : List A → S → Prop} (hstart : I [] s)
    (hstep : ∀ as t a t', I as t → step t a = some t' → I (as ++ [a]) t')
    (h : run step s as = some s') : I as s' := by
  induction as using List.reverseRecOn generalizing s' with
  | nil =>
      cases h
      exact hstart
  | append_singleton as a ih =>
      obtain ⟨t, hrun, ha⟩ := run_snoc.mp h
      exact hstep as t a s' (ih hrun) ha

/-- Each action costs some of the potential. -/
theorem run_bounded {P : A → Prop} {potential : S → Nat}
    (hcost : ∀ t a t', P a → step t a = some t' → potential t' < potential t)
    (hP : ∀ a ∈ as, P a) (h : run step s as = some s') :
    as.length + potential s' ≤ potential s := by
  induction as generalizing s with
  | nil =>
      cases h
      simp
  | cons a as ih =>
      obtain ⟨t, ha, hrun⟩ := run_cons.mp h
      have hrest := ih (fun b hb => hP b (by simp [hb])) hrun
      have hfirst := hcost s a t (hP a (by simp)) ha
      rw [List.length_cons]
      omega

/-- With a potential there is a run that can not be made longer. -/
theorem run_settles {P : A → Prop} {potential : S → Nat}
    (hcost : ∀ t a t', P a → step t a = some t' → potential t' < potential t) (s : S) :
    ∃ as s', run step s as = some s' ∧ (∀ a ∈ as, P a) ∧ ∀ a, P a → step s' a = none := by
  induction hn : potential s using Nat.strongRecOn generalizing s with
  | ind n ih =>
      by_cases hmore : ∃ a t, P a ∧ step s a = some t
      · obtain ⟨a, t, ha, ht⟩ := hmore
        have hless := hcost s a t ha ht
        obtain ⟨as, s', hrun, has, hend⟩ := ih (potential t) (by omega) t rfl
        refine ⟨a :: as, s', run_cons.mpr ⟨t, ht, hrun⟩, ?_, hend⟩
        exact List.forall_mem_cons.mpr ⟨ha, has⟩
      · refine ⟨[], s, rfl, fun a ha => (List.not_mem_nil ha).elim, fun a ha => ?_⟩
        apply Option.eq_none_iff_forall_ne_some.mpr
        intro t ht
        exact hmore ⟨a, t, ha, ht⟩

end CodeLib.Scheduled
