import PolyOnTest.Run.Steps

/-!
# Relations along a run

A relation between the state in front of a stretch of a run and the state behind
it.  `Stretch p R` says that `R` holds of the empty stretch, of two stretches one
behind the other, of each function of `p` and of each other thing that a run does.
Then it holds of everything between the walk over the section and the end of a run:
`Stretch.runFiltered`.

What is true of a function whatever it does is shown for its calls, one by one:
`enter_of_calls`.
-/

namespace PolyOnTest.Run

open CodeLib.CMemory PolyOnTest.Harness

variable {ω : Type}

/-- A message that the runner emits, not a call of test code. -/
def ofRunner : Msg → Bool
  | .assertFail .. => false
  | .ignored .. => false
  | _ => true

/-- A relation that every step of a run keeps. -/
structure Stretch (p : Program ω) (R : Sys ω → Sys ω → Prop) : Prop where
  refl : ∀ s, R s s
  trans : ∀ {s s' s'' : Sys ω}, R s s' → R s' s'' → R s s''
  say : ∀ s m, ofRunner m = true → R s (s.say m)
  enter : ∀ s hook f, R s (s.enter p hook f)
  begin : ∀ s t, R s (s.begin t)
  count : ∀ s status, R s (s.count status)

variable {R : Sys ω → Sys ω → Prop} {p : Program ω}

/-- A function of the test binary, by induction on its calls. -/
theorem enter_of_calls (hrefl : ∀ s, R s s)
    (htrans : ∀ {s s' s'' : Sys ω}, R s s' → R s' s'' → R s s'')
    (hcall : ∀ s c, R s (s.call c))
    (henter : ∀ (s : Sys ω) world hook f,
      R s { s with world := world, trace := s.trace ++ [.enter hook f] })
    (s : Sys ω) (hook : Hook) (f : Option FnId) : R s (s.enter p hook f) := by
  cases f with
  | none => exact hrefl s
  | some f =>
    have hcalls : ∀ (cs : List Call) (s : Sys ω), R s (cs.foldl Sys.call s) := by
      intro cs
      induction cs with
      | nil => exact hrefl
      | cons c cs ih => exact fun s => htrans (hcall s c) (ih _)
    exact htrans (henter s (p.code f s.world).2 hook f) (hcalls _ _)

namespace Stretch

theorem closeSuite (hR : Stretch p R) (o : Open) (s : Sys ω) :
    R s (Harness.closeSuite p o s) := by
  unfold Harness.closeSuite
  cases o.suite with
  | none => exact hR.refl s
  | some name => exact hR.trans (hR.enter s _ _) (hR.say _ _ rfl)

theorem openSuiteEmit (hR : Stretch p R) (name : Option CStr) (s : Sys ω) :
    R s (Harness.openSuiteEmit p name s) :=
  hR.trans (hR.enter s _ _) (hR.say _ _ rfl)

theorem switchSuite (hR : Stretch p R) (t : Case) (x : Sys ω × Open) :
    R x.1 (Harness.switchSuite p t x).1 := by
  unfold Harness.switchSuite
  split_ifs
  · exact hR.trans (hR.closeSuite x.2 x.1) (hR.openSuiteEmit t.suite _)
  · exact hR.refl x.1

theorem runCase (hR : Stretch p R) (t : Case) (x : Sys ω × Open) :
    R x.1 (Harness.runCase p t x).1 := by
  have hstart : R x.1 ((x.1.begin t).say (.caseStart t.id)) :=
    hR.trans (hR.begin x.1 t) (hR.say _ _ rfl)
  have hbody : ∀ s, R s (runBody p t s) := fun s =>
    hR.trans (hR.trans (hR.enter s _ _) (hR.enter _ _ _)) (hR.enter _ _ _)
  have hend : ∀ s : Sys ω, R s ((s.count s.status).say (.caseEnd t.id s.status)) := fun s =>
    hR.trans (hR.count s s.status) (hR.say _ _ rfl)
  exact hR.trans (hR.trans hstart (hbody _)) (hend _)

theorem loopBody (hR : Stretch p R) (sel : Env → Case → Bool) (x : Sys ω × Open) (t : Case) :
    R x.1 (Harness.loopBody p sel x t).1 := by
  unfold Harness.loopBody
  split_ifs
  · exact hR.trans (hR.switchSuite t x) (hR.runCase t _)
  · exact hR.refl x.1

/-- A run behind its walk over the section, by induction on the cases. -/
theorem runFiltered (hR : Stretch p R) (sel : Env → Case → Bool) (s : Sys ω) :
    R (prepare p s) (Harness.runFiltered p sel s).1 := by
  have hloop : ∀ (ts : List Case) (x : Sys ω × Open),
      R x.1 (ts.foldl (Harness.loopBody p sel) x).1 := by
    intro ts
    induction ts with
    | nil => exact fun x => hR.refl x.1
    | cons t ts ih => exact fun x => hR.trans (hR.loopBody sel x t) (ih _)
  have hfront := hR.trans (hR.say (prepare p s) .banner rfl)
    (hloop ((prepare p s).say .banner).g.env.reg.tests (_, ⟨none, 0, 0, 0⟩))
  exact hR.trans (hR.trans hfront (hR.closeSuite _ _)) (hR.say _ _ rfl)

end Stretch

end PolyOnTest.Run
