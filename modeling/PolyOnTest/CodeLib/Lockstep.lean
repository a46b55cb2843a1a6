import PolyOnTest.CodeLib.Trace

/-!
# Two programs in lockstep

`Lockstep R V m m'` compares two pieces of code that leave a trace.  Where they
start in states of the relation `R`, they log the same events, they end in states of
`R`, and both come to their end, with values of `V`, or both are left for one reason.

There is one lemma for each way to build code.  `changeLeft` is for a change that the
second program does not make.
-/

namespace CodeLib.Trace

variable {E S S' X α α' β β' A : Type}

/-- Both answers are values of `V`, or both are the same reason. -/
inductive SameEnd (V : α → α' → Prop) : Except X α → Except X α' → Prop
  | value {a : α} {a' : α'} (h : V a a') : SameEnd V (.ok a) (.ok a')
  | left (x : X) : SameEnd V (.error x) (.error x)

/-- What the two programs leave behind. -/
structure SameResult (R : S → S' → Prop) (V : α → α' → Prop)
    (r : Except X α × S × List E) (r' : Except X α' × S' × List E) : Prop where
  ending : SameEnd V r.1 r'.1
  state : R r.2.1 r'.2.1
  events : r.2.2 = r'.2.2

/-- From related states the two programs leave the same behind. -/
def Lockstep (R : S → S' → Prop) (V : α → α' → Prop) (m : Traced E S X α)
    (m' : Traced E S' X α') : Prop :=
  ∀ ⦃s s'⦄, R s s' → SameResult R V (m s) (m' s')

variable {R : S → S' → Prop} {V : α → α' → Prop} {W : β → β' → Prop}

theorem Lockstep.pure {a : α} {a' : α'} (h : V a a') :
    Lockstep R V (pure a : Traced E S X α) (pure a' : Traced E S' X α') :=
  fun _ _ hR => ⟨.value h, hR, rfl⟩

theorem Lockstep.done :
    Lockstep R Eq (Pure.pure () : Traced E S X Unit) (Pure.pure () : Traced E S' X Unit) :=
  Lockstep.pure rfl

/-- The values are the two states. -/
theorem Lockstep.read :
    Lockstep R R (read : Traced E S X S) (read : Traced E S' X S') :=
  fun _ _ hR => ⟨.value hR, hR, rfl⟩

theorem Lockstep.change {f : S → S} {f' : S' → S'} (h : ∀ s s', R s s' → R (f s) (f' s')) :
    Lockstep R Eq (change f : Traced E S X Unit) (change f' : Traced E S' X Unit) :=
  fun _ _ hR => ⟨.value rfl, h _ _ hR, rfl⟩

theorem Lockstep.log (e : E) :
    Lockstep R Eq (log e : Traced E S X Unit) (log e : Traced E S' X Unit) :=
  fun _ _ hR => ⟨.value rfl, hR, rfl⟩

theorem Lockstep.leave (x : X) :
    Lockstep R V (leave x : Traced E S X α) (leave x : Traced E S' X α') :=
  fun _ _ hR => ⟨.left x, hR, rfl⟩

theorem Lockstep.bind {m : Traced E S X α} {m' : Traced E S' X α'} {k : α → Traced E S X β}
    {k' : α' → Traced E S' X β'} (hm : Lockstep R V m m')
    (hk : ∀ a a', V a a' → Lockstep R W (k a) (k' a')) :
    Lockstep R W (m >>= k) (m' >>= k') := by
  intro s s' hR
  obtain ⟨hend, hstate, hevents⟩ := hm hR
  show SameResult R W (andThen m k s) (andThen m' k' s')
  unfold andThen
  generalize m s = answer at hend hstate hevents ⊢
  generalize m' s' = answer' at hend hstate hevents ⊢
  obtain ⟨a, t, es⟩ := answer
  obtain ⟨a', t', es'⟩ := answer'
  subst hevents
  cases hend with
  | value h =>
      obtain ⟨hend', hstate', hevents'⟩ := hk _ _ h hstate
      exact ⟨hend', hstate', congrArg (es ++ ·) hevents'⟩
  | left x => exact ⟨.left x, hstate, rfl⟩

/-- Code whose value both programs throw away or agree on. -/
theorem Lockstep.next {m : Traced E S X α} {m' : Traced E S' X α} {k : α → Traced E S X β}
    {k' : α → Traced E S' X β'} (hm : Lockstep R Eq m m')
    (hk : ∀ a, Lockstep R W (k a) (k' a)) : Lockstep R W (m >>= k) (m' >>= k') := by
  refine hm.bind ?_
  rintro a a' rfl
  exact hk a

/-- Only the first program makes the change. -/
theorem Lockstep.changeLeft {f : S → S} {k : Unit → Traced E S X β} {m' : Traced E S' X β'}
    (h : ∀ s s', R s s' → R (f s) s') (hk : Lockstep R W (k ()) m') :
    Lockstep R W (Trace.change f >>= k) m' :=
  fun s s' hR => hk (h s s' hR)

theorem Lockstep.catching {m : Traced E S X α} {m' : Traced E S' X α'}
    {handler : X → Traced E S X α} {handler' : X → Traced E S' X α'} (hm : Lockstep R V m m')
    (hhandler : ∀ x, Lockstep R V (handler x) (handler' x)) :
    Lockstep R V (catching m handler) (catching m' handler') := by
  intro s s' hR
  obtain ⟨hend, hstate, hevents⟩ := hm hR
  unfold Trace.catching
  generalize m s = answer at hend hstate hevents ⊢
  generalize m' s' = answer' at hend hstate hevents ⊢
  obtain ⟨a, t, es⟩ := answer
  obtain ⟨a', t', es'⟩ := answer'
  subst hevents
  cases hend with
  | value h => exact ⟨.value h, hstate, rfl⟩
  | left x =>
      obtain ⟨hend', hstate', hevents'⟩ := hhandler x hstate
      exact ⟨hend', hstate', congrArg (es ++ ·) hevents'⟩

theorem Lockstep.forM {f : A → Traced E S X Unit} {f' : A → Traced E S' X Unit}
    (h : ∀ a, Lockstep R Eq (f a) (f' a)) (as : List A) :
    Lockstep R Eq (as.forM f) (as.forM f') := by
  induction as with
  | nil => exact Lockstep.done
  | cons a as ih => exact (h a).next fun _ => ih

theorem Lockstep.foldlM {f : β → A → Traced E S X β} {f' : β → A → Traced E S' X β}
    (h : ∀ b a, Lockstep R Eq (f b a) (f' b a)) (as : List A) (b : β) :
    Lockstep R Eq (as.foldlM f b) (as.foldlM f' b) := by
  induction as generalizing b with
  | nil => exact Lockstep.pure rfl
  | cons a as ih => exact (h b a).next fun b => ih b

end CodeLib.Trace
