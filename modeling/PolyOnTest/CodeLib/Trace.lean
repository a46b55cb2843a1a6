import Mathlib.Data.List.Basic

/-!
# Code that leaves a trace

`Traced E S X` is code with a state of type `S` that logs events of type `E`.  It
comes to its end with a value, or it is left early for a reason of type `X`.

A rule about the events is an automaton: `δ q e` is the state behind the event
`e`, and there is none where the event is not allowed.  `Follows δ out q m q'`
says that the code `m` keeps the rule: it starts in the state `q`, it ends in
`q'`, and it is only left in the state `out`.

There is one lemma for each way to build code, and `accepted_split` reads a
trace that the automaton accepts.

`Returns I view seen m s s' a` says what the code computes: from a state of the
invariant `I` it comes to its end in `s'` with `a`, and it logs what it adds to the part
`seen` of the state.  Again there is one lemma for each way to build code.
-/

namespace CodeLib.Trace

variable {E S X Q O α β : Type}

/-- Code with a state and a trace that may be left early. -/
def Traced (E S X α : Type) : Type := S → Except X α × S × List E

/-- The code `m`, and behind it `k` unless `m` was left. -/
def andThen (m : Traced E S X α) (k : α → Traced E S X β) : Traced E S X β := fun s =>
  match m s with
  | (.ok a, s', es) => ((k a s').1, (k a s').2.1, es ++ (k a s').2.2)
  | (.error x, s', es) => (.error x, s', es)

instance : Monad (Traced E S X) where
  pure a := fun s => (.ok a, s, [])
  bind := andThen

/-- The state. -/
def read : Traced E S X S := fun s => (.ok s, s, [])

/-- A change of the state. -/
def change (f : S → S) : Traced E S X Unit := fun s => (.ok (), f s, [])

/-- An event. -/
def log (e : E) : Traced E S X Unit := fun s => (.ok (), s, [e])

/-- Leaves the code. -/
def leave (x : X) : Traced E S X α := fun s => (.error x, s, [])

/-- Goes on with the handler where the code is left. -/
def catching (m : Traced E S X α) (handler : X → Traced E S X α) : Traced E S X α := fun s =>
  match m s with
  | (.ok a, s', es) => (.ok a, s', es)
  | (.error x, s', es) =>
      ((handler x s').1, (handler x s').2.1, es ++ (handler x s').2.2)

/-! ## Rules about the events -/

/-- The code leads the automaton from `q` to `q'`, or to `out` where it is left. -/
def Follows (δ : Q → E → Option Q) (out q : Q) (m : Traced E S X α) (q' : Q) : Prop :=
  ∀ s, (m s).2.2.foldlM δ q = some (if (m s).1.isOk then q' else out)

variable {δ : Q → E → Option Q} {out q q' q'' : Q}

theorem accepted_append {front back : List E} :
    (front ++ back).foldlM δ q = some q' ↔
      ∃ p, front.foldlM δ q = some p ∧ back.foldlM δ p = some q' := by
  rw [List.foldlM_append]
  exact Option.bind_eq_some_iff

theorem accepted_cons {e : E} {back : List E} :
    (e :: back).foldlM δ q = some q' ↔ ∃ p, δ q e = some p ∧ back.foldlM δ p = some q' := by
  rw [List.foldlM_cons]
  exact Option.bind_eq_some_iff

theorem Follows.pure (a : α) : Follows δ out q (pure a : Traced E S X α) q := fun _ => rfl

theorem Follows.read : Follows δ out q (read : Traced E S X S) q := fun _ => rfl

theorem Follows.change (f : S → S) : Follows δ out q (change f : Traced E S X Unit) q :=
  fun _ => rfl

theorem Follows.log {e : E} (h : δ q e = some q') :
    Follows δ out q (log e : Traced E S X Unit) q' := by
  intro s
  show [e].foldlM δ q = some q'
  exact accepted_cons.mpr ⟨q', h, rfl⟩

/-- Code may be left in the state `out`. -/
theorem Follows.leave (x : X) : Follows δ out out (leave x : Traced E S X α) q' :=
  fun _ => rfl

theorem Follows.bind {m : Traced E S X α} {k : α → Traced E S X β}
    (hm : Follows δ out q m q') (hk : ∀ a, Follows δ out q' (k a) q'') :
    Follows δ out q (m >>= k) q'' := by
  intro s
  have hs := hm s
  show (andThen m k s).2.2.foldlM δ q = some (if (andThen m k s).1.isOk then q'' else out)
  unfold andThen
  generalize m s = answer at hs ⊢
  obtain ⟨x | a, s', es⟩ := answer
  · exact hs
  · exact accepted_append.mpr ⟨q', hs, hk a s'⟩

/-- Where the code is left, the handler starts in the state `out`. -/
theorem Follows.catching {m : Traced E S X α} {handler : X → Traced E S X α}
    (hm : Follows δ out q m q') (hhandler : ∀ x, Follows δ out out (handler x) q') :
    Follows δ out q (catching m handler) q' := by
  intro s
  have hs := hm s
  unfold Trace.catching
  generalize m s = answer at hs ⊢
  obtain ⟨x | a, s', es⟩ := answer
  · exact accepted_append.mpr ⟨out, hs, hhandler x s'⟩
  · exact hs

theorem Follows.forM {f : α → Traced E S X Unit} (h : ∀ a, Follows δ out q (f a) q)
    (as : List α) : Follows δ out q (as.forM f) q := by
  induction as with
  | nil => exact Follows.pure ()
  | cons a as ih => exact (h a).bind fun _ => ih

theorem Follows.foldlM {f : β → α → Traced E S X β} (h : ∀ b a, Follows δ out q (f b a) q)
    (as : List α) (b : β) : Follows δ out q (as.foldlM f b) q := by
  induction as generalizing b with
  | nil => exact Follows.pure b
  | cons a as ih => exact (h b a).bind fun b => ih b

/-! ## Reading a trace -/

/-- An event of an accepted trace is allowed in the state behind the events in
front of it. -/
theorem accepted_split {front back : List E} {e : E}
    (h : (front ++ e :: back).foldlM δ q = some q') :
    ∃ p p', front.foldlM δ q = some p ∧ δ p e = some p' := by
  obtain ⟨p, hfront, hrest⟩ := accepted_append.mp h
  obtain ⟨p', hstep, -⟩ := accepted_cons.mp hrest
  exact ⟨p, p', hfront, hstep⟩

/-! ## What code computes -/

/-- The code comes to its end in the state `s'` with the value `a`, and its events show
what it adds to `seen`. -/
def Returns (I : S → Prop) (view : E → List O) (seen : S → List O) (m : Traced E S X α)
    (s s' : S) (a : α) : Prop :=
  I s → ∃ t, m s = (.ok a, s', t) ∧ I s' ∧ seen s' = seen s ++ t.flatMap view

variable {I : S → Prop} {view : E → List O} {seen : S → List O} {s s' s'' : S}

theorem bind_ok {m : Traced E S X α} {k : α → Traced E S X β} {a : α} {t : List E}
    (h : m s = (.ok a, s', t)) :
    (m >>= k) s = ((k a s').1, (k a s').2.1, t ++ (k a s').2.2) := by
  show andThen m k s = _
  rw [andThen, h]

theorem Returns.silent {m : Traced E S X α} {a : α} {t : List E} (h : m s = (.ok a, s', t))
    (hI : I s → I s') (hseen : seen s' = seen s) (ht : t.flatMap view = []) :
    Returns I view seen m s s' a := by
  intro hs
  refine ⟨t, h, hI hs, ?_⟩
  rw [ht, hseen, List.append_nil]

theorem Returns.pure (a : α) : Returns I view seen (pure a : Traced E S X α) s s a :=
  Returns.silent rfl id rfl rfl

theorem Returns.read : Returns I view seen (read : Traced E S X S) s s s :=
  Returns.silent rfl id rfl rfl

theorem Returns.change {f : S → S} (hI : I s → I (f s)) (hseen : seen (f s) = seen s) :
    Returns I view seen (change f : Traced E S X Unit) s (f s) () :=
  Returns.silent rfl hI hseen rfl

theorem Returns.log {e : E} (h : view e = []) :
    Returns I view seen (log e : Traced E S X Unit) s s () :=
  Returns.silent rfl id rfl (by simp [h])

theorem Returns.bind {m : Traced E S X α} {k : α → Traced E S X β} {a : α} {b : β}
    (hm : Returns I view seen m s s' a) (hk : Returns I view seen (k a) s' s'' b) :
    Returns I view seen (m >>= k) s s'' b := by
  intro hs
  obtain ⟨t, hrun, hI, hseen⟩ := hm hs
  obtain ⟨t', hrun', hI', hseen'⟩ := hk hI
  refine ⟨t ++ t', ?_, hI', ?_⟩
  · rw [bind_ok hrun, hrun']
  · rw [hseen', hseen, List.flatMap_append, List.append_assoc]

/-- The step of the fold is the code of the round. -/
theorem Returns.foldlM {f : β → α → Traced E S X β} {step : S × β → α → S × β}
    (h : ∀ x a, Returns I view seen (f x.2 a) x.1 (step x a).1 (step x a).2) (as : List α)
    (x : S × β) :
    Returns I view seen (as.foldlM f x.2) x.1 (as.foldl step x).1 (as.foldl step x).2 := by
  induction as generalizing x with
  | nil => exact Returns.pure x.2
  | cons a as ih => exact (h x a).bind (ih (step x a))

end CodeLib.Trace
