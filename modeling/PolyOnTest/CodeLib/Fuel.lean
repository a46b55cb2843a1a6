import Mathlib.Data.Option.Basic

/-!
# Loops with fuel

A loop that may run forever is a function of an amount of fuel, and it gives no
answer when the fuel is used up.  `Ends f a` says that the loop ends with the
answer `a`: it gives `a` for every amount from some number on.  `EndsIn f post`
says that it ends with an answer that has the property `post`.

The rules put loops in sequence (`EndsIn.bind`), fold one over a list
(`EndsIn.foldlM`), and unfold one trip (`EndsIn.of_succ`).
-/

namespace CodeLib.Fuel

variable {α β γ : Type}

/-- The code gives `a` for every large enough amount of fuel. -/
def Ends (f : Nat → Option α) (a : α) : Prop := ∃ low, ∀ n, low ≤ n → f n = some a

theorem Ends.pure (a : α) : Ends (fun _ => some a) a := ⟨0, fun _ _ => rfl⟩

theorem Ends.bind {f : Nat → Option α} {g : α → Nat → Option β} {a : α} {b : β}
    (hf : Ends f a) (hg : Ends (g a) b) : Ends (fun n => f n >>= fun x => g x n) b := by
  obtain ⟨low, hlow⟩ := hf
  obtain ⟨high, hhigh⟩ := hg
  refine ⟨max low high, fun n hn => ?_⟩
  dsimp only
  rw [hlow n (by omega)]
  exact hhigh n (by omega)

theorem Ends.map {f : Nat → Option α} {a : α} (h : Ends f a) (g : α → β) :
    Ends (fun n => (f n).map g) (g a) := by
  obtain ⟨low, hlow⟩ := h
  refine ⟨low, fun n hn => ?_⟩
  dsimp only
  rw [hlow n hn, Option.map_some]

/-- One trip takes one unit of fuel. -/
theorem Ends.of_succ {f : Nat → Option α} {a : α} (h : Ends (fun n => f (n + 1)) a) :
    Ends f a := by
  obtain ⟨low, hlow⟩ := h
  refine ⟨low + 1, fun n hn => ?_⟩
  obtain ⟨k, rfl⟩ : ∃ k, n = k + 1 := ⟨n - 1, by omega⟩
  exact hlow k (by omega)

/-! ## Postconditions -/

/-- The loop ends, with an answer that has the property `post`. -/
def EndsIn (f : Nat → Option α) (post : α → Prop) : Prop := ∃ a, Ends f a ∧ post a

theorem Ends.endsIn {f : Nat → Option α} {post : α → Prop} {a : α} (h : Ends f a)
    (ha : post a) : EndsIn f post := ⟨a, h, ha⟩

theorem EndsIn.pure {post : α → Prop} {a : α} (ha : post a) :
    EndsIn (fun _ => some a) post := (Ends.pure a).endsIn ha

theorem Ends.bind_endsIn {f : Nat → Option α} {g : α → Nat → Option β} {a : α}
    {post : β → Prop} (hf : Ends f a) (hg : EndsIn (g a) post) :
    EndsIn (fun n => f n >>= fun x => g x n) post := by
  obtain ⟨b, hb, hpost⟩ := hg
  exact (hf.bind hb).endsIn hpost

theorem EndsIn.bind {f : Nat → Option α} {g : α → Nat → Option β} {mid : α → Prop}
    {post : β → Prop} (hf : EndsIn f mid) (hg : ∀ a, mid a → EndsIn (g a) post) :
    EndsIn (fun n => f n >>= fun x => g x n) post := by
  obtain ⟨a, ha, hmid⟩ := hf
  exact ha.bind_endsIn (hg a hmid)

theorem EndsIn.map {f : Nat → Option α} {post : β → Prop} {mid : α → Prop}
    (hf : EndsIn f mid) (g : α → β) (hg : ∀ a, mid a → post (g a)) :
    EndsIn (fun n => (f n).map g) post := by
  obtain ⟨a, ha, hmid⟩ := hf
  exact (ha.map g).endsIn (hg a hmid)

theorem EndsIn.of_succ {f : Nat → Option α} {post : α → Prop}
    (h : EndsIn (fun n => f (n + 1)) post) : EndsIn f post := by
  obtain ⟨a, ha, hpost⟩ := h
  exact ha.of_succ.endsIn hpost

/-- A sequence of pieces that each end and follow a step of a specification. -/
theorem EndsIn.foldlM {f : Nat → α → β → Option α} {step : γ → β → γ} {R : γ → α → Prop}
    (h : ∀ c a b, R c a → EndsIn (fun n => f n a b) (R (step c b)))
    (bs : List β) {c : γ} {a : α} (ha : R c a) :
    EndsIn (fun n => bs.foldlM (f n) a) (R (bs.foldl step c)) := by
  induction bs generalizing a c with
  | nil => exact EndsIn.pure ha
  | cons b bs ih =>
      simp only [List.foldlM_cons]
      exact (h c a b ha).bind (g := fun x n => bs.foldlM (f n) x) fun x hx => ih hx

end CodeLib.Fuel
