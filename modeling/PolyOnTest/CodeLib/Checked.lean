import Mathlib.Data.List.Basic

/-!
# Code with run-time checks

Code that stops when an index, a slice, a subtraction or a conversion is out
of range.  `Checked` is the answer of such code: a value, or the reason why it
stopped.  `Fallible` is code that also gives errors of its own, which are
values and no stops.

`loop` is a loop with a body that either goes on with a new state or leaves
with an answer.  The loop gets fuel and stops when the fuel is used up, so it
is total.  `loop_eq` is the rule for it: when each trip keeps an invariant,
makes a measure smaller and keeps the answer that a specification gives to the
state, then the loop ends with this answer for every amount of fuel above the
measure.
-/

namespace CodeLib.Checked

/-- Why checked code stopped. -/
inductive Stop
  | index
  | slice
  | underflow
  | unwrap
  | fuel
  deriving DecidableEq, Repr

end CodeLib.Checked

namespace CodeLib

/-- A value, or the reason why the code stopped. -/
abbrev Checked (α : Type) := Except Checked.Stop α

/-- Checked code with errors of its own. -/
abbrev Fallible (ε α : Type) := ExceptT ε Checked α

namespace Checked

variable {α β ε σ : Type}

/-- `xs[i]` -/
def index (xs : List α) (i : Nat) : Checked α :=
  match xs[i]? with
  | some a => .ok a
  | none => .error .index

/-- `xs[i..j]` -/
def slice (xs : List α) (i j : Nat) : Checked (List α) :=
  if i ≤ j ∧ j ≤ xs.length then .ok ((xs.drop i).take (j - i)) else .error .slice

/-- `xs.drain(..n)`: what stays behind the first `n` elements. -/
def drain (xs : List α) (n : Nat) : Checked (List α) :=
  if n ≤ xs.length then .ok (xs.drop n) else .error .slice

/-- `a - b` on unsigned numbers. -/
def sub (a b : Nat) : Checked Nat :=
  if b ≤ a then .ok (a - b) else .error .underflow

/-- The conversion of a slice to an array of `n` elements, unwrapped. -/
def array (n : Nat) (xs : List α) : Checked (List α) :=
  if xs.length = n then .ok xs else .error .unwrap

/-- A loop with `n` units of fuel. -/
def loop (body : σ → Checked (σ ⊕ α)) : Nat → σ → Checked α
  | 0, _ => .error .fuel
  | n + 1, s =>
      match body s with
      | .error stop => .error stop
      | .ok (.inl s') => loop body n s'
      | .ok (.inr a) => .ok a

/-- A checked operation in code that has errors of its own. -/
def check (x : Checked α) : Fallible ε α := ExceptT.lift x

/-- Code that ran to its end, with its value or its error. -/
def ran (r : Except ε α) : Fallible ε α := ExceptT.mk (.ok r)

theorem index_getD {xs : List α} {i : Nat} (h : i < xs.length) (a : α) :
    index xs i = .ok (xs.getD i a) := by
  rw [index, List.getD_eq_getElem?_getD, List.getElem?_eq_getElem h, Option.getD_some]

theorem slice_of_le {xs : List α} {i j : Nat} (hij : i ≤ j) (hj : j ≤ xs.length) :
    slice xs i j = .ok ((xs.drop i).take (j - i)) := if_pos ⟨hij, hj⟩

theorem drain_of_le {xs : List α} {n : Nat} (h : n ≤ xs.length) :
    drain xs n = .ok (xs.drop n) := if_pos h

theorem sub_of_le {a b : Nat} (h : b ≤ a) : sub a b = .ok (a - b) := if_pos h

theorem array_of_length {n : Nat} {xs : List α} (h : xs.length = n) :
    array n xs = .ok xs := if_pos h

theorem ok_bind (a : α) (f : α → Checked β) : (Except.ok a >>= f) = f a := rfl

theorem check_ok_bind (a : α) (f : α → Fallible ε β) :
    (check (.ok a) >>= f) = f a := rfl

/-- Code that runs to its end, put in sequence. -/
theorem ran_bind (r : Except ε α) {f : α → Fallible ε β} {g : α → Except ε β}
    (h : ∀ a, f a = ran (g a)) : (ran r >>= f) = ran (r >>= g) := by
  cases r with
  | error e => rfl
  | ok a => exact h a

/-- The rule for a loop. -/
theorem loop_eq {body : σ → Checked (σ ⊕ α)} {spec : σ → α} {measure : σ → Nat}
    {inv : σ → Prop}
    (hbody : ∀ s, inv s → body s = .ok (.inr (spec s)) ∨
      ∃ s', body s = .ok (.inl s') ∧ inv s' ∧ measure s' < measure s ∧
        spec s' = spec s)
    {n : Nat} {s : σ} (hs : inv s) (hn : measure s < n) :
    loop body n s = .ok (spec s) := by
  induction n generalizing s with
  | zero => exact absurd hn (Nat.not_lt_zero _)
  | succ n ih =>
      rw [loop]
      rcases hbody s hs with hlast | ⟨s', hnext, hs', hless, hspec⟩
      · rw [hlast]
      · rw [hnext]
        dsimp only
        rw [ih hs' (by omega), hspec]

end Checked

end CodeLib
