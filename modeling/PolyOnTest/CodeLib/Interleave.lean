import Mathlib.Data.List.Basic

/-!
# Interleavings

`Interleave xss out` says that `out` has the elements of the lists of `xss`, each
list in its own order.  It is the trace of threads that share one output, when one
step of a thread is one element.

A step of a thread may stand for several elements of a finer or coarser trace, or for
none: `Interleave.flatMap` translates all threads and the trace at once.
-/

namespace CodeLib

variable {α β : Type}

/-- `out` is an interleaving of the lists of `xss`. -/
inductive Interleave : List (List α) → List α → Prop
  | done {xss : List (List α)} (h : ∀ xs ∈ xss, xs = []) : Interleave xss []
  | step {front back : List (List α)} {x : α} {xs out : List α} :
      Interleave (front ++ xs :: back) out → Interleave (front ++ (x :: xs) :: back) (x :: out)

namespace Interleave

/-- The first of two threads makes a step. -/
theorem first {x : α} {xs ys out : List α} (h : Interleave [xs, ys] out) :
    Interleave [x :: xs, ys] (x :: out) := @step α [] [ys] x xs out h

/-- The second of two threads makes a step. -/
theorem second {y : α} {xs ys out : List α} (h : Interleave [xs, ys] out) :
    Interleave [xs, y :: ys] (y :: out) := @step α [xs] [] y ys out h

/-- Several elements of one thread in a row. -/
theorem steps {front back : List (List α)} {xs out : List α}
    (h : Interleave (front ++ xs :: back) out) (ys : List α) :
    Interleave (front ++ (ys ++ xs) :: back) (ys ++ out) := by
  induction ys with
  | nil => exact h
  | cons y ys ih => exact .step ih

/-- Each element replaced by a list, in the threads and in the trace. -/
theorem flatMap {xss : List (List α)} {out : List α} (h : Interleave xss out)
    (f : α → List β) : Interleave (xss.map fun xs => xs.flatMap f) (out.flatMap f) := by
  induction h with
  | done hnil =>
      refine .done fun ys hys => ?_
      obtain ⟨xs, hxs, heq⟩ := List.mem_map.mp hys
      rw [← heq, hnil xs hxs]
      rfl
  | @step front back x xs out _ ih =>
      rw [List.map_append, List.map_cons] at ih ⊢
      rw [List.flatMap_cons, List.flatMap_cons]
      exact ih.steps (f x)

/-- The trace has the elements of the threads. -/
theorem perm {xss : List (List α)} {out : List α} (h : Interleave xss out) :
    out.Perm xss.flatten := by
  induction h with
  | done hnil =>
      have hflat : ∀ xss : List (List α), (∀ xs ∈ xss, xs = []) → xss.flatten = [] :=
        fun xss => List.flatten_eq_nil_iff.mpr
      rw [hflat _ hnil]
  | @step front back x xs out _ ih =>
      have hmiddle : ((front ++ (x :: xs) :: back).flatten).Perm
          (x :: (front ++ xs :: back).flatten) := by
        rw [List.flatten_append, List.flatten_append, List.flatten_cons, List.flatten_cons,
          List.cons_append]
        exact List.perm_middle
      exact (ih.cons x).trans hmiddle.symm

/-- The last element of the trace is the last one of a thread. -/
theorem getLast_mem {xss : List (List α)} {out : List α} (h : Interleave xss out)
    {z : α} (hlast : out.getLast? = some z) : ∃ xs ∈ xss, xs.getLast? = some z := by
  induction h with
  | done _ => cases hlast
  | @step front back x xs out hrest ih =>
      cases out with
      | nil =>
        have hz : x = z := by simpa using hlast
        have hxs : xs = [] := by
          have hperm := hrest.perm.symm.eq_nil
          exact List.flatten_eq_nil_iff.mp hperm xs (by simp)
        refine ⟨x :: xs, by simp, ?_⟩
        rw [hxs, hz]
        rfl
      | cons y out =>
        rw [List.getLast?_cons_cons] at hlast
        obtain ⟨ys, hys, hy⟩ := ih hlast
        rw [List.mem_append, List.mem_cons] at hys
        rcases hys with hys | heq | hys
        · exact ⟨ys, by simp [hys], hy⟩
        · refine ⟨x :: xs, by simp, ?_⟩
          subst heq
          cases ys with
          | nil => cases hy
          | cons y' ys => rw [List.getLast?_cons_cons, hy]
        · exact ⟨ys, by simp [hys], hy⟩

end Interleave

end CodeLib
