import Mathlib.Data.List.Induction
import Mathlib.Data.List.Nodup
import Mathlib.Data.List.Perm.Basic

/-!
# Tables in which the last write counts

A table has one row for each key.  A write searches the rows from the back, changes
the row of its key, and adds a row when there is none.  `putAll_perm` says what a
list of writes leaves: one row for each key, with the value of the last write.

`lasting` are the elements of a list whose key does not come again, `covered` are
the others.  Both follow the recursion of the list, so that a list of writes can be
taken apart in the order in which it was made.
-/

namespace CodeLib.LastWrite

variable {α β κ ν : Type}

/-! ## The last element with a property -/

/-- Changes the last element with a property, if there is one. -/
def modifyLast (q : α → Bool) (f : α → α) : List α → Option (List α)
  | [] => none
  | x :: xs =>
      match modifyLast q f xs with
      | some ys => some (x :: ys)
      | none => if q x then some (f x :: xs) else none

theorem modifyLast_eq_none {q : α → Bool} {f : α → α} {xs : List α}
    (h : modifyLast q f xs = none) : ∀ x ∈ xs, q x = false := by
  induction xs with
  | nil => simp
  | cons x xs ih =>
      rw [modifyLast] at h
      cases hrest : modifyLast q f xs with
      | some ys =>
        rw [hrest] at h
        cases h
      | none =>
        rw [hrest] at h
        by_cases hx : q x = true
        · simp [hx] at h
        · exact List.forall_mem_cons.mpr ⟨by simpa using hx, ih hrest⟩

theorem modifyLast_eq_some {q : α → Bool} {f : α → α} {xs ys : List α}
    (h : modifyLast q f xs = some ys) :
    ∃ a x b, xs = a ++ x :: b ∧ q x = true ∧ ys = a ++ f x :: b := by
  induction xs generalizing ys with
  | nil => cases h
  | cons x xs ih =>
      rw [modifyLast] at h
      cases hrest : modifyLast q f xs with
      | some zs =>
        rw [hrest] at h
        injection h with h
        obtain ⟨a, y, b, hxs, hy, hzs⟩ := ih hrest
        exact ⟨x :: a, y, b, by rw [hxs]; rfl, hy, by rw [← h, hzs]; rfl⟩
      | none =>
        rw [hrest] at h
        by_cases hx : q x = true
        · simp only [hx, if_true] at h
          injection h with h
          exact ⟨[], x, xs, rfl, hx, h.symm⟩
        · simp [hx] at h

/-- The change seen through a function on the elements. -/
theorem modifyLast_map {g : α → β} {q : α → Bool} {q' : β → Bool} {f : α → α} {f' : β → β}
    (hq : ∀ x, q' (g x) = q x) (hf : ∀ x, q x = true → f' (g x) = g (f x)) (xs : List α) :
    modifyLast q' f' (xs.map g) = (modifyLast q f xs).map (List.map g) := by
  induction xs with
  | nil => rfl
  | cons x xs ih =>
      rw [List.map_cons, modifyLast, modifyLast, ih, hq]
      cases modifyLast q f xs with
      | some ys => rfl
      | none =>
        by_cases hx : q x = true
        · simp [hx, hf x hx]
        · simp [hx]

/-! ## Elements whose key comes again -/

section Keys

variable [DecidableEq κ]

/-- The elements whose key does not come again. -/
def lasting (key : α → κ) : List α → List α
  | [] => []
  | x :: xs => if key x ∈ xs.map key then lasting key xs else x :: lasting key xs

/-- The elements whose key comes again. -/
def covered (key : α → κ) : List α → List α
  | [] => []
  | x :: xs => if key x ∈ xs.map key then x :: covered key xs else covered key xs

variable {key : α → κ}

/-- Each element lasts or is covered. -/
theorem countP_lasting_add_covered (q : α → Bool) (xs : List α) :
    (lasting key xs).countP q + (covered key xs).countP q = xs.countP q := by
  induction xs with
  | nil => rfl
  | cons x xs ih =>
      rw [lasting, covered]
      by_cases hx : key x ∈ xs.map key
      · rw [if_pos hx, if_pos hx, List.countP_cons, List.countP_cons]
        omega
      · rw [if_neg hx, if_neg hx, List.countP_cons, List.countP_cons]
        omega

theorem length_lasting_add_covered (xs : List α) :
    (lasting key xs).length + (covered key xs).length = xs.length := by
  have h := @countP_lasting_add_covered α κ _ key (fun _ => true) xs
  simpa using h

/-- No key is lost. -/
theorem mem_map_lasting {k : κ} (xs : List α) :
    k ∈ (lasting key xs).map key ↔ k ∈ xs.map key := by
  induction xs with
  | nil => rfl
  | cons x xs ih =>
      rw [lasting, List.map_cons, List.mem_cons]
      split_ifs with hx
      · rw [ih]
        constructor
        · exact Or.inr
        · intro h
          rcases h with h | h
          · rw [h]
            exact hx
          · exact h
      · rw [List.map_cons, List.mem_cons, ih]

/-- Each key lasts once. -/
theorem nodup_map_lasting (xs : List α) : ((lasting key xs).map key).Nodup := by
  induction xs with
  | nil => exact List.nodup_nil
  | cons x xs ih =>
      rw [lasting]
      split_ifs with hx
      · exact ih
      · rw [List.map_cons, List.nodup_cons, mem_map_lasting]
        exact ⟨hx, ih⟩

theorem lasting_map {g : β → α} (xs : List β) :
    lasting key (xs.map g) = (lasting (key ∘ g) xs).map g := by
  induction xs with
  | nil => rfl
  | cons x xs ih =>
      rw [List.map_cons, lasting, lasting, List.map_map, ih]
      by_cases hx : (key ∘ g) x ∈ xs.map (key ∘ g)
      · rw [if_pos hx, if_pos (show key (g x) ∈ _ from hx)]
      · rw [if_neg hx, if_neg (show ¬key (g x) ∈ _ from hx)]
        rfl

/-- What lasts in front depends on the keys behind. -/
theorem lasting_congr_tail (x : α) {xs ys : List α} (h : lasting key xs = lasting key ys) :
    lasting key (x :: xs) = lasting key (x :: ys) := by
  have hmem : key x ∈ xs.map key ↔ key x ∈ ys.map key := by
    rw [← mem_map_lasting xs, h, mem_map_lasting]
  simp only [lasting, hmem, h]

/-- Elements whose keys come again do not last. -/
theorem lasting_append_of_mem {front back : List α}
    (h : ∀ x ∈ front, key x ∈ back.map key) : lasting key (front ++ back) = lasting key back := by
  induction front with
  | nil => rfl
  | cons x front ih =>
      have hx : key x ∈ (front ++ back).map key := by
        rw [List.map_append, List.mem_append]
        exact Or.inr (h x (by simp))
      rw [List.cons_append, lasting, if_pos hx]
      exact ih fun y hy => h y (by simp [hy])

/-- A later element with a key takes the place of the earlier ones. -/
theorem lasting_append_singleton (xs : List α) (x : α) :
    lasting key (xs ++ [x]) = (lasting key xs).filter (fun y => key y ≠ key x) ++ [x] := by
  induction xs with
  | nil => rfl
  | cons y xs ih =>
      have hmem : key y ∈ (xs ++ [x]).map key ↔ key y ∈ xs.map key ∨ key y = key x := by
        rw [List.map_append, List.mem_append, List.map_singleton, List.mem_singleton]
      rw [List.cons_append, lasting, lasting, ih]
      by_cases hy : key y ∈ xs.map key
      · rw [if_pos hy, if_pos (hmem.mpr (Or.inl hy))]
      · by_cases hx : key y = key x
        · rw [if_neg hy, if_pos (hmem.mpr (Or.inr hx)), List.filter_cons_of_neg (by simp [hx])]
        · have hnot : ¬key y ∈ (xs ++ [x]).map key := by
            rw [hmem]
            exact not_or.mpr ⟨hy, hx⟩
          rw [if_neg hy, if_neg hnot, List.filter_cons_of_pos (by simp [hx])]
          rfl

end Keys

/-! ## Tables -/

section Tables

variable [DecidableEq κ]

/-- A write. -/
def put (rows : List (κ × ν)) (w : κ × ν) : List (κ × ν) :=
  (modifyLast (fun r => r.1 = w.1) (fun _ => w) rows).getD (rows ++ [w])

/-- A write to a table with one row for each key. -/
theorem put_perm {rows : List (κ × ν)} (h : (rows.map Prod.fst).Nodup) (w : κ × ν) :
    (put rows w).Perm (rows.filter (fun r => r.1 ≠ w.1) ++ [w]) := by
  unfold put
  cases hmodify : modifyLast (fun r : κ × ν => decide (r.1 = w.1)) (fun _ => w) rows with
  | none =>
    have hnone := modifyLast_eq_none hmodify
    have hall : rows.filter (fun r => r.1 ≠ w.1) = rows := by
      refine List.filter_eq_self.mpr fun r hr => ?_
      have hr := hnone r hr
      simpa using hr
    rw [hall]
    exact List.Perm.refl _
  | some rows' =>
    obtain ⟨a, x, b, hrows, hx, hrows'⟩ := modifyLast_eq_some hmodify
    have hkey : x.1 = w.1 := of_decide_eq_true hx
    rw [hrows, List.map_append, List.map_cons, List.nodup_middle, List.nodup_cons, hkey,
      List.mem_append, not_or] at h
    have hkeep : ∀ c : List (κ × ν), w.1 ∉ c.map Prod.fst →
        c.filter (fun r => r.1 ≠ w.1) = c := by
      intro c hc
      refine List.filter_eq_self.mpr fun r hr => ?_
      have hne : r.1 ≠ w.1 := fun heq => hc (heq ▸ List.mem_map_of_mem hr)
      simpa using hne
    rw [Option.getD_some, hrows', hrows, List.filter_append, hkeep a h.1.1,
      List.filter_cons_of_neg (by simp [hkey]), hkeep b h.1.2, List.append_assoc]
    exact (@List.perm_append_comm _ [w] b).append_left a

/-- The table behind some writes has the rows that last. -/
theorem putAll_perm (ws : List (κ × ν)) :
    (ws.foldl put []).Perm (lasting Prod.fst ws) := by
  induction ws using List.reverseRecOn with
  | nil => exact List.Perm.refl _
  | append_singleton ws w ih =>
      have hnodup : ((ws.foldl put []).map Prod.fst).Nodup :=
        (ih.map Prod.fst).nodup_iff.mpr (nodup_map_lasting ws)
      rw [List.foldl_append, List.foldl_cons, List.foldl_nil, lasting_append_singleton]
      exact (put_perm hnodup w).trans ((ih.filter _).append_right [w])

end Tables

end CodeLib.LastWrite
