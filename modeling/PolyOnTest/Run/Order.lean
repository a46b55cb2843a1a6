import PolyOnTest.Harness.Links

/-!
# The execution order

`sort_cases` is an insertion sort on the links.  `sortWalk_ends`,
`sortRound_ends` and `sortLoop_ends` follow its three loops and relate each to
the list function of `Registry`: a round is `insertCase`.

On lists, equal cases keep their order (`filter_sortCases`), cases of one suite
stand together (`suite_between`), and a sorted list of cases with different
identifiers is determined by its members (`sortCases_congr`).
`sortCases_canonical` says this of the list in memory.
-/

namespace PolyOnTest.Run

open CodeLib CodeLib.CMemory CodeLib.Fuel CodeLib.LinkedList PolyOnTest.Harness

/-! ## Equal cases -/

theorem caseCmp_eq_iff {a b : Case} : caseCmp a b = .eq ↔ a.id = b.id := by
  rw [caseCmp, Ordering.then_eq_eq, Ordering.then_eq_eq, strCmp_eq_iff, strCmp_eq_iff,
    strCmp_eq_iff, Case.id, Case.id, CaseId.mk.injEq]

/-- Where a round puts the case. -/
theorem insertCase_split {head : Case} {front back : List Case}
    (hfront : ∀ s ∈ front, caseCmp head s ≠ .lt)
    (hback : ∀ s, back.head? = some s → caseCmp head s = .lt) :
    insertCase head (front ++ back) = front ++ head :: back := by
  induction front with
  | nil =>
      cases back with
      | nil => rfl
      | cons s back => rw [List.nil_append, insertCase, if_pos (hback s rfl), List.nil_append]
  | cons s front ih =>
      rw [List.cons_append, insertCase, if_neg (hfront s List.mem_cons_self),
        ih fun x hx => hfront x (List.mem_cons_of_mem s hx), List.cons_append]

/-- Each list has such a place. -/
theorem exists_split (head : Case) (sorted : List Case) :
    ∃ front back, sorted = front ++ back ∧ (∀ s ∈ front, caseCmp head s ≠ .lt) ∧
      ∀ s, back.head? = some s → caseCmp head s = .lt := by
  induction sorted with
  | nil => exact ⟨[], [], rfl, by simp, by simp⟩
  | cons s sorted ih =>
      by_cases hlt : caseCmp head s = .lt
      · exact ⟨[], s :: sorted, rfl, by simp, fun x hx => by cases hx; exact hlt⟩
      · obtain ⟨front, back, rfl, hfront, hback⟩ := ih
        exact ⟨s :: front, back, rfl, List.forall_mem_cons.mpr ⟨hlt, hfront⟩, hback⟩

/-- A round puts the case behind those with the same identifier. -/
theorem filter_insertCase (head : Case) {sorted : List Case} (h : SortedCases sorted)
    (i : CaseId) :
    (insertCase head sorted).filter (fun t => t.id = i) =
      (sorted ++ [head]).filter (fun t => t.id = i) := by
  obtain ⟨front, back, rfl, hfront, hback⟩ := exists_split head sorted
  rw [insertCase_split hfront hback]
  by_cases hi : head.id = i
  · -- everything behind `head` is greater, so it has another identifier
    have hnone : back.filter (fun t => t.id = i) = [] := by
      rw [List.filter_eq_nil_iff]
      intro t ht heq
      have hsame : caseCmp head t = .eq :=
        caseCmp_eq_iff.mpr (hi.trans (of_decide_eq_true heq).symm)
      cases back with
      | nil => exact List.not_mem_nil ht
      | cons s back =>
        have hlt := hback s rfl
        have hle : (caseCmp s t).isLE := by
          rcases List.mem_cons.mp ht with rfl | ht
          · exact Std.ReflCmp.isLE_rfl
          · exact (List.pairwise_cons.mp (List.pairwise_append.mp h).2.1).1 t ht
        have := Std.TransCmp.lt_of_lt_of_isLE hlt hle
        rw [hsame] at this
        cases this
    simp [List.filter_append, List.filter_cons, hnone]
  · simp [List.filter_append, hi]

/-- Sorting keeps the order of cases with the same identifier. -/
theorem filter_sortCases (ts : List Case) (i : CaseId) :
    (sortCases ts).filter (fun t => t.id = i) = ts.filter (fun t => t.id = i) := by
  have hfold : ∀ (ts : List Case) {sorted : List Case}, SortedCases sorted →
      (ts.foldl (fun sorted head => insertCase head sorted) sorted).filter
          (fun t => t.id = i) = (sorted ++ ts).filter (fun t => t.id = i) := by
    intro ts
    induction ts with
    | nil => intro sorted _; simp
    | cons head ts ih =>
        intro sorted h
        rw [List.foldl_cons, ih (insertCase_sorted head h), List.filter_append,
          filter_insertCase head h, ← List.filter_append, List.append_assoc,
          List.singleton_append]
  exact hfold ts List.Pairwise.nil

/-! ## Suites and identifiers -/

/-- Between two cases of a suite there are only cases of it. -/
theorem suite_between {front mid back : List Case} {a b : Case}
    (h : SortedCases (front ++ a :: (mid ++ b :: back))) (hsuite : a.suite = b.suite) :
    ∀ t ∈ mid, t.suite = a.suite := by
  intro t ht
  have htail := List.pairwise_cons.mp (List.pairwise_append.mp h).2.1
  have hat := strCmp_suite_of_caseCmp (htail.1 t (List.mem_append_left _ ht))
  have htb := strCmp_suite_of_caseCmp
    ((List.pairwise_append.mp htail.2).2.2 t ht b List.mem_cons_self)
  rw [← hsuite] at htb
  exact (strCmp_eq_iff.mp (@Std.OrientedCmp.isLE_antisymm _ strCmp _ _ _ hat htb)).symm

/-- Cases with different identifiers come out in one order. -/
theorem sortCases_congr {as bs : List Case} (h : as.Perm bs)
    (hids : (as.map Case.id).Nodup) : sortCases as = sortCases bs := by
  refine List.Perm.eq_of_pairwise (fun a b ha hb hab hba => ?_) (sortCases_sorted as)
    (sortCases_sorted bs) ((sortCases_perm as).trans (h.trans (sortCases_perm bs).symm))
  have heq : caseCmp a b = .eq := @Std.OrientedCmp.isLE_antisymm _ caseCmp _ _ _ hab hba
  have hmem : a ∈ as := (sortCases_perm as).mem_iff.mp ha
  have hmem' : b ∈ as := h.mem_iff.mpr ((sortCases_perm bs).mem_iff.mp hb)
  exact List.inj_on_of_nodup_map hids hmem hmem' (caseCmp_eq_iff.mp heq)

/-! ## The sort on the links -/

section Links

variable (img : Image) {next : Nat → Option Nat}

/-- The inner loop stops in front of the place of the case. -/
theorem sortWalk_ends {head s : Nat} {front back : List Nat}
    (h : Chain next (some s) (s :: (front ++ back)))
    (hfront : ∀ t ∈ front, caseCmp (img.case head) (img.case t) ≠ .lt)
    (hback : ∀ t, back.head? = some t → caseCmp (img.case head) (img.case t) = .lt) :
    ∃ before last, s :: front = before ++ [last] ∧
      Ends (fun n => sortWalk img next head n s) last := by
  induction front generalizing s with
  | nil =>
      refine ⟨[], s, rfl, Ends.of_succ ?_⟩
      cases back with
      | nil =>
        have hnone : next s = none := h.2
        simp only [sortWalk, hnone]
        exact Ends.pure s
      | cons t back =>
        have hnext : next s = some t := h.2.1
        simp only [sortWalk, hnext, hback t rfl, ne_eq, not_true_eq_false, if_false]
        exact Ends.pure s
  | cons t front ih =>
      have hnext : next s = some t := h.2.1
      have hrest : Chain next (some t) (t :: (front ++ back)) := ⟨rfl, h.2.2⟩
      obtain ⟨before, last, hsplit, hends⟩ :=
        ih hrest fun x hx => hfront x (List.mem_cons_of_mem t hx)
      refine ⟨s :: before, last, by rw [hsplit, List.cons_append], Ends.of_succ ?_⟩
      simp only [sortWalk, hnext, ne_eq, hfront t List.mem_cons_self, not_false_eq_true,
        if_true]
      exact hends

/-- The cases at some addresses, split where a round puts a case. -/
theorem exists_split_map (head : Nat) (as : List Nat) :
    ∃ front back, as = front ++ back ∧
      (∀ t ∈ front, caseCmp (img.case head) (img.case t) ≠ .lt) ∧
      (∀ t, back.head? = some t → caseCmp (img.case head) (img.case t) = .lt) ∧
      insertCase (img.case head) (as.map img.case) =
        (front ++ head :: back).map img.case := by
  obtain ⟨front, back, hsplit, hfront, hback⟩ := exists_split (img.case head) (as.map img.case)
  obtain ⟨as₁, as₂, rfl, rfl, rfl⟩ := List.map_eq_append_iff.mp hsplit
  refine ⟨as₁, as₂, rfl, fun t ht => hfront _ (List.mem_map_of_mem ht), fun t ht => ?_, ?_⟩
  · exact hback _ (by rw [List.head?_map, ht, Option.map_some])
  · rw [hsplit, insertCase_split hfront hback, List.map_append, List.map_cons]

/-- What a round does: it links one case into the sorted list and writes to no
other cell outside of it. -/
structure Inserted (next next' : Nat → Option Nat) (sorted' : Option Nat)
    (head : Nat) (as bs : List Nat) : Prop where
  chain : Chain next' sorted' bs
  cases : bs.map img.case = insertCase (img.case head) (as.map img.case)
  perm : bs.Perm (head :: as)
  frame : ∀ x, x ∉ head :: as → next' x = next x

/-- A case in front of the sorted list. -/
theorem Inserted.front {sorted : Option Nat} {head : Nat} {as : List Nat}
    (h : Chain next sorted as) (hhead : head ∉ as)
    (hcase : insertCase (img.case head) (as.map img.case) = (head :: as).map img.case) :
    Inserted img next (Function.update next head sorted) (some head) head as (head :: as) where
  chain := h.push hhead
  cases := hcase.symm
  perm := List.Perm.refl _
  frame := fun _ hx => Function.update_of_ne (List.ne_of_not_mem_cons hx) _ _

theorem sortRound_ends {sorted : Option Nat} {head : Nat} {as : List Nat}
    (h : Chain next sorted as) (hhead : head ∉ as) :
    ∃ next' sorted' bs, Ends (fun n => sortRound img n next sorted head) (next', sorted') ∧
      Inserted img next next' sorted' head as bs := by
  obtain ⟨front, back, rfl, hfront, hback, hinsert⟩ := exists_split_map img head as
  cases front with
  | nil =>
    refine ⟨_, _, _, ?_, Inserted.front img h hhead hinsert⟩
    cases back with
    | nil =>
      obtain rfl : sorted = none := h
      exact Ends.pure _
    | cons first back =>
      obtain rfl : sorted = some first := h.1
      simp only [sortRound, hback first rfl, if_true]
      exact Ends.pure _
  | cons first front =>
    obtain rfl : sorted = some first := h.1
    obtain ⟨before, last, hlast, hwalk⟩ := sortWalk_ends img h
      (fun t ht => hfront t (List.mem_cons_of_mem first ht)) hback
    rw [hlast, List.append_assoc, List.singleton_append] at h hhead hinsert
    refine ⟨_, _, before ++ last :: head :: back, ?_, h.insert hhead, ?_, ?_, ?_⟩
    · simp only [sortRound, hfront first List.mem_cons_self, if_false]
      exact hwalk.map _
    · rw [hlast, List.append_assoc, List.singleton_append, hinsert]
      simp
    · rw [hlast, List.append_assoc, List.singleton_append]
      exact ((List.Perm.swap head last back).append_left before).trans List.perm_middle
    · intro x hx
      rw [hlast] at hx
      simp only [List.mem_cons, List.mem_append, not_or, List.not_mem_nil] at hx
      rw [Function.update_of_ne hx.2.1.2.1, Function.update_of_ne hx.1]

/-- The outer loop, by induction on the cases that are left. -/
theorem sortLoop_ends {p sorted : Option Nat} {todo done : List Nat}
    (htodo : Chain next p todo) (hdone : Chain next sorted done)
    (hapart : List.Disjoint todo done) :
    ∃ next' sorted' bs, Ends (fun n => sortLoop img n next p sorted) (next', sorted') ∧
      Chain next' sorted' bs ∧ bs.Perm (todo ++ done) ∧
      bs.map img.case = (todo.map img.case).foldl
        (fun sorted head => insertCase head sorted) (done.map img.case) ∧
      ∀ x, x ∉ todo ++ done → next' x = next x := by
  induction todo generalizing next p sorted done with
  | nil =>
      obtain rfl : p = none := htodo
      exact ⟨next, sorted, done, Ends.of_succ (Ends.pure _), hdone, List.Perm.refl _, rfl,
        fun _ _ => rfl⟩
  | cons head todo ih =>
      obtain ⟨rfl, hrest⟩ := htodo
      have hnodup := List.nodup_cons.mp (Chain.nodup (p := some head) ⟨rfl, hrest⟩)
      have hhead : head ∉ done := fun hm => hapart List.mem_cons_self hm
      obtain ⟨next₁, sorted₁, bs₁, hround, hins⟩ := sortRound_ends img hdone hhead
      -- the round does not touch the cells that are still to come
      have hother : ∀ x ∈ todo, x ∉ head :: done := fun x hx hmem => by
        rcases List.mem_cons.mp hmem with rfl | hmem
        · exact hnodup.1 hx
        · exact hapart (List.mem_cons_of_mem head hx) hmem
      have hkeep : Chain next₁ (next head) todo :=
        Seg.congr hrest fun x hx => hins.frame x (hother x hx)
      have hapart₁ : List.Disjoint todo bs₁ := fun x hx hmem =>
        hother x hx (hins.perm.mem_iff.mp hmem)
      obtain ⟨next', sorted', bs, hloop, hchain, hperm, hcases, hframe⟩ :=
        ih hkeep hins.chain hapart₁
      refine ⟨next', sorted', bs, Ends.of_succ ?_, hchain, ?_, ?_, ?_⟩
      · simp only [sortLoop]
        exact hround.bind hloop
      · exact hperm.trans ((hins.perm.append_left todo).trans List.perm_middle)
      · rw [hcases, hins.cases, List.map_cons, List.foldl_cons]
      · intro x hx
        have hcell : x ∉ head :: done := fun hm => hx (by
          rcases List.mem_cons.mp hm with rfl | hm
          · exact List.mem_cons_self
          · exact List.mem_append_right _ hm)
        rw [hframe x ?_, hins.frame x hcell]
        intro hm
        rcases List.mem_append.mp hm with hm | hm
        · exact hx (List.mem_cons_of_mem head (List.mem_append_left done hm))
        · exact hcell (hins.perm.mem_iff.mp hm)

/-- `sort_cases` ends.  The list from its result has the same cells, holds the
sorted cases, and no other `next` field is written. -/
theorem sortCases_ends {l : Links} {as : List Nat} (h : Chain l.next l.head as) :
    ∃ l' bs, Ends (fun n => l.sortCases img n) l' ∧ Chain l'.next l'.head bs ∧
      bs.Perm as ∧ bs.map img.case = sortCases (as.map img.case) ∧
      ∀ x, x ∉ as → l'.next x = l.next x := by
  obtain ⟨next', sorted', bs, hloop, hchain, hperm, hcases, hframe⟩ :=
    sortLoop_ends img h (show Chain l.next none [] from rfl) (List.disjoint_nil_right as)
  rw [List.append_nil] at hperm hframe
  exact ⟨⟨sorted', next'⟩, bs, hloop.map _, hchain, hperm, hcases, hframe⟩

/-- A sort of a list that is sorted writes to no cell another value. -/
theorem sortCases_of_chain_sorted {l : Links} {as : List Nat} (h : Chain l.next l.head as)
    (hsorted : SortedCases (as.map img.case)) : Ends (fun n => l.sortCases img n) l := by
  obtain ⟨l', bs, hends, hchain, -, hcases, hframe⟩ := sortCases_ends img h
  rw [sortCases_of_sorted hsorted] at hcases
  obtain rfl := img.case_injective.list_map hcases
  have hhead : l'.head = l.head := hchain.head_eq h
  have hnext : l'.next = l.next := by
    funext x
    by_cases hx : x ∈ bs
    · exact hchain.next_eq h hx
    · exact hframe x hx
  obtain ⟨head', next'⟩ := l'
  obtain rfl : head' = l.head := hhead
  obtain rfl : next' = l.next := hnext
  exact hends

/-- Registrations, one after the other. -/
theorem foldlM_register_ends (xs : List Nat) {l : Links} {as : List Nat}
    (h : Chain l.next l.head as) :
    ∃ l' bs, Ends (fun n => xs.foldlM (fun l x => l.register n (some x)) l) l' ∧
      Chain l'.next l'.head bs ∧ ∀ a, a ∈ bs ↔ a ∈ as ∨ a ∈ xs := by
  induction xs generalizing l as with
  | nil => exact ⟨l, as, Ends.pure l, h, by simp⟩
  | cons x xs ih =>
      obtain ⟨l₁, hends, hchain⟩ := l.register_ends h x
      obtain ⟨l', bs, hrest, hchain', hmem⟩ := ih hchain
      refine ⟨l', bs, ?_, hchain', fun a => ?_⟩
      · simp only [List.foldlM_cons]
        exact hends.bind (g := fun l n => xs.foldlM (fun l x => l.register n (some x)) l) hrest
      · rw [hmem, List.mem_cons]
        split_ifs with hx
        · constructor
          · rintro (ha | ha)
            · exact Or.inl ha
            · exact Or.inr (Or.inr ha)
          · rintro (ha | rfl | ha)
            · exact Or.inl ha
            · exact Or.inl hx
            · exact Or.inr ha
        · rw [List.mem_cons, or_comm (a := a = x), or_assoc]

/-- Lists with the same cells, all with different identifiers, are sorted into
one order. -/
theorem sortCases_ends_congr {l : Links} {as bs : List Nat} (h : Chain l.next l.head as)
    (hperm : as.Perm bs) (hids : (as.map fun a => (img.case a).id).Nodup)
    (hsorted : SortedCases (bs.map img.case)) :
    ∃ l', Ends (fun n => l.sortCases img n) l' ∧ Chain l'.next l'.head bs := by
  obtain ⟨l', cs, hends, hchain, -, hcases, -⟩ := sortCases_ends img h
  have hids' : ((as.map img.case).map Case.id).Nodup := by rwa [List.map_map]
  rw [sortCases_congr (hperm.map img.case) hids', sortCases_of_sorted hsorted] at hcases
  obtain rfl := img.case_injective.list_map hcases
  exact ⟨l', hends, hchain⟩

/-- The execution order is canonical.  `sort_cases` ends with a permutation of
the descriptors that is sorted and stable; a second sort changes nothing; the
cases of a suite stand together; and the descriptors come out in this order
however they were registered, if no two have the same identifier. -/
theorem sortCases_canonical {l : Links} {as : List Nat} (h : Chain l.next l.head as) :
    ∃ l' bs, Ends (fun n => l.sortCases img n) l' ∧ Chain l'.next l'.head bs ∧
      bs.Perm as ∧ SortedCases (bs.map img.case) ∧
      (∀ i, bs.filter (fun a => (img.case a).id = i) =
        as.filter (fun a => (img.case a).id = i)) ∧
      Ends (fun n => l'.sortCases img n) l' ∧
      (∀ front mid back a b, bs = front ++ a :: (mid ++ b :: back) →
        (img.case a).suite = (img.case b).suite →
        ∀ t ∈ mid, (img.case t).suite = (img.case a).suite) ∧
      ((as.map fun a => (img.case a).id).Nodup →
        ∀ (xs : List Nat) next, (∀ a, a ∈ xs ↔ a ∈ as) →
          ∃ m m' : Links, Ends (fun n => xs.foldlM (fun l x => l.register n (some x)) ⟨none, next⟩) m ∧
            Ends (fun n => m.sortCases img n) m' ∧ Chain m'.next m'.head bs) := by
  obtain ⟨l', bs, hends, hchain, hperm, hcases, -⟩ := sortCases_ends img h
  have hsorted : SortedCases (bs.map img.case) := hcases ▸ sortCases_sorted _
  refine ⟨l', bs, hends, hchain, hperm, hsorted, fun i => ?_,
    sortCases_of_chain_sorted img hchain hsorted, ?_, ?_⟩
  · have hfilter := filter_sortCases (as.map img.case) i
    rw [← hcases, List.filter_map, List.filter_map] at hfilter
    exact img.case_injective.list_map hfilter
  · rintro front mid back a b rfl hsuite t ht
    simp only [List.map_append, List.map_cons] at hsorted
    exact suite_between hsorted hsuite (img.case t) (List.mem_map_of_mem ht)
  · intro hids xs next hxs
    obtain ⟨m, cs, hregister, hchain', hmem⟩ :=
      @foldlM_register_ends xs ⟨none, next⟩ [] rfl
    have hcs : cs.Perm as := (List.perm_ext_iff_of_nodup hchain'.nodup h.nodup).mpr
      fun a => (hmem a).trans ((or_iff_right List.not_mem_nil).trans (hxs a))
    obtain ⟨m', hsort, hchain''⟩ := sortCases_ends_congr img hchain' (hcs.trans hperm.symm)
      ((hcs.map _).nodup_iff.mpr hids) hsorted
    exact ⟨m, m', hregister, hsort, hchain''⟩

end Links

/-- Cases whose suites alternate. -/
def alternating : Image where
  case a :=
    ⟨a, some (CStr.lit (if a = 1 then "B" else "A")), none,
      some (CStr.lit (if a = 0 then "z" else "y")), none, none⟩
  suite a := ⟨a, none, none, none, none⟩
  group a := ⟨a, none, none, none, none, none⟩
  case_addr _ := rfl
  suite_addr _ := rfl
  group_addr _ := rfl

theorem sortCases_canonical_alternating :
    ∃ l' bs, Ends (fun n => Links.sortCases alternating n
        ⟨some 0, fun a => if a < 2 then some (a + 1) else none⟩) l' ∧
      Chain l'.next l'.head bs ∧ bs.Perm [0, 1, 2] ∧
      SortedCases (bs.map alternating.case) ∧
      ∃ m m' : Links, Ends (fun n => [1, 0, 2, 1].foldlM
          (fun l x => l.register n (some x)) ⟨none, fun _ => none⟩) m ∧
        Ends (fun n => m.sortCases alternating n) m' ∧ Chain m'.next m'.head bs := by
  obtain ⟨l', bs, hends, hchain, hperm, hsorted, -, -, -, horder⟩ :=
    @sortCases_canonical alternating ⟨some 0, fun a => if a < 2 then some (a + 1) else none⟩
      [0, 1, 2] ⟨rfl, rfl, rfl, rfl⟩
  exact ⟨l', bs, hends, hchain, hperm, hsorted,
    horder (by decide) [1, 0, 2, 1] (fun _ => none) (by intro a; simp; omega)⟩

end PolyOnTest.Run
