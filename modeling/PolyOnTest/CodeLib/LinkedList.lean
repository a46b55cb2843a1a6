import Mathlib.Data.List.Nodup
import Mathlib.Logic.Function.Basic
import PolyOnTest.CodeLib.Fuel

/-!
# Singly linked lists in memory

Cells with a link to the next cell.  The links are a function on the addresses,
so a list is nothing but a way through it.  `Seg next p as q` says that the way
from the link `p` takes the cells `as` and ends in front of the link `q`, and
`Chain` is a way to the null link.

There are three groups.

* Ways.  They are unique (`Chain.unique`), and no cell is twice on a chain
  (`Chain.nodup`), because a way that comes back to a cell never ends.
* Writes.  A write to a cell outside of a way keeps the way (`Seg.update`), and
  the two writes of an insertion put a cell in front of a chain (`Chain.push`) or
  behind one of its cells (`Chain.insert`).
* Searches.  `findFrom` is the loop that follows the links up to the first cell
  that passes a test, and it ends on every chain.
-/

namespace CodeLib.LinkedList

open CodeLib.Fuel

variable {A : Type} {next : A → Option A}

/-- The way from the link `p` to the link `q` takes the cells `as`. -/
def Seg (next : A → Option A) : Option A → List A → Option A → Prop
  | p, [], q => p = q
  | p, a :: as, q => p = some a ∧ Seg next (next a) as q

/-- The way from the link `p` to the end takes the cells `as`. -/
def Chain (next : A → Option A) (p : Option A) (as : List A) : Prop :=
  Seg next p as none

/-! ## Ways -/

theorem seg_append {p q : Option A} {as bs : List A} :
    Seg next p (as ++ bs) q ↔ ∃ m, Seg next p as m ∧ Seg next m bs q := by
  induction as generalizing p with
  | nil => simp [Seg]
  | cons a as ih =>
      rw [List.cons_append, Seg, ih]
      constructor
      · rintro ⟨hp, m, has, hbs⟩
        exact ⟨m, ⟨hp, has⟩, hbs⟩
      · rintro ⟨m, ⟨hp, has⟩, hbs⟩
        exact ⟨hp, m, has, hbs⟩

theorem chain_nil_iff {p : Option A} : Chain next p [] ↔ p = none := Iff.rfl

/-- A chain from one of its cells on. -/
theorem Chain.suffix {p : Option A} {front : List A} {a : A} {back : List A}
    (h : Chain next p (front ++ a :: back)) : Chain next (some a) (a :: back) := by
  obtain ⟨m, -, hback⟩ := seg_append.mp h
  obtain rfl := hback.1
  exact hback

theorem Chain.unique {p : Option A} {as bs : List A} (has : Chain next p as)
    (hbs : Chain next p bs) : as = bs := by
  induction as generalizing p bs with
  | nil =>
      cases bs with
      | nil => rfl
      | cons b bs => cases (chain_nil_iff.mp has).symm.trans hbs.1
  | cons a as ih =>
      cases bs with
      | nil => cases has.1.symm.trans (chain_nil_iff.mp hbs)
      | cons b bs =>
        obtain rfl : a = b := Option.some.inj (has.1.symm.trans hbs.1)
        rw [ih has.2 hbs.2]

/-- The cells determine the link to the first one and the links between them. -/
theorem Chain.head_eq {next' : A → Option A} {p q : Option A} {as : List A}
    (h : Chain next p as) (h' : Chain next' q as) : p = q := by
  cases as with
  | nil => exact (chain_nil_iff.mp h).trans (chain_nil_iff.mp h').symm
  | cons a as => exact h.1.trans h'.1.symm

theorem Chain.next_eq {next' : A → Option A} {p q : Option A} {as : List A}
    (h : Chain next p as) (h' : Chain next' q as) {a : A} (ha : a ∈ as) :
    next a = next' a := by
  obtain ⟨front, back, rfl⟩ := List.append_of_mem ha
  exact Chain.head_eq h.suffix.2 h'.suffix.2

/-- A chain has no cell twice: it would be its own proper end. -/
theorem Chain.nodup {p : Option A} {as : List A} (h : Chain next p as) : as.Nodup := by
  induction as generalizing p with
  | nil => exact List.nodup_nil
  | cons a as ih =>
      refine List.nodup_cons.mpr ⟨fun hmem => ?_, ih h.2⟩
      obtain ⟨front, back, rfl⟩ := List.append_of_mem hmem
      have hinner : Chain next (some a) (a :: back) := Chain.suffix h.2
      have houter : Chain next (some a) (a :: (front ++ a :: back)) := ⟨rfl, h.2⟩
      have hlen := congrArg List.length (hinner.unique houter)
      simp only [List.length_cons, List.length_append] at hlen
      omega

/-! ## Writes -/

theorem Seg.congr {next' : A → Option A} {p q : Option A} {as : List A}
    (h : Seg next p as q) (hsame : ∀ a ∈ as, next' a = next a) : Seg next' p as q := by
  induction as generalizing p with
  | nil => exact h
  | cons a as ih =>
      refine ⟨h.1, ?_⟩
      rw [hsame a List.mem_cons_self]
      exact ih h.2 fun b hb => hsame b (List.mem_cons_of_mem a hb)

section Writes

variable [DecidableEq A]

theorem Seg.update {p q : Option A} {as : List A} (h : Seg next p as q) {x : A}
    (hx : x ∉ as) (v : Option A) : Seg (Function.update next x v) p as q :=
  h.congr fun _ ha => Function.update_of_ne (ne_of_mem_of_not_mem ha hx) v next

/-- A new cell in front of a chain. -/
theorem Chain.push {p : Option A} {as : List A} (h : Chain next p as) {x : A} (hx : x ∉ as) :
    Chain (Function.update next x p) (some x) (x :: as) := by
  refine ⟨rfl, ?_⟩
  rw [Function.update_self]
  exact h.update hx p

/-- A new cell behind a cell of a chain. -/
theorem Chain.insert {p : Option A} {front back : List A} {s : A}
    (h : Chain next p (front ++ s :: back)) {x : A} (hx : x ∉ front ++ s :: back) :
    Chain (Function.update (Function.update next x (next s)) s (some x)) p
      (front ++ s :: x :: back) := by
  have hnodup := List.nodup_append.mp h.nodup
  have hsfront : s ∉ front := fun hm => hnodup.2.2 s hm s List.mem_cons_self rfl
  have hsback : s ∉ back := (List.nodup_cons.mp hnodup.2.1).1
  simp only [List.mem_append, List.mem_cons, not_or] at hx
  obtain ⟨hxfront, hxs, hxback⟩ := hx
  obtain ⟨m, hfront, rfl, hback⟩ := seg_append.mp h
  refine seg_append.mpr ⟨some s, (hfront.update hxfront _).update hsfront _, rfl, ?_, ?_⟩
  · rw [Function.update_self]
  · rw [Function.update_of_ne hxs, Function.update_self]
    exact (Seg.update hback hxback _).update hsback _

end Writes

/-! ## Searches -/

/-- The first cell from the link `p` on that passes the test, with `n` units of
fuel. -/
def findFrom (next : A → Option A) (test : A → Bool) : Nat → Option A → Option (Option A)
  | 0, _ => none
  | _ + 1, none => some none
  | n + 1, some a => if test a then some (some a) else findFrom next test n (next a)

/-- A search ends on every chain. -/
theorem findFrom_ends (test : A → Bool) {p : Option A} {as : List A}
    (h : Chain next p as) : Ends (fun n => findFrom next test n p) (as.find? test) := by
  induction as generalizing p with
  | nil =>
      obtain rfl := chain_nil_iff.mp h
      exact Ends.of_succ (Ends.pure none)
  | cons a as ih =>
      obtain ⟨rfl, hrest⟩ := h
      refine Ends.of_succ ?_
      simp only [findFrom, List.find?_cons]
      cases test a with
      | true => exact Ends.pure (some a)
      | false => exact ih hrest

end CodeLib.LinkedList
