import Mathlib.Data.List.Basic

/-!
# Self-delimiting encodings

An encoding is self-delimiting when a text that starts with a code word says
which word it is and where it ends.  Such encodings are injective, and they can
be put next to each other.

* `SelfDelimiting.of_read` and `SelfDelimiting.marked` are two ways to get one: a
  function that reads a code word back, and a mark behind words that do not have
  it.
* `SelfDelimiting.pair`, `SelfDelimiting.before` and `SelfDelimiting.after` build
  them from smaller ones and from fixed words.
* `SelfDelimiting.list` is the encoding of a list, with a word behind it that
  starts like no code word (`Apart`).
* `SelfDelimiting.option` has one fixed word that starts like no code word.
-/

namespace CodeLib.Encoding

variable {A B C : Type}

/-- A text that starts with a code word says which one it is and where it ends. -/
def SelfDelimiting (f : A → List B) : Prop :=
  ∀ ⦃a b xs ys⦄, f a ++ xs = f b ++ ys → a = b ∧ xs = ys

/-- No text starts with both words. -/
def Apart (u v : List B) : Prop := ∀ xs ys, u ++ xs ≠ v ++ ys

theorem Apart.of_head {b c : B} (h : b ≠ c) (u v : List B) : Apart (b :: u) (c :: v) :=
  fun _ _ heq => h (List.cons.inj heq).1

theorem Apart.append {u v : List B} (h : Apart u v) (u' v' : List B) :
    Apart (u ++ u') (v ++ v') := by
  intro xs ys heq
  rw [List.append_assoc, List.append_assoc] at heq
  exact h _ _ heq

theorem Apart.cons {u v : List B} (h : Apart u v) (b : B) : Apart (b :: u) (b :: v) :=
  fun xs ys heq => h xs ys (List.cons.inj heq).2

variable {f : A → List B} {g : C → List B}

theorem SelfDelimiting.injective (h : SelfDelimiting f) : Function.Injective f :=
  fun a b heq => (@h a b [] [] (congrArg (· ++ []) heq)).1

/-- Code words that a function reads off the front of a text. -/
theorem SelfDelimiting.of_read {read : List B → Option (A × List B)}
    (h : ∀ a xs, read (f a ++ xs) = some (a, xs)) : SelfDelimiting f := by
  intro a b xs ys heq
  have hread := h a xs
  rw [heq, h b ys, Option.some.injEq, Prod.mk.injEq] at hread
  exact ⟨hread.1.symm, hread.2.symm⟩

/-- The first mark ends the word in front of it. -/
theorem append_mark_inj {mark : B} {u v xs ys : List B} (hu : mark ∉ u) (hv : mark ∉ v)
    (h : u ++ mark :: xs = v ++ mark :: ys) : u = v ∧ xs = ys := by
  rcases List.append_eq_append_iff.mp h with ⟨w, rfl, hw⟩ | ⟨w, rfl, hw⟩
  · cases w with
    | nil => exact ⟨(List.append_nil u).symm, (List.cons.inj hw).2⟩
    | cons b w =>
      obtain ⟨rfl, -⟩ := List.cons.inj hw
      exact absurd (List.mem_append_right u List.mem_cons_self) hv
  · cases w with
    | nil => exact ⟨List.append_nil v, (List.cons.inj hw).2.symm⟩
    | cons b w =>
      obtain ⟨rfl, -⟩ := List.cons.inj hw
      exact absurd (List.mem_append_right v List.mem_cons_self) hu

/-- Words without a mark, and the mark behind them. -/
theorem SelfDelimiting.marked {mark : B} (hf : Function.Injective f)
    (hmark : ∀ a, mark ∉ f a) : SelfDelimiting fun a => f a ++ [mark] := by
  intro a b xs ys heq
  simp only [List.append_assoc, List.singleton_append] at heq
  obtain ⟨hword, hrest⟩ := append_mark_inj (hmark a) (hmark b) heq
  exact ⟨hf hword, hrest⟩

theorem SelfDelimiting.pair (hf : SelfDelimiting f) (hg : SelfDelimiting g) :
    SelfDelimiting fun x : A × C => f x.1 ++ g x.2 := by
  intro x y xs ys heq
  simp only [List.append_assoc] at heq
  obtain ⟨hfirst, hrest⟩ := hf heq
  obtain ⟨hsecond, htail⟩ := hg hrest
  exact ⟨Prod.ext hfirst hsecond, htail⟩

/-- A fixed word in front of the code words. -/
theorem SelfDelimiting.after (w : List B) (h : SelfDelimiting f) :
    SelfDelimiting fun a => w ++ f a := by
  intro a b xs ys heq
  simp only [List.append_assoc, List.append_cancel_left_eq] at heq
  exact h heq

/-- A fixed word behind the code words. -/
theorem SelfDelimiting.before (h : SelfDelimiting f) (w : List B) :
    SelfDelimiting fun a => f a ++ w := by
  intro a b xs ys heq
  simp only [List.append_assoc] at heq
  obtain ⟨hcode, hrest⟩ := h heq
  exact ⟨hcode, List.append_cancel_left hrest⟩

/-- A list of code words with a word behind it that starts like none of them. -/
theorem SelfDelimiting.list (h : SelfDelimiting f) {stop : List B}
    (hstop : ∀ a, Apart (f a) stop) : SelfDelimiting fun as : List A => as.flatMap f ++ stop := by
  intro as
  induction as with
  | nil =>
      intro bs xs ys heq
      cases bs with
      | nil => exact ⟨rfl, List.append_cancel_left heq⟩
      | cons b bs =>
        simp only [List.flatMap_nil, List.nil_append, List.flatMap_cons, List.append_assoc] at heq
        exact absurd heq.symm (hstop b _ _)
  | cons a as ih =>
      intro bs xs ys heq
      simp only [List.flatMap_cons, List.append_assoc] at heq
      cases bs with
      | nil => exact absurd heq (hstop a _ _)
      | cons b bs =>
        simp only [List.flatMap_cons, List.append_assoc] at heq
        obtain ⟨rfl, hrest⟩ := h heq
        simp only [← List.append_assoc] at hrest
        obtain ⟨rfl, htail⟩ := ih hrest
        exact ⟨rfl, htail⟩

/-- Code words, or a word that starts like none of them. -/
theorem SelfDelimiting.option (h : SelfDelimiting f) {none' : List B}
    (hnone : ∀ a, Apart (f a) none') :
    SelfDelimiting fun o : Option A => (o.map f).getD none' := by
  intro o o' xs ys heq
  cases o with
  | none =>
    cases o' with
    | none => exact ⟨rfl, List.append_cancel_left heq⟩
    | some b => exact absurd heq.symm (hnone b ys xs)
  | some a =>
    cases o' with
    | none => exact absurd heq (hnone a xs ys)
    | some b =>
      obtain ⟨rfl, hrest⟩ := h heq
      exact ⟨rfl, hrest⟩

end CodeLib.Encoding
