import PolyOnTest.Fff.Fake

/-!
# What a reset leaves behind

`POT_FAKE_RESET` sets the count of the calls and the custom fake back and leaves
the arguments alone.  `Twins` compares such a fake with a new one while both take
the same calls: they agree on the slots that the calls have reached, and each of
them keeps the others.  `potFakeReset_likeNew_iff` reads off when a test cannot
tell them apart, for every history in front of the reset and all calls behind
it.  The four macros that also clear the arguments leave nothing
(`resetMacros_likeNew`).
-/

namespace PolyOnTest.Fff

open CodeLib

section Reset

variable {len : HistoryLen} {C X R F ω : Type} [Zero X] [Columns C len X]

/-- The count in front of call `n`, as long as there is a slot for it. -/
theorem toInt_count {n : Nat} (i : Fin len.toNat) (h : n ≤ i.val) :
    (Int32.ofNat n).toInt = n := by
  have hlt := i.isLt
  have hfits := len.fits
  exact Int32.toInt_ofNat_of_lt (by omega)

namespace Fake

theorem call_of_none {custom : Customs len X R F ω} {f : Fake C R F}
    (h : f.customFake = none) (x : X) (w : ω) :
    f.call custom x w = (f.enter x, w, f.ret) := by
  have henter : (f.enter x).customFake = none := h
  rw [call]
  dsimp only
  rw [henter]
  rfl

end Fake

/-- A fake that was reset and a new one, after the same `n` calls.  `last` and
`base` are what the first one showed at the reset. -/
structure Twins (last : X) (base : Fin len.toNat → X) (n : Nat) (f g : Fake C R F) :
    Prop where
  callCount : f.callCount = Int32.ofNat n ∧ g.callCount = Int32.ofNat n
  customFake : f.customFake = none ∧ g.customFake = none
  first : n = 0 → Columns.last f.args = last ∧ Columns.last g.args = 0
  later : 0 < n → Columns.last f.args = Columns.last g.args
  reached : ∀ i : Fin len.toNat, i.val < n → Columns.slot f.args i = Columns.slot g.args i
  untouched : ∀ i : Fin len.toNat, n ≤ i.val →
    Columns.slot f.args i = base i ∧ Columns.slot g.args i = 0

namespace Twins

variable {last : X} {base : Fin len.toNat → X} {n : Nat} {f g : Fake C R F}

theorem enter (h : Twins last base n f g) (x : X) :
    Twins last base (n + 1) (f.enter x) (g.enter x) where
  callCount := by
    rw [Int32.ofNat_add]
    exact ⟨congrArg (· + 1) h.callCount.1, congrArg (· + 1) h.callCount.2⟩
  customFake := h.customFake
  first := fun h0 => absurd h0 (Nat.succ_ne_zero n)
  later := fun _ => by
    show Columns.last (Columns.record _ x _) = Columns.last (Columns.record _ x _)
    rw [Columns.last_record, Columns.last_record]
  reached := fun i hi => by
    show Columns.slot (Columns.record _ x _) i = Columns.slot (Columns.record _ x _) i
    rw [Columns.slot_record, Columns.slot_record, h.callCount.1, h.callCount.2]
    split_ifs with hslot
    · rfl
    · apply h.reached
      -- The slot of this call is written in both fakes.
      apply Nat.lt_of_le_of_ne (by omega)
      intro heq
      exact hslot (by rw [toInt_count i (by omega), heq])
  untouched := fun i hi => by
    show Columns.slot (Columns.record _ x _) i = _ ∧ Columns.slot (Columns.record _ x _) i = _
    have hslot : (i : Int) ≠ (Int32.ofNat n).toInt := by
      rw [toInt_count i (by omega)]
      omega
    rw [Columns.slot_record, Columns.slot_record, h.callCount.1, h.callCount.2, if_neg hslot,
      if_neg hslot]
    exact h.untouched i (by omega)

/-- The calls, one after the other.  No custom fake is set. -/
theorem run (h : Twins last base n f g) (custom : Customs len X R F ω) (w : ω) (xs : List X) :
    Twins last base (n + xs.length) (f.run custom w (xs.map .call)).state
      (g.run custom w (xs.map .call)).state := by
  induction xs generalizing n f g with
  | nil => exact h
  | cons x xs ih =>
      rw [List.map_cons, Fake.run, Fake.run, Fake.call_of_none h.customFake.1,
        Fake.call_of_none h.customFake.2, List.length_cons, Nat.add_comm xs.length,
        ← Nat.add_assoc]
      exact ih (h.enter x)

/-- What was left of the old calls shows where the new ones have not been. -/
theorem records_iff (h : Twins last base n f g) :
    f.records = g.records ↔ (n = 0 → last = 0) ∧ ∀ i : Fin len.toNat, n ≤ i.val → base i = 0 := by
  rw [Fake.records, Fake.records, h.callCount.1, h.callCount.2, h.customFake.1,
    h.customFake.2]
  simp only [Records.mk.injEq, true_and, and_true]
  constructor
  · rintro ⟨hlast, hslot⟩
    refine ⟨fun h0 => ?_, fun i hi => ?_⟩
    · rw [← (h.first h0).1, hlast, (h.first h0).2]
    · rw [← (h.untouched i hi).1, hslot, (h.untouched i hi).2]
  · rintro ⟨hlast, hbase⟩
    refine ⟨?_, funext fun i => ?_⟩
    · rcases Nat.eq_zero_or_pos n with h0 | hpos
      · rw [(h.first h0).1, (h.first h0).2, hlast h0]
      · exact h.later hpos
    · rcases Nat.lt_or_ge i.val n with hi | hi
      · exact h.reached i hi
      · rw [(h.untouched i hi).1, (h.untouched i hi).2, hbase i hi]

end Twins

/-- After the calls `later` the fake shows what a new one shows after them. -/
def LikeNew (custom : Customs len X R F ω) (fresh f : Fake C R F) (w : ω) (later : List X) :
    Prop :=
  (f.run custom w (later.map .call)).state.records =
    (fresh.run custom w (later.map .call)).state.records

/-- The fake shows no argument that the next `n` calls do not replace. -/
structure CleanFrom (f : Fake C R F) (n : Nat) : Prop where
  last : n = 0 → Columns.last f.args = 0
  slot : ∀ i : Fin len.toNat, n ≤ i.val → Columns.slot f.args i = 0

theorem twins_potFakeReset (f : Fake C R F) (d : R) :
    Twins (Columns.last f.args) (Columns.slot f.args) 0 f.potFakeReset (Fake.define d) where
  callCount := ⟨rfl, rfl⟩
  customFake := ⟨rfl, rfl⟩
  first := fun _ => ⟨rfl, Columns.last_blank⟩
  later := fun h => absurd h (Nat.lt_irrefl 0)
  reached := fun i hi => absurd hi (Nat.not_lt_zero i.val)
  untouched := fun i _ => ⟨rfl, Columns.slot_blank i⟩

theorem likeNew_iff (custom : Customs len X R F ω) (f : Fake C R F) (d : R) (w : ω)
    (later : List X) :
    LikeNew custom (Fake.define d) f.potFakeReset w later ↔ CleanFrom f later.length := by
  have htwins := (twins_potFakeReset f d).run custom w later
  rw [LikeNew, htwins.records_iff, Nat.zero_add]
  exact ⟨fun h => ⟨h.1, h.2⟩, fun h => ⟨h.last, h.slot⟩⟩

/-- A reset makes the fake like new, after every history and for all calls that
follow.  The custom fakes of the history may call the function again. -/
def ResetLikeNew (fresh : Fake C R F) : Prop :=
  ∀ (ω : Type) (custom : Customs len X R F ω) (w : ω) (hist : List (Op X R F))
    (later : List X),
    LikeNew custom fresh (fresh.run custom w hist).state.potFakeReset
      (fresh.run custom w hist).world later

/-- What it takes for a reset to do that. -/
def ResetExact (fresh : Fake C R F) : Prop :=
  ∀ (ω : Type) (custom : Customs len X R F ω) (w : ω) (hist : List (Op X R F))
    (later : List X),
    LikeNew custom fresh (fresh.run custom w hist).state.potFakeReset
        (fresh.run custom w hist).world later ↔
      CleanFrom (fresh.run custom w hist).state later.length

theorem resetExact_define (d : R) : ResetExact (Fake.define d : Fake C R F) :=
  fun _ custom _ _ later => likeNew_iff custom _ d _ later

theorem resetAll_likeNew (custom : Customs len X R F ω) (f : Fake C R F) (d e : R) (w : ω)
    (later : List X) : LikeNew custom (Fake.define d) (f.resetAll e) w later := by
  have hreset : (f.resetAll e).potFakeReset = f.resetAll e := rfl
  rw [← hreset, likeNew_iff]
  exact ⟨fun _ => Columns.last_clear f.args, fun i _ => Columns.slot_clear f.args i⟩

end Reset

section Shapes

variable {len : HistoryLen} {A B R F : Type} [Zero A] [Zero B]

/-- A reset fake shows what a new one shows exactly when the history in front of
the reset left nothing that the calls behind it do not replace. -/
theorem potFakeReset_likeNew_iff :
    (∀ d : R, ResetExact (potFakeValueFunc1 len d : Fake (Column len A) R F)) ∧
    (∀ d : R, ResetExact (potFakeValueFunc2 len d : Fake (Column len A × Column len B) R F)) ∧
    ResetExact (potFakeVoidFunc1 len : Fake (Column len A) Unit F) ∧
    ResetExact (potFakeVoidFunc2 len : Fake (Column len A × Column len B) Unit F) :=
  ⟨resetExact_define, resetExact_define, resetExact_define (), resetExact_define ()⟩

/-- The macros that clear the arguments make any fake like new. -/
theorem resetMacros_likeNew {ω : Type} (w : ω) :
    (∀ (custom : Customs len A R F ω) (f : Fake (Column len A) R F) (d e : R)
      (later : List A),
      LikeNew custom (potFakeValueFunc1 len d) (potFakeResetValue1 f e) w later) ∧
    (∀ (custom : Customs len (A × B) R F ω) (f : Fake (Column len A × Column len B) R F)
      (d e : R) (later : List (A × B)),
      LikeNew custom (potFakeValueFunc2 len d) (potFakeResetValue2 f e) w later) ∧
    (∀ (custom : Customs len A Unit F ω) (f : Fake (Column len A) Unit F) (later : List A),
      LikeNew custom (potFakeVoidFunc1 len) (potFakeResetVoid1 f) w later) ∧
    (∀ (custom : Customs len (A × B) Unit F ω)
      (f : Fake (Column len A × Column len B) Unit F) (later : List (A × B)),
      LikeNew custom (potFakeVoidFunc2 len) (potFakeResetVoid2 f) w later) :=
  ⟨fun custom f d e later => resetAll_likeNew custom f d e w later,
    fun custom f d e later => resetAll_likeNew custom f d e w later,
    fun custom f later => resetAll_likeNew custom f () () w later,
    fun custom f later => resetAll_likeNew custom f () () w later⟩

end Shapes

/-- One call in front of the reset, none behind it: the last arguments are still
there. -/
theorem potFakeReset_keeps_arguments :
    ¬ ResetLikeNew (potFakeVoidFunc2 .default :
      Fake (Column .default Int32 × Column .default Int32) Unit Unit) := by
  intro h
  have hsame : (1, 25) = ((0, 0) : Int32 × Int32) := congrArg Records.last
    (h Unit (fun _ _ _ _ _ => ⟨[], (), ()⟩) () [.call (1, 25)] [])
  exact absurd hsame (by decide)

end PolyOnTest.Fff
