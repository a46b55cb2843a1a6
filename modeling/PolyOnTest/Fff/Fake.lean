import Mathlib.Algebra.Group.Nat.Defs
import Mathlib.Algebra.Notation.Prod
import PolyOnTest.CodeLib.StaticArray

/-!
# Fakes

The fakes of `polytest_fff.h`.  A macro defines the fake of one function: static
variables for the return value, the number of calls, the arguments and a custom
fake, and the function, which records its call in them.

The four macros for functions with arguments differ in the number of arguments
and in whether there is a return value.  `Columns` is what the rest needs of the
variables for the arguments, and a fake without return value is a fake that
returns `Unit`.

A custom fake is code of the test.  It can read the variables, change them, and
call the function again.  What it does to them is the list `touches` of its run,
in which a call of its own stands with everything done in it.
-/

namespace PolyOnTest.Fff

open CodeLib

/-- `POT_FFF_ARG_HISTORY_LEN`, an `int`. -/
structure HistoryLen where
  toNat : Nat
  fits : toNat < 2 ^ 31

/-- The length that holds unless the user defines another one. -/
def HistoryLen.default : HistoryLen := ⟨10, by decide⟩

/-! ## The variables for the arguments -/

/-- `argN_val` and `argN_history`. -/
structure Column (len : HistoryLen) (A : Type) where
  val : A
  history : StaticArray len.toNat A

namespace Column

variable {len : HistoryLen} {A : Type}

/-- The variables before the program starts. -/
def blank [Zero A] : Column len A := ⟨0, .zeroed⟩

/-- What a call does for an argument, where `callCount` is the count in front of
the call. -/
def record (callCount : Int32) (a : A) (c : Column len A) : Column len A where
  val := a
  history :=
    if callCount.toInt < len.toNat then c.history.store callCount.toInt a else c.history

/-- The zero-fill of the macros that reset a column. -/
def clear [Zero A] (c : Column len A) : Column len A := ⟨0, c.history.fill 0⟩

theorem record_cells (n : Int32) (a : A) (c : Column len A) (i : Fin len.toNat) :
    (c.record n a).history.cells i = if (i : Int) = n.toInt then a else c.history.cells i := by
  have hlt := i.isLt
  unfold record
  dsimp only
  split_ifs with hroom hi hi
  · rw [StaticArray.store_cells, if_pos hi]
  · rw [StaticArray.store_cells, if_neg hi]
  · omega
  · rfl

theorem record_overrun {n : Int32} (h : 0 ≤ n.toInt) (a : A) (c : Column len A) :
    (c.record n a).history.overrun = c.history.overrun := by
  unfold record
  dsimp only
  split_ifs with hroom
  · exact StaticArray.store_overrun h hroom a
  · rfl

end Column

/-- The variables `C` for arguments `X`, with histories of `len` entries.  A call
sets what the variables show at its own number and nothing else. -/
class Columns (C : Type) (len : outParam HistoryLen) (X : outParam Type) [Zero X] where
  blank : C
  record : Int32 → X → C → C
  clear : C → C
  last : C → X
  slot : C → Fin len.toNat → X
  overrun : C → Bool
  last_blank : last blank = 0
  slot_blank : ∀ i, slot blank i = 0
  overrun_blank : overrun blank = false
  last_record : ∀ n x c, last (record n x c) = x
  slot_record : ∀ n x c i,
    slot (record n x c) i = if (i : Int) = n.toInt then x else slot c i
  overrun_record : ∀ n x c, 0 ≤ n.toInt → overrun (record n x c) = overrun c
  last_clear : ∀ c, last (clear c) = 0
  slot_clear : ∀ c i, slot (clear c) i = 0
  overrun_clear : ∀ c, overrun (clear c) = overrun c

attribute [simp] Columns.last_blank Columns.slot_blank Columns.overrun_blank
  Columns.last_record Columns.last_clear Columns.slot_clear Columns.overrun_clear

/-- One argument. -/
instance {len : HistoryLen} {A : Type} [Zero A] : Columns (Column len A) len A where
  blank := Column.blank
  record := Column.record
  clear := Column.clear
  last c := c.val
  slot c i := c.history.cells i
  overrun c := c.history.overrun
  last_blank := rfl
  slot_blank _ := rfl
  overrun_blank := rfl
  last_record _ _ _ := rfl
  slot_record := Column.record_cells
  overrun_record _ x c h := Column.record_overrun h x c
  last_clear _ := rfl
  slot_clear c i := StaticArray.fill_cells c.history 0 i
  overrun_clear c := StaticArray.fill_overrun c.history 0

/-- Two arguments. -/
instance {len : HistoryLen} {A B : Type} [Zero A] [Zero B] :
    Columns (Column len A × Column len B) len (A × B) where
  blank := (Column.blank, Column.blank)
  record n x c := (c.1.record n x.1, c.2.record n x.2)
  clear c := (c.1.clear, c.2.clear)
  last c := (c.1.val, c.2.val)
  slot c i := (c.1.history.cells i, c.2.history.cells i)
  overrun c := c.1.history.overrun || c.2.history.overrun
  last_blank := rfl
  slot_blank _ := rfl
  overrun_blank := rfl
  last_record _ _ _ := rfl
  slot_record n x c i := by
    rw [Column.record_cells, Column.record_cells]
    split_ifs <;> rfl
  overrun_record n x c h := by
    rw [Column.record_overrun h, Column.record_overrun h]
  last_clear _ := rfl
  slot_clear c i :=
    Prod.ext (StaticArray.fill_cells c.1.history 0 i) (StaticArray.fill_cells c.2.history 0 i)
  overrun_clear c :=
    congrArg₂ or (StaticArray.fill_overrun c.1.history 0) (StaticArray.fill_overrun c.2.history 0)

/-! ## The fake -/

/-- The static variables of a fake: `fn_return`, `fn_call_count`, the arguments
and `fn_custom_fake`. -/
structure Fake (C R F : Type) where
  ret : R
  callCount : Int32
  args : C
  customFake : Option F

/-- An assignment to the variables that a test or a custom fake makes. -/
inductive Assign (R F : Type)
  | setReturn (r : R)
  | setCustomFake (g : Option F)
  | reset (d : R)

/-- Something that happens to the variables.  `enter` is what the function does
in front of the custom fake. -/
inductive Touch (X R F : Type)
  | enter (x : X)
  | assign (a : Assign R F)

/-- What a test does with a fake. -/
inductive Op (X R F : Type)
  | call (x : X)
  | assign (a : Assign R F)

/-- What the variables show of the calls. -/
structure Records (len : HistoryLen) (X F : Type) where
  callCount : Int
  last : X
  slot : Fin len.toNat → X
  customFake : Option F

/-- The run of a custom fake, in a program with the state `ω`. -/
structure CustomRun (X R F ω : Type) where
  touches : List (Touch X R F)
  result : R
  world : ω

/-- The code of the custom fakes.  It sees the variables, the arguments and the
state of the program. -/
abbrev Customs (len : HistoryLen) (X R F ω : Type) :=
  F → Records len X F → R → X → ω → CustomRun X R F ω

/-- A state with the values that the calls returned. -/
structure Outcome (S R ω : Type) where
  state : S
  world : ω
  returned : List R

namespace Fake

variable {len : HistoryLen} {C X R F ω : Type} [Zero X] [Columns C len X]

/-- The static variables as a macro defines them. -/
def define (d : R) : Fake C R F := ⟨d, 0, Columns.blank, none⟩

/-- The function up to the custom fake. -/
def enter (f : Fake C R F) (x : X) : Fake C R F :=
  { f with args := Columns.record f.callCount x f.args, callCount := f.callCount + 1 }

/-- `POT_FAKE_RESET`, which is also `RESET_FAKE`. -/
def potFakeReset (f : Fake C R F) : Fake C R F :=
  { f with callCount := 0, customFake := none }

/-- What `POT_FAKE_RESET_VALUE1` and its three siblings have in common. -/
def resetAll (f : Fake C R F) (d : R) : Fake C R F :=
  { f.potFakeReset with ret := d, args := Columns.clear f.args }

/-- An assignment. -/
def assign (f : Fake C R F) : Assign R F → Fake C R F
  | .setReturn r => { f with ret := r }
  | .setCustomFake g => { f with customFake := g }
  | .reset d => f.resetAll d

/-- Something that happens to the variables. -/
def touch (f : Fake C R F) : Touch X R F → Fake C R F
  | .enter x => f.enter x
  | .assign a => f.assign a

/-- What the variables show. -/
def records (f : Fake C R F) : Records len X F :=
  ⟨f.callCount.toInt, Columns.last f.args, Columns.slot f.args, f.customFake⟩

/-- The function: the fake, the state of the program and the return value behind
the call. -/
def call (custom : Customs len X R F ω) (f : Fake C R F) (x : X) (w : ω) :
    Fake C R F × ω × R :=
  let f := f.enter x
  match f.customFake with
  | some g =>
      let run := custom g f.records f.ret x w
      (run.touches.foldl touch f, run.world, run.result)
  | none => (f, w, f.ret)

/-- A sequence of calls and assignments. -/
def run (custom : Customs len X R F ω) (f : Fake C R F) (w : ω) :
    List (Op X R F) → Outcome (Fake C R F) R ω
  | [] => ⟨f, w, []⟩
  | .assign a :: ops => run custom (f.assign a) w ops
  | .call x :: ops =>
      let (f, w, r) := f.call custom x w
      let rest := run custom f w ops
      { rest with returned := r :: rest.returned }

end Fake

/-! ## The macros -/

section Macros

variable (len : HistoryLen) {A B R F : Type} [Zero A] [Zero B]

/-- `POT_FAKE_VALUE_FUNC1` -/
def potFakeValueFunc1 (d : R) : Fake (Column len A) R F := .define d

/-- `POT_FAKE_VALUE_FUNC2` -/
def potFakeValueFunc2 (d : R) : Fake (Column len A × Column len B) R F := .define d

/-- `POT_FAKE_VOID_FUNC1` -/
def potFakeVoidFunc1 : Fake (Column len A) Unit F := .define ()

/-- `POT_FAKE_VOID_FUNC2` -/
def potFakeVoidFunc2 : Fake (Column len A × Column len B) Unit F := .define ()

variable {len}

/-- `POT_FAKE_RESET_VALUE1` -/
def potFakeResetValue1 (f : Fake (Column len A) R F) (d : R) : Fake (Column len A) R F :=
  f.resetAll d

/-- `POT_FAKE_RESET_VALUE2` -/
def potFakeResetValue2 (f : Fake (Column len A × Column len B) R F) (d : R) :
    Fake (Column len A × Column len B) R F :=
  f.resetAll d

/-- `POT_FAKE_RESET_VOID1` -/
def potFakeResetVoid1 (f : Fake (Column len A) Unit F) : Fake (Column len A) Unit F :=
  f.resetAll ()

/-- `POT_FAKE_RESET_VOID2` -/
def potFakeResetVoid2 (f : Fake (Column len A × Column len B) Unit F) :
    Fake (Column len A × Column len B) Unit F :=
  f.resetAll ()

end Macros

end PolyOnTest.Fff
