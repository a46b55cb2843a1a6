import PolyOnTest.CodeLib.WordMemory
import PolyOnTest.Target.Syscalls

/-!
# The startup code of the target

`Reset_Handler` in front of the constructors: it copies the words of `.data` from the flash
and clears those of `.bss`, from one symbol of the linker script to the next.

`startup_apply` says what each byte of the memory is behind it.  What the RAM held at the
reset is gone from `.data` and `.bss` (`startup_agrees`).
-/

namespace PolyOnTest.Target

open CodeLib.FlatMemory CodeLib.WordMemory

/-- The symbols of the linker script.  The flash is below the RAM, `.data` is in front of
`.bss`, and both are whole words. -/
structure Layout where
  ram : Nat
  initStart : Nat
  initEnd : Nat
  sidata : Nat
  sdata : Nat
  edata : Nat
  sbss : Nat
  ebss : Nat
  init_le : initEnd ≤ ram
  sidata_le : sidata + (edata - sdata) ≤ ram
  ram_pos : 0 < ram
  ram_le : ram ≤ sdata
  data_le : sdata ≤ edata
  data_bss : edata ≤ sbss
  bss_le : sbss ≤ ebss
  ebss_le : ebss ≤ 2 ^ 32
  data_words : 4 ∣ edata - sdata
  bss_words : 4 ∣ ebss - sbss

/-- The loop that copies `.data`. -/
def copyData (edata src dst : Nat) (m : Memory) : Memory :=
  if dst < edata then copyData edata (src + 4) (dst + 4) (setWord m dst (word m src)) else m
termination_by edata - dst

/-- The loop that clears `.bss`. -/
def zeroBss (ebss dst : Nat) (m : Memory) : Memory :=
  if dst < ebss then zeroBss ebss (dst + 4) (setWord m dst 0) else m
termination_by ebss - dst

/-- `Reset_Handler` in front of `call_constructors`. -/
def startup (l : Layout) (m : Memory) : Memory :=
  zeroBss l.ebss l.sbss (copyData l.edata l.sidata l.sdata m)

/-! ## The loops -/

/-- The loop over the words copies their bytes, by induction on the words that are left. -/
theorem copyData_eq {src dst : Nat} {k : Nat} (hfar : src + 4 * k ≤ dst) (m : Memory) :
    copyData (dst + 4 * k) src dst m = copy (4 * k) src dst m := by
  induction k generalizing src dst m with
  | zero =>
      rw [copyData, if_neg (by omega)]
      rfl
  | succ k ih =>
      have hnext := ih (show src + 4 + 4 * k ≤ dst + 4 by omega) (setWord m dst (word m src))
      rw [copyData, if_pos (by omega), show dst + 4 * (k + 1) = dst + 4 + 4 * k by omega, hnext,
        setWord_word m (by omega), show 4 * (k + 1) = 4 + 4 * k by omega, copy_add]

theorem zeroBss_eq (dst k : Nat) (m : Memory) :
    zeroBss (dst + 4 * k) dst m = fill 0 (4 * k) dst m := by
  induction k generalizing dst m with
  | zero =>
      rw [zeroBss, if_neg (by omega)]
      rfl
  | succ k ih =>
      have hnext := ih (dst + 4) (setWord m dst 0)
      rw [zeroBss, if_pos (by omega), show dst + 4 * (k + 1) = dst + 4 + 4 * k by omega, hnext,
        setWord_zero, show 4 * (k + 1) = 4 + 4 * k by omega, fill_add]

/-! ## The memory behind them -/

section Layout

variable (l : Layout) {m m' : Memory} {a : Nat}

/-- What the bytes of the memory are. -/
theorem startup_apply (m : Memory) (a : Nat) :
    startup l m a =
      if l.sbss ≤ a ∧ a < l.ebss then 0
      else if l.sdata ≤ a ∧ a < l.edata then m (l.sidata + (a - l.sdata))
      else m a := by
  have hram := l.ram_le
  have hflash := l.sidata_le
  have hdata := l.data_le
  have hbss := l.bss_le
  obtain ⟨k, hk⟩ := l.data_words
  obtain ⟨j, hj⟩ := l.bss_words
  have hcopy : copyData l.edata l.sidata l.sdata m = copy (4 * k) l.sidata l.sdata m := by
    have hloop := copyData_eq (show l.sidata + 4 * k ≤ l.sdata by omega) m
    rwa [show l.sdata + 4 * k = l.edata by omega] at hloop
  have hzero : ∀ m, zeroBss l.ebss l.sbss m = fill 0 (4 * j) l.sbss m := by
    intro m
    have hloop := zeroBss_eq l.sbss j m
    rwa [show l.sbss + 4 * j = l.ebss by omega] at hloop
  unfold startup
  rw [hcopy, hzero, fill_apply, copy_apply m (by omega),
    show l.sbss + 4 * j = l.ebss by omega, show l.sdata + 4 * k = l.edata by omega]

/-- The flash of two memories is the same. -/
def SameFlash (m m' : Memory) : Prop := ∀ a < l.ram, m a = m' a

/-- The bytes that the flash determines: those of the flash, of `.data` and of `.bss`. -/
def Determined (a : Nat) : Prop :=
  a < l.ram ∨ (l.sdata ≤ a ∧ a < l.edata) ∨ (l.sbss ≤ a ∧ a < l.ebss)

theorem startup_flash (m : Memory) (h : a < l.ram) : startup l m a = m a := by
  have hram := l.ram_le
  have hdata := l.data_le
  have hbss := l.data_bss
  rw [startup_apply, if_neg (by omega), if_neg (by omega)]

theorem startup_bss (m : Memory) (h : l.sbss ≤ a ∧ a < l.ebss) : startup l m a = 0 := by
  rw [startup_apply, if_pos h]

theorem startup_agrees (h : SameFlash l m m') (ha : Determined l a) :
    startup l m a = startup l m' a := by
  have hflash := l.sidata_le
  rw [startup_apply, startup_apply]
  split_ifs with hbss hdata
  · rfl
  · exact h _ (by omega)
  · rcases ha with ha | ha | ha
    · exact h a ha
    · exact absurd ha hdata
    · exact absurd ha hbss

end Layout

end PolyOnTest.Target
