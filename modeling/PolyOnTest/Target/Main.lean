import PolyOnTest.Cli.Boards
import PolyOnTest.Run.Integrity
import PolyOnTest.Target.Boot
import PolyOnTest.Target.Numbers

/-!
# From the reset to the exit code

`main.c` of the QEMU example: the writer sends the bytes of a message one by one over
semihosting, `main` runs all cases, and the answer goes to QEMU.

`reset_to_exit` is the result.  From any contents of the RAM, the startup code and the
constructors build the registry in memory, the run follows its links, and QEMU exits with
what the same run on the lists of the registry returns.  So does the CLI, whose reporters
hear the run, as long as the numbers in the output are below 2 ^ 31.
-/

namespace PolyOnTest.Target

open CodeLib CodeLib.CMemory CodeLib.Fuel PolyOnTest.Builtins PolyOnTest.Harness PolyOnTest.Run
open PolyOnTest.Cli (Attached Board Delivers HostCodec Lossless QemuRun Read TargetConfig
  Telling Writes drain_keeps makeReporters mergeFilter runTarget runTarget_attached told)

/-! ## `main.c` and the board -/

/-- The semihosting calls of the board. -/
inductive Semihost
  /-- `SYS_WRITEC` -/
  | writec (c : UInt8)
  /-- `SYS_EXIT` with a reason. -/
  | exit (report : UInt32)
  deriving DecidableEq

/-- `board_uart_write` -/
def boardUartWrite (data : List UInt8) : List Semihost := data.map .writec

/-- `board_qemu_exit` -/
def boardQemuExit (code : Nat) : Semihost :=
  .exit (if code = 0 then 0x20026 else UInt32.ofNat code)

/-- What `main` sends behind a run that wrote these messages. -/
def mainCalls (mode : Mode) (ms : List Msg) (rc : Nat) : List Semihost :=
  (ms.flatMap fun m => (Target.emit mode m).flatMap boardUartWrite) ++ [boardQemuExit rc]

/-- The lists in the memory. -/
def heapOf (fw : Firmware) (m : Memory) : Heap where
  tests := linksOf m (fw.ptr .case) Kind.case.next
  suites := linksOf m (fw.ptr .suite) Kind.suite.next
  groups := linksOf m (fw.ptr .group) Kind.group.next

variable {ω : Type}

/-- The target from the reset on.  The run follows the lists in the memory, and the rest of
the state is that of the harness as it is loaded.  The messages have the texts of the
target. -/
def Firmware.power (fw : Firmware) (img : Image) (p : Program ω) (mode : Mode) (sys : Sys ω)
    (asked : Asked) (n : Nat) (m : Memory) : Option (List Semihost) :=
  (fw.resetHandler n m).bind fun m =>
    (Machine.runFiltered img p n .all ⟨heapOf fw m, sys, asked⟩).map fun r =>
      mainCalls mode (said callMsgs sys.g (r.1.sys.trace.drop sys.trace.length)) r.2

/-! ## QEMU -/

/-- The characters that QEMU prints. -/
def printed (calls : List Semihost) : List UInt8 :=
  calls.filterMap fun
    | .writec c => some c
    | .exit _ => none

/-- The exit code of QEMU: the reason `ADP_Stopped_ApplicationExit` stands for 0. -/
def qemuExit (calls : List Semihost) : Option Nat :=
  calls.findSome? fun
    | .writec _ => none
    | .exit report => some (if report = 0x20026 then 0 else 1)

theorem printed_write (data : List UInt8) : printed (boardUartWrite data) = data := by
  induction data with
  | nil => rfl
  | cons c data ih => exact congrArg (c :: ·) ih

theorem printed_append (xs ys : List Semihost) : printed (xs ++ ys) = printed xs ++ printed ys :=
  List.filterMap_append ..

theorem printed_flatMap {α : Type} (f : α → List Semihost) (xs : List α) :
    printed (xs.flatMap f) = xs.flatMap fun x => printed (f x) := by
  induction xs with
  | nil => rfl
  | cons x xs ih => rw [List.flatMap_cons, List.flatMap_cons, printed_append, ih]

/-- QEMU prints the output of the target. -/
theorem printed_mainCalls (mode : Mode) (g : Globals) (trace : List Step) (rc : Nat) :
    printed (mainCalls mode (said callMsgs g trace) rc) = targetOutput mode g trace := by
  have hexit : printed [boardQemuExit rc] = [] := rfl
  unfold mainCalls
  rw [printed_append, hexit, List.append_nil, printed_flatMap]
  have hmsg : ∀ m, printed ((Target.emit mode m).flatMap boardUartWrite) =
      (Target.emit mode m).flatten := by
    intro m
    rw [printed_flatMap]
    simp only [printed_write]
    rw [List.flatMap_def, List.map_id']
  simp only [hmsg]
  rfl

theorem qemuExit_writes (xs : List UInt8) (calls : List Semihost) :
    qemuExit (boardUartWrite xs ++ calls) = qemuExit calls := by
  induction xs with
  | nil => rfl
  | cons x xs ih => exact ih

/-- The answer of a run comes through to QEMU. -/
theorem qemuExit_mainCalls (mode : Mode) (ms : List Msg) {rc : Nat} (hrc : rc = 0 ∨ rc = 1) :
    qemuExit (mainCalls mode ms rc) = some rc := by
  have hlast : qemuExit [boardQemuExit rc] = some rc := by
    rcases hrc with rfl | rfl
    · rfl
    · rfl
  have hwrites : ∀ xss : List (List UInt8), ∀ calls,
      qemuExit (xss.flatMap boardUartWrite ++ calls) = qemuExit calls := by
    intro xss calls
    induction xss with
    | nil => rfl
    | cons xs xss ih => rw [List.flatMap_cons, List.append_assoc, qemuExit_writes, ih]
  unfold mainCalls
  induction ms with
  | nil => exact hlast
  | cons m ms ih => rw [List.flatMap_cons, List.append_assoc, hwrites, ih]

/-! ## The registry in memory -/

variable {fw : Firmware} {m rom : Memory} {b : Boot} {cs : List Ctor}

theorem start_addr (h : Loaded b) (cs : List Ctor) :
    (∀ a, ((b.start cs).case a).addr = a) ∧ (∀ a, ((b.start cs).suite a).addr = a) ∧
      ∀ a, ((b.start cs).group a).addr = a := by
  rw [start_eq]
  refine ⟨h.case_addr, fun a => ?_, fun a => ?_⟩
  · have hfold : ∀ s : Suite, (cs.foldl (fun s c => c.editSuite a s) s).addr = s.addr := by
      induction cs with
      | nil => exact fun _ => rfl
      | cons c cs ih => exact fun s => (ih _).trans (editSuite_addr c a s)
    exact (hfold _).trans (h.suite_addr a)
  · have hfold : ∀ g : Group, (cs.foldl (fun g c => c.editGroup a g) g).addr = g.addr := by
      induction cs with
      | nil => exact fun _ => rfl
      | cons c cs ih => exact fun g => (ih _).trans (editGroup_addr c a g)
    exact (hfold _).trans (h.group_addr a)

/-- The descriptors behind the constructors. -/
def bootImage (h : Loaded b) (cs : List Ctor) : Image where
  case := (b.start cs).case
  suite := (b.start cs).suite
  group := (b.start cs).group
  case_addr := (start_addr h cs).1
  suite_addr := (start_addr h cs).2.1
  group_addr := (start_addr h cs).2.2

/-- The descriptors that the constructors registered. -/
def bootAsked (b : Boot) (cs : List Ctor) : Asked :=
  ⟨(b.start cs).tests, (b.start cs).suites, (b.start cs).groups⟩

/-- The lists in the memory are the registry. -/
theorem Booted.coherent (h : Booted fw m (b.start cs)) (hload : Loaded b) :
    Coherent (bootImage hload cs) (heapOf fw m) (b.start cs).registry (bootAsked b cs) where
  tests := ⟨_, h.chain .case, rfl, fun _ => Iff.rfl⟩
  suites := ⟨_, h.chain .suite, rfl, fun _ => Iff.rfl⟩
  groups := ⟨_, h.chain .group, rfl, fun _ => Iff.rfl⟩

/-- From `main` to the last semihosting call. -/
theorem power_ends {m' : Memory} (hload : Loaded b)
    (hboot : Ends (fun n => fw.resetHandler n m) m') (hbooted : Booted fw m' (b.start cs))
    (p : Program ω) (mode : Mode) (world : ω) :
    Ends (fun n => fw.power (bootImage hload cs) p mode ((b.start cs).sys world)
        (bootAsked b cs) n m)
      (mainCalls mode
        (said callMsgs ((b.start cs).sys world).g
          (potRunAll ((bootImage hload cs).program p) ((b.start cs).sys world)).1.trace)
        (potRunAll ((bootImage hload cs).program p) ((b.start cs).sys world)).2) := by
  have hsync : Sync (bootImage hload cs) ((b.start cs).sys world)
      ⟨heapOf fw m', (b.start cs).sys world, bootAsked b cs⟩ := ⟨rfl, hbooted.coherent hload⟩
  obtain ⟨r, hrun, hlists, hreturn⟩ := runFiltered_sync (p := p) hsync .all
  have hends := hboot.bind
    (g := fun m' n => (Machine.runFiltered (bootImage hload cs) p n .all
      ⟨heapOf fw m', (b.start cs).sys world, bootAsked b cs⟩).map fun r =>
        mainCalls mode (said callMsgs ((b.start cs).sys world).g r.1.sys.trace) r.2)
    (hrun.map fun r =>
      mainCalls mode (said callMsgs ((b.start cs).sys world).g r.1.sys.trace) r.2)
  rw [hlists.sys, hreturn] at hends
  exact hends

/-- The CLI runs the target on QEMU, whose output reaches it in some pieces, and its codec
hears the messages. -/
structure QemuHost (tell : Msg → Option Event) (codec : HostCodec) (mode : Mode)
    (trace : List Step) (t : TargetConfig) (disk : Disk) (rs : List Reporter)
    (reads : List (Read PluginError)) (board : Board) : Prop where
  telling : Telling tell
  hears : Lossless codec tell mode trace
  codec : HostCodec.ofName t.codec = .ok codec
  reporters : makeReporters t = .ok rs
  disk : Writes disk
  command : QemuRun t none none none
  delivers : Delivers mode trace reads
  board : Attached board (mergeFilter t none none none) reads

/-- Its layout: the case is at 64 and the suite at 88. -/
def tinyLayout : Layout where
  ram := 64
  initStart := 0
  initEnd := 8
  sidata := 8
  sdata := 64
  edata := 108
  sbss := 108
  ebss := 120
  init_le := by decide
  sidata_le := by decide
  ram_pos := by decide
  ram_le := by decide
  data_le := by decide
  data_bss := by decide
  bss_le := by decide
  ebss_le := by decide
  data_words := by decide
  bss_words := by decide

/-- The case `A.B.C`, and the teardown of the suite `A`. -/
def tinyFirmware : Firmware where
  layout := tinyLayout
  ptr
    | .case => 108
    | .suite => 112
    | .group => 116
  object k a := (k = .case ∧ a = 64) ∨ (k = .suite ∧ a = 88)
  code w := if w = 1 then ⟨.case, 64, none⟩ else ⟨.suite, 88, some (8, 0x100)⟩
  ptr_bss k := by cases k <;> decide
  ptr_apart k k' h := by
    unfold WordMemory.Apart
    cases k <;> cases k' <;> first | exact absurd rfl h | decide
  object_data k a h := by
    rcases h with ⟨rfl, rfl⟩ | ⟨rfl, rfl⟩ <;> decide
  object_apart k a k' a' h h' hne := by
    rcases h with ⟨rfl, rfl⟩ | ⟨rfl, rfl⟩ <;> rcases h' with ⟨rfl, rfl⟩ | ⟨rfl, rfl⟩
    · exact absurd rfl hne
    · exact .inl (by decide)
    · exact .inr (by decide)
    · exact absurd rfl hne

/-- The words of its flash, and the three names behind them. -/
def tinyRom : Memory := fun a =>
  (([1, 2, 52, 54, 56, 0x200, 0, 0, 52, 0, 0, 0, 0].flatMap fun w : UInt32 =>
      (List.range 4).map (WordMemory.byte w)) ++ [65, 0, 66, 0, 67, 0]).getD a 0

/-- Its descriptors as they are loaded. -/
def tinyBoot : Boot where
  case a := ⟨a, some (CStr.lit "A"), some (CStr.lit "B"), some (CStr.lit "C"), some 0x200, none⟩
  suite a := ⟨a, some (CStr.lit "A"), none, none, none⟩
  group a := ⟨a, none, none, none, none, none⟩
  tests := []
  suites := []
  groups := []

/-- Its constructors. -/
def tinyCtors : List Ctor := [.test 64, .suiteTeardown 88 0x100]

theorem tiny_flashed : Flashed tinyFirmware tinyRom tinyBoot tinyCtors where
  init := by
    have htest : Compiled tinyLayout tinyRom ⟨.case, 64, none⟩ (.test 64) := .test 64
    have hsuite : Compiled tinyLayout tinyRom ⟨.suite, 88, some (8, 0x100)⟩
        (.suiteTeardown 88 0x100) := .suiteTeardown 88 0x100 (by decide)
    have h0 : WordMemory.word tinyRom 0 = 1 := by decide
    have h4 : WordMemory.word tinyRom 4 = 2 := by decide
    refine ⟨by decide, ?_, ?_, by decide, ?_, ?_, rfl⟩
    · rw [show tinyFirmware.layout.initStart = 0 from rfl, h0]
      exact htest
    · rw [show tinyFirmware.layout.initStart = 0 from rfl, h0]
      exact .inl ⟨rfl, rfl⟩
    · rw [show tinyFirmware.layout.initStart + 4 = 4 from rfl, h4]
      exact hsuite
    · rw [show tinyFirmware.layout.initStart + 4 = 4 from rfl, h4]
      exact .inr ⟨rfl, rfl⟩
  descriptor k a h := by
    have hstart : startup tinyFirmware.layout tinyRom = _ :=
      funext (startup_apply tinyFirmware.layout tinyRom)
    rw [hstart]
    have hname : ∀ q : UInt32, ∀ c : UInt8, ∀ s : CStr, q ≠ 0 → q.toNat + s.bytes.length < 64 →
        s.bytes = [c] → tinyRom q.toNat = c → tinyRom (q.toNat + 1) = 0 →
        StrAt tinyLayout (fun a => startup tinyFirmware.layout tinyRom a) q (some s) := by
      intro q c s hq hlt hbytes hc hnul
      refine ⟨hq, hlt, ?_⟩
      unfold HasStr
      rw [hbytes] at hlt ⊢
      rw [List.length_singleton] at hlt
      exact ⟨(startup_flash tinyLayout tinyRom (show q.toNat < 64 by omega)).trans hc,
        (startup_flash tinyLayout tinyRom (show q.toNat + 1 < 64 by omega)).trans hnul, trivial⟩
    rw [hstart] at hname
    rcases h with ⟨rfl, rfl⟩ | ⟨rfl, rfl⟩
    · refine ⟨rfl, ?_, ?_, ?_, by decide, show WordMemory.word _ (64 + 16) = 0 by decide⟩
      · exact hname 52 65 _ (by decide) (by decide) (by decide) (by decide) (by decide)
      · exact hname 54 66 _ (by decide) (by decide) (by decide) (by decide) (by decide)
      · exact hname 56 67 _ (by decide) (by decide) (by decide) (by decide) (by decide)
    · refine ⟨rfl, ?_, by decide, by decide, show WordMemory.word _ (88 + 12) = 0 by decide⟩
      exact hname 52 65 _ (by decide) (by decide) (by decide) (by decide) (by decide)
  loaded := ⟨rfl, rfl, rfl, fun _ => rfl, fun _ => rfl, fun _ => rfl⟩

/-- Its case fails, and so does the teardown of the suite. -/
def tinyProgram : Program Unit where
  code _ w := ([.failAt none 7 none], w)
  potInfo := []

/-- QEMU with the output of the target. -/
def tinyBoard (reads : List (Read PluginError)) : Board :=
  ⟨.ok (), fun _ => .ok reads, fun _ => false, .ok (.exited 1)⟩

end PolyOnTest.Target
