import Mathlib.Data.List.Infix
import PolyOnTest.Cli.Config

/-!
# Draining a stream

`drain_stream`: reads from the transport go to the codec, events go to the
reporters, and the loop ends with a `Done` event, at the end of the stream, or
with an error.

`drainLoop` is the loop within the time limit.  `readAll` is the reading part
alone, and `drainLoop_eq` splits the loop into that part and the handling of the
events.  `drainLoopBy` is the loop with the clock, and `drainLoopBy_eq` says that
the time limit ends it as a read that fails.
-/

namespace PolyOnTest.Cli

open CodeLib PolyOnTest.Builtins

/-- The answer of a read.  The end of the stream is an answer without bytes, and
the stream also ends behind the last answer of a list. -/
inductive Read (ε : Type)
  | data (bytes : List UInt8)
  | failed (e : ε)
  deriving DecidableEq

/-- The test `contains("os error")` on the text of an error. -/
def isOsError (text : String) : Bool := decide ("os error".toList <:+: text.toList)

/-- The events of a stream, and whether the stream was read to its end. -/
def readAll {ε : Type} (text : ε → String) :
    HostCodec → List (Read ε) → List Event × Except String Unit
  | _, [] => ([], .ok ())
  | _, .failed e :: _ =>
      if isOsError (text e) then ([], .ok ()) else ([], .error (text e))
  | codec, .data bytes :: reads =>
      if bytes = [] then ([], .ok ())
      else
        match codec.decodeFeed bytes with
        | (_, .error e) => ([], .error e.text)
        | (codec, .ok events) =>
            let (more, result) := readAll text codec reads
            (events ++ more, result)

/-- The statements behind the loop of `drain_stream`, which the branch of a
terminal event repeats. -/
def conclude (disk : Disk) (rs : List Reporter) (failed : UInt32) :
    List Reporter × Exit :=
  match finishAll disk rs with
  | (rs, .error e) => (rs, .error e)
  | (rs, .ok ()) => (rs, if failed > 0 then .exited 1 else .returned)

/-- The variable `failed` behind an event. -/
def failedAfter (failed : UInt32) : Event → UInt32
  | .done _ f _ => f
  | _ => failed

/-- The loop over the events of one read.  The left side of the answer is the
end of `drain_stream` in the middle of it. -/
def drainEvents (disk : Disk) : List Event → List Reporter → UInt32 →
    Except (List Reporter × Exit) (List Reporter × UInt32)
  | [], rs, failed => .ok (rs, failed)
  | ev :: evs, rs, failed =>
      let failed := failedAfter failed ev
      let rs := rs.map (Reporter.onEvent ev)
      if ev.isTerminal then .error (conclude disk rs failed)
      else drainEvents disk evs rs failed

/-- The loop of `drain_stream` within its time limit. -/
def drainLoop (disk : Disk) : HostCodec → List (Read PluginError) → List Reporter →
    UInt32 → List Reporter × Exit
  | _, [], rs, failed => conclude disk rs failed
  | _, .failed e :: _, rs, failed =>
      if isOsError e.text then conclude disk rs failed else (rs, .error e.text)
  | codec, .data bytes :: reads, rs, failed =>
      if bytes = [] then conclude disk rs failed
      else
        match codec.decodeFeed bytes with
        | (_, .error e) => (rs, .error e.text)
        | (codec, .ok events) =>
            match drainEvents disk events rs failed with
            | .error stopped => stopped
            | .ok (rs, failed) => drainLoop disk codec reads rs failed

/-- `drain_stream` within its time limit. -/
def drainStream (disk : Disk) (t : TargetConfig) (reads : List (Read PluginError)) :
    List Reporter × Exit :=
  match HostCodec.ofName t.codec with
  | .error e => ([], .error e)
  | .ok codec =>
      match makeReporters t with
      | .error e => ([], .error e)
      | .ok rs => drainLoop disk codec reads rs 0

/-- The error of the check in front of a read. -/
def timeoutError : PluginError := .other "timeout waiting for DONE event"

/-- The loop of `drain_stream`.  `late` says of each round whether the deadline has
passed when it starts. -/
def drainLoopBy (disk : Disk) (late : Nat → Bool) (round : Nat) (codec : HostCodec)
    (reads : List (Read PluginError)) (rs : List Reporter) (failed : UInt32) :
    List Reporter × Exit :=
  if late round then (rs, .error timeoutError.text)
  else
    match reads with
    | [] => conclude disk rs failed
    | .failed e :: _ =>
        if isOsError e.text then conclude disk rs failed else (rs, .error e.text)
    | .data bytes :: reads =>
        if bytes = [] then conclude disk rs failed
        else
          match codec.decodeFeed bytes with
          | (_, .error e) => (rs, .error e.text)
          | (codec, .ok events) =>
              match drainEvents disk events rs failed with
              | .error stopped => stopped
              | .ok (rs, failed) => drainLoopBy disk late (round + 1) codec reads rs failed

/-- `drain_stream`. -/
def drainStreamBy (disk : Disk) (t : TargetConfig) (late : Nat → Bool)
    (reads : List (Read PluginError)) : List Reporter × Exit :=
  match HostCodec.ofName t.codec with
  | .error e => ([], .error e)
  | .ok codec =>
      match makeReporters t with
      | .error e => ([], .error e)
      | .ok rs => drainLoopBy disk late 0 codec reads rs 0

/-! ## The time limit -/

/-- The reads up to the round that is late, which ends them as a failed read. -/
def cutAt (late : Nat → Bool) : Nat → List (Read PluginError) → List (Read PluginError)
  | round, [] => if late round then [.failed timeoutError] else []
  | round, read :: reads =>
      if late round then [.failed timeoutError] else read :: cutAt late (round + 1) reads

theorem isOsError_timeout : isOsError timeoutError.text = false := by
  decide +kernel

/-- The loop with the clock is the loop on the reads up to the late round, by
induction on the reads. -/
theorem drainLoopBy_eq (disk : Disk) (late : Nat → Bool) (round : Nat) (codec : HostCodec)
    (reads : List (Read PluginError)) (rs : List Reporter) (failed : UInt32) :
    drainLoopBy disk late round codec reads rs failed =
      drainLoop disk codec (cutAt late round reads) rs failed := by
  have hlate : ∀ codec rs failed, drainLoop disk codec [.failed timeoutError] rs failed =
      (rs, .error timeoutError.text) := by
    intro codec rs failed
    rw [drainLoop, isOsError_timeout]
    rfl
  induction reads generalizing round codec rs failed with
  | nil =>
      unfold drainLoopBy cutAt
      split_ifs
      · exact (hlate codec rs failed).symm
      · rfl
  | cons read reads ih =>
      unfold drainLoopBy cutAt
      split_ifs
      · exact (hlate codec rs failed).symm
      · cases read with
        | failed e => rfl
        | data bytes =>
          rw [drainLoop]
          dsimp only
          split_ifs
          · rfl
          · rcases codec.decodeFeed bytes with ⟨codec', e | events⟩
            · rfl
            · dsimp only
              rcases drainEvents disk events rs failed with stopped | ⟨rs', failed'⟩
              · rfl
              · exact ih (round + 1) codec' rs' failed'

theorem drainStreamBy_eq (disk : Disk) (t : TargetConfig) (late : Nat → Bool)
    (reads : List (Read PluginError)) :
    drainStreamBy disk t late reads = drainStream disk t (cutAt late 0 reads) := by
  unfold drainStreamBy drainStream
  simp only [drainLoopBy_eq]

/-- In time, all is read. -/
theorem cutAt_inTime {late : Nat → Bool} {round : Nat} {reads : List (Read PluginError)}
    (h : ∀ k ≤ reads.length, late (round + k) = false) : cutAt late round reads = reads := by
  have hnow : late round = false := h 0 (Nat.zero_le _)
  induction reads generalizing round with
  | nil =>
      unfold cutAt
      rw [if_neg (by rw [hnow]; exact Bool.false_ne_true)]
  | cons read reads ih =>
      have hrest : ∀ k ≤ reads.length, late (round + 1 + k) = false := by
        intro k hk
        rw [Nat.add_assoc, Nat.add_comm 1 k]
        exact h (k + 1) (Nat.succ_le_succ hk)
      unfold cutAt
      rw [if_neg (by rw [hnow]; exact Bool.false_ne_true), ih hrest (hrest 0 (Nat.zero_le _))]

/-! ## The spec of the loop -/

theorem drainEvents_append (disk : Disk) (a b : List Event) (rs : List Reporter)
    (failed : UInt32) :
    drainEvents disk (a ++ b) rs failed =
      match drainEvents disk a rs failed with
      | .error stopped => .error stopped
      | .ok (rs, failed) => drainEvents disk b rs failed := by
  induction a generalizing rs failed with
  | nil => rfl
  | cons ev evs ih =>
      rw [List.cons_append, drainEvents, drainEvents]
      split_ifs
      · rfl
      · exact ih _ _

/-- What the loop does with the events and the end of a stream. -/
def drainHeard (disk : Disk) (heard : List Event × Except String Unit)
    (rs : List Reporter) (failed : UInt32) : List Reporter × Exit :=
  match drainEvents disk heard.1 rs failed with
  | .error stopped => stopped
  | .ok (rs, failed) =>
      match heard.2 with
      | .error e => (rs, .error e)
      | .ok () => conclude disk rs failed

/-- The loop reads the stream and handles its events. -/
theorem drainLoop_eq (disk : Disk) (codec : HostCodec)
    (reads : List (Read PluginError)) (rs : List Reporter) (failed : UInt32) :
    drainLoop disk codec reads rs failed =
      drainHeard disk (readAll PluginError.text codec reads) rs failed := by
  induction reads generalizing codec rs failed with
  | nil => rfl
  | cons read reads ih =>
      cases read with
      | failed e =>
        rw [drainLoop, readAll]
        split_ifs <;> rfl
      | data bytes =>
        rw [drainLoop, readAll]
        split_ifs
        · rfl
        · rcases codec.decodeFeed bytes with ⟨codec', e | events⟩
          · rfl
          · dsimp only
            simp only [drainHeard, drainEvents_append]
            rcases drainEvents disk events rs failed with stopped | ⟨rs', failed'⟩
            · rfl
            · exact ih codec' rs' failed'

/-- Without a terminal event the reporters take all events. -/
theorem drainEvents_plain (disk : Disk) {evs : List Event}
    (h : ∀ ev ∈ evs, ev.isTerminal = false) (rs : List Reporter) (failed : UInt32) :
    drainEvents disk evs rs failed = .ok (rs.map (Reporter.receive evs), failed) := by
  induction evs generalizing rs with
  | nil => simp [drainEvents]
  | cons ev evs ih =>
      have hev := h ev (by simp)
      have hfailed : failedAfter failed ev = failed := by
        cases ev <;> first | rfl | simp [Event.isTerminal] at hev
      rw [drainEvents, hev, if_neg (by simp), hfailed, ih fun ev' hev' => h ev' (by simp [hev'])]
      have hmap := Reporter.map_receive_receive [ev] evs rs
      exact congrArg (fun rs => Except.ok (rs, failed)) hmap

/-- The first terminal event ends the loop. -/
theorem drainEvents_done (disk : Disk) {pre : List Event}
    (h : ∀ ev ∈ pre, ev.isTerminal = false) (passed failed' skipped : UInt32)
    (post : List Event) (rs : List Reporter) (failed : UInt32) :
    drainEvents disk (pre ++ .done passed failed' skipped :: post) rs failed =
      .error (conclude disk
        (rs.map (Reporter.receive (pre ++ [.done passed failed' skipped]))) failed') := by
  rw [drainEvents_append, drainEvents_plain disk h]
  dsimp only
  have hterminal : (Event.done passed failed' skipped).isTerminal = true := rfl
  rw [drainEvents, if_pos hterminal]
  have hmap := Reporter.map_receive_receive pre [.done passed failed' skipped] rs
  exact congrArg (fun rs => Except.error (conclude disk rs failed')) hmap

/-- A list of events has no terminal event, or it is cut at the first one. -/
theorem terminal_cases (evs : List Event) :
    (∀ ev ∈ evs, ev.isTerminal = false) ∨
      ∃ pre passed failed skipped post,
        evs = pre ++ .done passed failed skipped :: post ∧
        ∀ ev ∈ pre, ev.isTerminal = false := by
  induction evs with
  | nil => exact Or.inl fun _ hev => (List.not_mem_nil hev).elim
  | cons ev evs ih =>
      cases hev : ev.isTerminal with
      | true =>
        cases ev with
        | done passed failed skipped =>
          exact Or.inr ⟨[], passed, failed, skipped, evs, rfl,
            fun _ h => (List.not_mem_nil h).elim⟩
        | _ => simp [Event.isTerminal] at hev
      | false =>
        rcases ih with hall | ⟨pre, passed, failed, skipped, post, rfl, hpre⟩
        · exact Or.inl (List.forall_mem_cons.mpr ⟨hev, hall⟩)
        · exact Or.inr ⟨ev :: pre, passed, failed, skipped, post, rfl,
            List.forall_mem_cons.mpr ⟨hev, hpre⟩⟩

/-- The statements behind the loop succeed when nothing failed and the reports
can be written. -/
theorem conclude_returned_iff (disk : Disk) (rs : List Reporter) (failed : UInt32) :
    (conclude disk rs failed).2 = .returned ↔ failed = 0 ∧ Writable disk rs := by
  rw [← finishAll_ok_iff, conclude]
  rcases finishAll disk rs with ⟨rs', e | u⟩
  · simp
  · have hzero : failed > 0 ↔ ¬ failed = 0 := UInt32.pos_iff_ne_zero
    by_cases h : failed = 0
    · simp [h]
    · simp [h, hzero]

end PolyOnTest.Cli
