import Mathlib.Data.List.Basic

/-!
# Channels

A channel without a bound between one sender and one receiver: the items that are on
their way, and which of the two ends are still held.

`Carries c sent taken` is what a channel is for: what was sent is what was taken, and
behind it what is on its way.
-/

namespace CodeLib

/-- A channel with its two ends. -/
structure Channel (α : Type) where
  queue : List α
  sender : Bool
  receiver : Bool
  deriving DecidableEq

namespace Channel

variable {α : Type}

/-- A new channel. -/
def new : Channel α := ⟨[], true, true⟩

/-- Sends an item, unless nobody can receive it. -/
def send (c : Channel α) (a : α) : Option (Channel α) :=
  if c.receiver then some { c with queue := c.queue ++ [a] } else none

/-- Drops the sender. -/
def dropSender (c : Channel α) : Channel α := { c with sender := false }

/-- Drops the receiver. -/
def dropReceiver (c : Channel α) : Channel α := { c with receiver := false }

/-- The receiver sees that there is nothing more to come. -/
def disconnected (c : Channel α) : Bool := c.queue.isEmpty && !c.sender

/-- What was sent was taken or is on its way. -/
def Carries (c : Channel α) (sent taken : List α) : Prop := sent = taken ++ c.queue

variable {c c' : Channel α} {sent taken : List α} {a : α}

/-- Sending leaves the two ends as they are. -/
theorem send_ends (h : c.send a = some c') :
    c'.sender = c.sender ∧ c'.receiver = c.receiver := by
  unfold Channel.send at h
  split at h
  · cases h
    exact ⟨rfl, rfl⟩
  · cases h

theorem length_send (h : c.send a = some c') : c'.queue.length = c.queue.length + 1 := by
  unfold Channel.send at h
  split at h
  · cases h
    exact List.length_append
  · cases h

/-- Sending fails only when the receiver is gone. -/
theorem send_none (h : c.send a = none) : c.receiver = false := by
  unfold Channel.send at h
  split at h
  · cases h
  · simpa using ‹¬ c.receiver = true›

theorem Carries.new : (new : Channel α).Carries [] [] := rfl

theorem Carries.send (h : c.Carries sent taken) (hsend : c.send a = some c') :
    c'.Carries (sent ++ [a]) taken := by
  unfold Channel.send at hsend
  split at hsend
  · cases hsend
    show sent ++ [a] = taken ++ (c.queue ++ [a])
    rw [h, List.append_assoc]
  · cases hsend

theorem Carries.take {queue : List α} (h : c.Carries sent taken) (hqueue : c.queue = a :: queue) :
    ({ c with queue } : Channel α).Carries sent (taken ++ [a]) := by
  show sent = taken ++ [a] ++ queue
  rw [h, hqueue, List.append_assoc]
  rfl

/-- At a disconnected channel everything was taken. -/
theorem Carries.disconnected (h : c.Carries sent taken) (hdis : c.disconnected = true) :
    sent = taken := by
  have hqueue : c.queue = [] := by
    unfold Channel.disconnected at hdis
    simp only [Bool.and_eq_true, List.isEmpty_iff] at hdis
    exact hdis.1
  rw [h, hqueue, List.append_nil]

end Channel

end CodeLib
