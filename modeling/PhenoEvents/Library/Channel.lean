import Mathlib.Data.List.Basic

/-!
# Bounded channels

A channel is a queue of limited length between any number of senders and one receiver.  `trySend`
never waits: it fails if the receiver is gone, or if the queue is full, and leaves the channel as it
is.  `recv` takes the oldest entry.

The bound is a field, so that a channel that holds too much cannot be built.  Whoever has a channel
has the bound, and a proof about a program that uses channels never has to carry it along as an
invariant.

## What is here

* `Channel`, with `new`, `trySend`, `recv` and `dropReceiver`.
* `HasRoom`, the condition under which `trySend` succeeds.  It is decidable, and
  `trySend_of_hasRoom` and `trySend_of_not_hasRoom` together say that it is the exact one.
* `recv_eq_some_iff`: what is received is the oldest entry, and the rest stays in its order.

There is no lemma about which of the two errors `trySend` reports.  A sender that only drops what
cannot be sent does not look at it.
-/

set_option autoImplicit false

universe u

/-- A channel: what has been sent and not received, and whether there is someone to receive it. -/
structure Channel (capacity : ℕ) (τ : Type u) where
  /-- What waits, oldest first. -/
  queue : List τ
  /-- The receiver has not been dropped. -/
  receiver : Bool
  /-- The queue is never longer than that. -/
  bounded : queue.length ≤ capacity

/-- Why `trySend` has failed. -/
inductive TrySendError
  | full
  | closed
  deriving DecidableEq

namespace Channel

variable {capacity : ℕ} {τ : Type u} {c c' : Channel capacity τ} {message : τ}

/-- A new channel. -/
def new : Channel capacity τ := ⟨[], true, Nat.zero_le _⟩

/-- Append to the queue if there is room and someone to receive it. -/
def trySend (message : τ) (c : Channel capacity τ) : Except TrySendError (Channel capacity τ) :=
  if c.receiver then
    if h : c.queue.length < capacity then
      .ok ⟨c.queue ++ [message], true, by rw [List.length_append]; exact h⟩
    else .error .full
  else .error .closed

/-- Take the oldest entry. -/
def recv : Channel capacity τ → Option (τ × Channel capacity τ)
  | ⟨[], _, _⟩ => none
  | ⟨message :: queue, receiver, h⟩ =>
    some (message, ⟨queue, receiver, Nat.le_of_succ_le h⟩)

/-- The receiver is dropped, and what waits is lost.  Every later `trySend` fails. -/
def dropReceiver (_ : Channel capacity τ) : Channel capacity τ := ⟨[], false, Nat.zero_le _⟩

/-- There is room in the queue, and there is still somebody who might receive what is sent: the
condition under which `trySend` succeeds. -/
def HasRoom (c : Channel capacity τ) : Prop := c.receiver = true ∧ c.queue.length < capacity

instance : Decidable c.HasRoom := inferInstanceAs (Decidable (_ ∧ _))

/-- A message is sent if there is room. -/
theorem trySend_of_hasRoom (h : c.HasRoom) (message : τ) :
    ∃ c', c.trySend message = .ok c' ∧ c'.queue = c.queue ++ [message] ∧ c'.receiver = true := by
  rw [trySend, if_pos h.1, dif_pos h.2]
  exact ⟨_, rfl, rfl, rfl⟩

/-- A message is not sent if there is none. -/
theorem trySend_of_not_hasRoom (h : ¬c.HasRoom) (message : τ) :
    ∃ error, c.trySend message = .error error := by
  rw [trySend]
  split
  · rename_i hreceiver
    rw [dif_neg fun hlt ↦ h ⟨hreceiver, hlt⟩]
    exact ⟨_, rfl⟩
  · exact ⟨_, rfl⟩

theorem recv_eq_some_iff :
    c.recv = some (message, c') ↔ c.queue = message :: c'.queue ∧ c.receiver = c'.receiver := by
  obtain ⟨queue, receiver, hbounded⟩ := c
  obtain ⟨queue', receiver', hbounded'⟩ := c'
  cases queue with
  | nil => simp [recv]
  | cons m queue => simp [recv, and_assoc]

end Channel
