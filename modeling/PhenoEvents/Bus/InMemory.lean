import Mathlib.Data.Finset.Card
import Mathlib.Logic.Function.Basic
import PhenoEvents.Bus.Outbox
import PhenoEvents.Library.Channel
import PhenoEvents.Library.Transition

/-!
# The bus in memory

`InMemoryBus`, with any number of publishers and subscribers.  A call of `publish` is one critical
section, which takes a snapshot of the senders and decides what the call answers, and then one
`try_send` for each sender; other calls may come in between.  The worker of a subscriber waits for
its channel, for its handler and, once the channel is closed, for the lock.

* The keys of the map stand for its entries: the entry of a subscriber is the sender of its channel,
  and there is one channel for each subscriber.  A `HashMap` returns its values in any order, so the
  order of the senders is in the action.
* `Uuid::now_v7` returns an id that has not been used.
* `drop` is the drop of a `Subscription`, which asks for the worker to be aborted, and `stop` is the
  worker being aborted at its current await.  Its receiver goes with it.  Handlers return.
* A channel is closed when no sender is left, in the map or in a call.  The worker holds the map, so
  the map lives as long as the worker.

What the program does not keep, and the theorems are about, is in `Subscriber`: the events that were
handled, and every `try_send` with the length of the queue it found.  A `World` keeps every call
there has been, also those that are through with their senders.

`WorkerMove` and `Move` say once what a step can do.
-/

set_option autoImplicit false

namespace PhenoEvents

/-- `SUBSCRIBER_QUEUE`. -/
def subscriberQueue : ℕ := 1024

/-- What is sent to a subscriber. -/
structure Message where
  envelope : EventEnvelope
  lastSeen : Option Uuid
  deriving DecidableEq

/-- The id of the event. -/
def Message.id (m : Message) : Uuid := m.envelope.id

namespace InMemoryBus

/-- `Inner`. -/
structure Inner where
  /-- The keys of the map. -/
  subscribers : Finset Uuid
  seen : Finset Uuid
  lastSeen : Option Uuid

/-- What the critical section of `publish` does to `seen` and `last_seen`, whether the event is a
duplicate, and the event before it. -/
def Inner.record (eventId : Uuid) (inner : Inner) : Inner × Bool × Option Uuid :=
  let duplicate := decide (eventId ∈ inner.seen)
  let seen := if duplicate then inner.seen else insert eventId inner.seen
  ({ inner with seen := seen, lastSeen := some eventId }, duplicate, inner.lastSeen)

/-! ## Subscribers

The steps of one subscriber, without the bus.  `received` puts together the three places an accepted
event can be in, in the order in which they were accepted. -/

/-- Where a worker is in `run_subscriber`. -/
inductive Pc
  /-- In `recv`. -/
  | receiving
  /-- In the handler. -/
  | handling (message : Message)
  /-- Waiting for the lock. -/
  | removing
  /-- The task is over.  The event whose handler was aborted. -/
  | stopped (aborted : Option Message)
  deriving DecidableEq

/-- The event the handler has been called with and has not returned from. -/
def Pc.current : Pc → Option Message
  | .handling message => some message
  | .stopped aborted => aborted
  | .receiving | .removing => none

/-- A subscriber: its channel and its worker, and what is kept of the past. -/
structure Subscriber where
  channel : Channel subscriberQueue Message
  pc : Pc
  /-- The events the handler has returned from, with either result. -/
  handled : List Message
  /-- Every `try_send`, with the number of entries it found in the queue. -/
  attempts : List (Message × ℕ)
  /-- How many calls of `publish` had been through the critical section when it was inserted. -/
  since : ℕ

namespace Subscriber

/-- A new subscriber. -/
def new (since : ℕ) : Subscriber := ⟨.new, .receiving, [], [], since⟩

/-- The events the handler has been called with. -/
def invoked (sub : Subscriber) : List Message := sub.handled ++ sub.pc.current.toList

/-- The events that were handled, the one that is being handled, and those that wait. -/
def received (sub : Subscriber) : List Message := sub.invoked ++ sub.channel.queue

/-- `try_send`, whose result `publish` ignores. -/
def trySend (message : Message) (sub : Subscriber) : Subscriber :=
  { sub with
    channel := match sub.channel.trySend message with
      | .ok channel => channel
      | .error _ => sub.channel
    attempts := sub.attempts ++ [(message, sub.channel.queue.length)] }

/-- `recv` returns an event, and the handler is called. -/
def receive (sub : Subscriber) : Option Subscriber :=
  match sub.pc, sub.channel.recv with
  | .receiving, some (message, channel) =>
    some { sub with channel := channel, pc := .handling message }
  | _, _ => none

/-- The handler returns.  Whatever its result, the loop goes on. -/
def returned (sub : Subscriber) : Option Subscriber :=
  match sub.pc with
  | .handling message => some { sub with pc := .receiving, handled := sub.handled ++ [message] }
  | _ => none

/-- `recv` returns an error, and the loop ends. -/
def closed (sub : Subscriber) : Option Subscriber :=
  match sub.pc, sub.channel.queue with
  | .receiving, [] => some { sub with pc := .removing }
  | _, _ => none

/-- The task ends, and the receiver is dropped. -/
def stop (sub : Subscriber) : Option Subscriber :=
  match sub.pc with
  | .stopped _ => none
  | pc => some { sub with pc := .stopped pc.current, channel := sub.channel.dropReceiver }

end Subscriber

/-! ## The bus

Between the critical section and the last `try_send` a call is in `calls` with the senders it still
has.  An action names the call that goes on by its place in this list. -/

/-- A call of `publish` that has been through its critical section: what it sends, what it has
answered, and the senders it has not used yet. -/
structure Call where
  message : Message
  duplicate : Bool
  /-- The senders it has not used yet. -/
  senders : List Uuid
  deriving DecidableEq

/-- A bus, its publishers and its subscribers. -/
structure World where
  inner : Inner
  /-- The calls of `publish`, in the order of their critical sections. -/
  calls : List Call
  /-- What each call of `publish` answers. -/
  answers : List (EventEnvelope × Except PublishError Ack)
  subscribers : Uuid → Option Subscriber
  /-- The `Subscription`s that have not been dropped. -/
  subscriptions : Finset Uuid

/-- What happens next. -/
inductive Action
  /-- `publish` is called and leaves its critical section with these senders, or returns an error.
  -/
  | publish (envelope : EventEnvelope) (senders : List Uuid)
  /-- The call uses its next sender. -/
  | send (call : ℕ)
  /-- `subscribe` is called, and `now_v7` returns this id. -/
  | subscribe (subscriberId : Uuid)
  /-- `recv` returns an event. -/
  | receive (subscriberId : Uuid)
  /-- The handler returns. -/
  | returned (subscriberId : Uuid) (result : Except String Unit)
  /-- The `Subscription` is dropped. -/
  | drop (subscriberId : Uuid)
  /-- The worker is aborted. -/
  | stop (subscriberId : Uuid)
  /-- `recv` returns an error. -/
  | closed (subscriberId : Uuid)
  /-- The worker removes its entry from the map, and ends. -/
  | remove (subscriberId : Uuid)

namespace World

/-- `InMemoryBus::new`. -/
def initial : World := ⟨⟨∅, ∅, none⟩, [], [], fun _ ↦ none, ∅⟩

/-- `subscriber_count`. -/
def subscriberCount (s : World) : ℕ := s.inner.subscribers.card

/-- Everything that has been through the critical section. -/
def messages (s : World) : List Message := s.calls.map Call.message

/-- No call of `publish` is in progress. -/
def Quiet (s : World) : Prop := ∀ call ∈ s.calls, call.senders = []

/-- The bus with another state of one subscriber. -/
def setSubscriber (k : Uuid) (sub : Subscriber) (s : World) : World :=
  { s with subscribers := Function.update s.subscribers k (some sub) }

/-- A step of one subscriber. -/
def work (k : Uuid) (f : Subscriber → Option Subscriber) (s : World) : Option World :=
  ((s.subscribers k).bind f).map fun sub ↦ s.setSubscriber k sub

/-- The critical section of `publish`.  From here on the answer is settled, and so is who will be
sent the event; a subscriber that comes later gets none of it. -/
def enter (envelope : EventEnvelope) (senders : List Uuid) (s : World) : World :=
  let (inner, duplicate, prevLastSeen) := s.inner.record envelope.id
  { s with
    inner := inner
    calls := s.calls ++ [⟨⟨envelope, prevLastSeen⟩, duplicate, senders⟩]
    answers := s.answers ++ [(envelope, .ok ⟨envelope.id, duplicate⟩)] }

/-- One step. -/
def step (s : World) : Action → Option World
  | .publish envelope senders =>
    match envelope.validate with
    | .error error =>
      some { s with answers := s.answers ++ [(envelope, .error (.invalidEnvelope error))] }
    | .ok () =>
      if senders.Nodup ∧ senders.toFinset = s.inner.subscribers then some (s.enter envelope senders)
      else none
  | .send n =>
    match s.calls[n]? with
    | some ⟨message, duplicate, k :: senders⟩ =>
      { s with calls := s.calls.set n ⟨message, duplicate, senders⟩ }.work k
        fun sub ↦ some (sub.trySend message)
    | _ => none
  | .subscribe k =>
    match s.subscribers k with
    | some _ => none
    | none =>
      some { s.setSubscriber k (.new s.calls.length) with
        inner := { s.inner with subscribers := insert k s.inner.subscribers }
        subscriptions := insert k s.subscriptions }
  | .receive k => s.work k Subscriber.receive
  | .returned k _ => s.work k Subscriber.returned
  | .drop k =>
    if k ∈ s.subscriptions then some { s with subscriptions := s.subscriptions.erase k } else none
  | .stop k => if k ∈ s.subscriptions then none else s.work k Subscriber.stop
  | .closed k =>
    if k ∈ s.inner.subscribers ∨ ∃ call ∈ s.calls, k ∈ call.senders then none
    else s.work k Subscriber.closed
  | .remove k =>
    match s.subscribers k with
    | some ⟨channel, .removing, handled, attempts, since⟩ =>
      some { s.setSubscriber k ⟨channel.dropReceiver, .stopped none, handled, attempts, since⟩ with
        inner := { s.inner with subscribers := s.inner.subscribers.erase k } }
    | _ => none

end World

/-! ## What a step can do

The guards and the state after each step, so that no later proof has to look at the code of `step`.
-/

/-- The ways a worker can go on. -/
inductive WorkerMove (s : World) (k : Uuid) (sub : Subscriber) : Action → Subscriber → Prop
  | received {message : Message} {channel : Channel subscriberQueue Message}
      (hpc : sub.pc = .receiving) (hqueue : sub.channel.queue = message :: channel.queue)
      (hreceiver : sub.channel.receiver = channel.receiver) :
      WorkerMove s k sub (.receive k) { sub with channel := channel, pc := .handling message }
  | returned {message : Message} {result : Except String Unit} (hpc : sub.pc = .handling message) :
      WorkerMove s k sub (.returned k result)
        { sub with pc := .receiving, handled := sub.handled ++ [message] }
  | closed (hpc : sub.pc = .receiving) (hqueue : sub.channel.queue = [])
      (hkey : k ∉ s.inner.subscribers) :
      WorkerMove s k sub (.closed k) { sub with pc := .removing }
  | stopped (hdropped : k ∉ s.subscriptions) (hpc : ∀ aborted, sub.pc ≠ .stopped aborted) :
      WorkerMove s k sub (.stop k)
        { sub with pc := .stopped sub.pc.current, channel := sub.channel.dropReceiver }

/-- The ways a step can go. -/
inductive Move (s : World) : Action → World → Prop
  | rejected {envelope : EventEnvelope} {senders : List Uuid} {error : EnvelopeError}
      (hinvalid : envelope.validate = .error error) :
      Move s (.publish envelope senders)
        { s with answers := s.answers ++ [(envelope, .error (.invalidEnvelope error))] }
  | entered {envelope : EventEnvelope} {senders : List Uuid} (hvalid : envelope.validate = .ok ())
      (hnodup : senders.Nodup) (hsenders : ∀ k, k ∈ senders ↔ k ∈ s.inner.subscribers) :
      Move s (.publish envelope senders) (s.enter envelope senders)
  | sent {earlier later : List Call} {message : Message} {duplicate : Bool} {k : Uuid}
      {senders : List Uuid} {sub : Subscriber}
      (hcalls : s.calls = earlier ++ ⟨message, duplicate, k :: senders⟩ :: later)
      (hsub : s.subscribers k = some sub) :
      Move s (.send earlier.length) (World.setSubscriber k (sub.trySend message)
        { s with calls := earlier ++ ⟨message, duplicate, senders⟩ :: later })
  | subscribed {k : Uuid} (hnew : s.subscribers k = none) :
      Move s (.subscribe k) { s.setSubscriber k (.new s.calls.length) with
        inner := { s.inner with subscribers := insert k s.inner.subscribers }
        subscriptions := insert k s.subscriptions }
  | worked {action : Action} {k : Uuid} {sub sub' : Subscriber} (hsub : s.subscribers k = some sub)
      (hmove : WorkerMove s k sub action sub') : Move s action (s.setSubscriber k sub')
  | dropped {k : Uuid} (hk : k ∈ s.subscriptions) :
      Move s (.drop k) { s with subscriptions := s.subscriptions.erase k }
  | removed {k : Uuid} {sub : Subscriber} (hsub : s.subscribers k = some sub)
      (hpc : sub.pc = .removing) :
      Move s (.remove k) { s.setSubscriber k
          ⟨sub.channel.dropReceiver, .stopped none, sub.handled, sub.attempts, sub.since⟩ with
        inner := { s.inner with subscribers := s.inner.subscribers.erase k } }

namespace World

variable {s t : World} {action : Action}

theorem work_eq_some {k : Uuid} {f : Subscriber → Option Subscriber} (h : s.work k f = some t) :
    ∃ sub sub', s.subscribers k = some sub ∧ f sub = some sub' ∧ t = s.setSubscriber k sub' := by
  obtain ⟨sub', hbind, ht⟩ := Option.map_eq_some_iff.1 h
  obtain ⟨sub, hsub, hf⟩ := Option.bind_eq_some_iff.1 hbind
  exact ⟨sub, sub', hsub, hf, ht.symm⟩

/-- **Every step is one of the moves.** -/
theorem move_of_step (h : s.step action = some t) : Move s action t := by
  cases action with
  | publish envelope senders =>
    rw [step] at h
    split at h
    · rename_i error hinvalid
      obtain rfl := Option.some_inj.1 h
      exact .rejected hinvalid
    · rename_i hvalid
      split at h
      · rename_i hsenders
        obtain rfl := Option.some_inj.1 h
        exact .entered hvalid hsenders.1 fun k ↦ by rw [← hsenders.2, List.mem_toFinset]
      · cases h
  | send n =>
    rw [step] at h
    split at h
    · rename_i message duplicate k senders hcall
      obtain ⟨hn, hcall⟩ := List.getElem?_eq_some_iff.1 hcall
      obtain ⟨sub, sub', hsub, hsend, rfl⟩ := work_eq_some h
      obtain rfl := Option.some_inj.1 hsend
      have hsplit : s.calls = s.calls.take n ++ s.calls[n] :: s.calls.drop (n + 1) := by
        rw [List.cons_getElem_drop_succ, List.take_append_drop]
      rw [hcall] at hsplit
      have hlength : (s.calls.take n).length = n := List.length_take_of_le hn.le
      have hmove := Move.sent hsplit hsub
      rw [hlength] at hmove
      rwa [List.set_eq_take_append_cons_drop, if_pos hn]
    · cases h
  | subscribe k =>
    rw [step] at h
    split at h
    · cases h
    · rename_i hnew
      obtain rfl := Option.some_inj.1 h
      exact .subscribed hnew
  | receive k =>
    obtain ⟨sub, sub', hsub, hreceive, rfl⟩ := work_eq_some h
    rw [Subscriber.receive] at hreceive
    split at hreceive
    · rename_i message channel hpc hrecv
      obtain rfl := Option.some_inj.1 hreceive
      obtain ⟨hqueue, hreceiver⟩ := Channel.recv_eq_some_iff.1 hrecv
      exact .worked hsub (.received hpc hqueue hreceiver)
    · cases hreceive
  | returned k result =>
    obtain ⟨sub, sub', hsub, hreturned, rfl⟩ := work_eq_some h
    rw [Subscriber.returned] at hreturned
    split at hreturned
    · rename_i message hpc
      obtain rfl := Option.some_inj.1 hreturned
      exact .worked hsub (.returned hpc)
    · cases hreturned
  | drop k =>
    rw [step] at h
    split at h
    · rename_i hk
      obtain rfl := Option.some_inj.1 h
      exact .dropped hk
    · cases h
  | stop k =>
    rw [step] at h
    split at h
    · cases h
    · rename_i hdropped
      obtain ⟨sub, sub', hsub, hstop, rfl⟩ := work_eq_some h
      rw [Subscriber.stop] at hstop
      split at hstop
      · cases hstop
      · rename_i hpc
        obtain rfl := Option.some_inj.1 hstop
        exact .worked hsub (.stopped hdropped hpc)
  | closed k =>
    rw [step] at h
    split at h
    · cases h
    · rename_i hclosed
      obtain ⟨sub, sub', hsub, hloop, rfl⟩ := work_eq_some h
      rw [Subscriber.closed] at hloop
      split at hloop
      · rename_i hpc hqueue
        obtain rfl := Option.some_inj.1 hloop
        exact .worked hsub (.closed hpc hqueue fun hkey ↦ hclosed (Or.inl hkey))
      · cases hloop
  | remove k =>
    rw [step] at h
    split at h
    · rename_i channel handled attempts since hsub
      obtain rfl := Option.some_inj.1 h
      exact .removed hsub rfl
    · cases h

end World

end InMemoryBus

end PhenoEvents
