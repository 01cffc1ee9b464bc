import PhenoEvents.Bus.Registrations

/-!
# From a publisher to a handler

What a call of `publish` has sent to a subscriber, and what has become of it.  A message has a long
way in memory: it is in the list of a call that has not sent it yet, then in the queue of a channel,
then with the handler.  Between any two of these others may come in.

* `Subscriber.Sound`: as long as the receiver is there, the events that were handled, are being
  handled or wait are those whose `try_send` found room, in the order of the `try_send`s.
* `World.Fair`: every call that saw the subscriber has tried to send to it once, or is still going
  to.
* `World.fair_of_apart`: if the calls of `publish` do not overlap, the two orders are the same.

`Fair` has a parameter, the relation `R` between what was sent to a subscriber and what it was tried
with.  Whatever the calls do, one is a permutation of the other (`fair_of_reachable`); if they do
not overlap, the two are equal (`fair_of_apart`).  The induction is the same for both and is made
once, in `fair_step`; what differs is whether a send keeps the relation (`KeepsOrder`).

Nothing here is about `last_seen` or about duplicates.  A message is whatever the critical section
has made of the envelope.
-/

set_option autoImplicit false

namespace PhenoEvents

namespace InMemoryBus

open Transition

/-! ## One subscriber

A subscriber is a channel and a worker, and there is nobody else on either side of them: a
`try_send` puts an event at the end of the queue, and the worker takes one from the front.  Only an
abort loses what waits. -/

namespace Subscriber

variable {sub sub' : Subscriber} {message : Message}

/-- The events whose `try_send` found room in the queue, in the order of the `try_send`s.  The
others are lost to this subscriber: the result of `try_send` is thrown away, and nobody tries again.
-/
def accepted (sub : Subscriber) : List Message :=
  (sub.attempts.filter fun a ↦ a.2 < subscriberQueue).map Prod.fst

/-- If the queue was never full, every event has found room. -/
theorem accepted_of_roomy (h : ∀ a ∈ sub.attempts, a.2 < subscriberQueue) :
    sub.accepted = sub.attempts.map Prod.fst := by
  rw [accepted, List.filter_eq_self.2 fun a ha ↦ decide_eq_true (h a ha)]

/-- While the receiver is there, nothing that has been accepted is lost, repeated or reordered. -/
structure Sound (sub : Subscriber) : Prop where
  receiver : sub.channel.receiver = true ↔ ∀ aborted, sub.pc ≠ .stopped aborted
  found : ∀ a ∈ sub.attempts, a.2 ≤ subscriberQueue
  received : sub.channel.receiver = true → sub.received = sub.accepted

theorem sound_new (since : ℕ) : Sound (new since) where
  receiver := ⟨fun _ _ hpc ↦ (by cases hpc), fun _ ↦ rfl⟩
  found _ ha := absurd ha List.not_mem_nil
  received _ := rfl

/-- What `try_send` does to the channel: it appends the event, if there is room and a receiver, and
otherwise nothing. -/
theorem channel_trySend (sub : Subscriber) (message : Message) :
    sub.channel.HasRoom ∧ (sub.trySend message).channel.receiver = true ∧
        (sub.trySend message).channel.queue = sub.channel.queue ++ [message] ∨
      ¬sub.channel.HasRoom ∧ (sub.trySend message).channel = sub.channel := by
  by_cases hroom : sub.channel.HasRoom
  · obtain ⟨channel, hsend, hqueue, hreceiver⟩ := Channel.trySend_of_hasRoom hroom message
    refine Or.inl ⟨hroom, ?_, ?_⟩
    · rw [trySend, hsend]
      exact hreceiver
    · rw [trySend, hsend]
      exact hqueue
  · obtain ⟨error, hsend⟩ := Channel.trySend_of_not_hasRoom hroom message
    refine Or.inr ⟨hroom, ?_⟩
    rw [trySend, hsend]

/-- **An event is received exactly if there is room.** -/
theorem received_trySend (sub : Subscriber) (message : Message) :
    (sub.trySend message).received =
      if sub.channel.HasRoom then sub.received ++ [message] else sub.received := by
  rcases sub.channel_trySend message with ⟨hroom, -, hqueue⟩ | ⟨hfull, hchannel⟩
  · rw [if_pos hroom, received, hqueue, ← List.append_assoc]
    rfl
  · rw [if_neg hfull, received, hchannel]
    rfl

theorem Sound.trySend (h : sub.Sound) (message : Message) : (sub.trySend message).Sound := by
  have hreceiver : (sub.trySend message).channel.receiver = sub.channel.receiver := by
    rcases sub.channel_trySend message with ⟨hroom, hreceiver, -⟩ | ⟨-, hchannel⟩
    · rw [hreceiver, hroom.1]
    · rw [hchannel]
  refine ⟨?_, List.forall_mem_append.2 ⟨h.found, ?_⟩, fun halive ↦ ?_⟩
  · rw [hreceiver]
    exact h.receiver
  · exact List.forall_mem_singleton.2 sub.channel.bounded
  · rw [hreceiver] at halive
    have haccepted : (sub.trySend message).accepted =
        if sub.channel.HasRoom then sub.accepted ++ [message] else sub.accepted := by
      rw [accepted, Subscriber.trySend, List.filter_append, List.filter_singleton]
      by_cases hlt : sub.channel.queue.length < subscriberQueue
      · rw [if_pos ⟨halive, hlt⟩, decide_eq_true hlt, cond_true, List.map_append]
        rfl
      · rw [if_neg fun hroom ↦ hlt hroom.2, decide_eq_false hlt, cond_false, List.append_nil]
        rfl
    rw [received_trySend, haccepted, h.received halive]

/-- A worker that goes on. -/
theorem Sound.of_running (h : sub.Sound) (hreceiver : sub'.channel.receiver = sub.channel.receiver)
    (hattempts : sub'.attempts = sub.attempts) (hpc : ∀ aborted, sub.pc ≠ .stopped aborted)
    (hpc' : ∀ aborted, sub'.pc ≠ .stopped aborted) (hreceived : sub'.received = sub.received) :
    sub'.Sound where
  receiver := by
    rw [hreceiver]
    exact ⟨fun _ ↦ hpc', fun _ ↦ h.receiver.2 hpc⟩
  found := hattempts ▸ h.found
  received halive := by
    rw [hreceived, h.received (hreceiver ▸ halive), accepted, accepted, hattempts]

end Subscriber

variable {s t : World} {action : Action} {k : Uuid} {sub sub' : Subscriber}

/-- **A worker loses nothing until it is aborted**, and then only what waits.  What it has handled
or begun to handle stays in what it has received. -/
theorem WorkerMove.received_cases (h : WorkerMove s k sub action sub') :
    sub'.received = sub.received ∨
      (∃ aborted, sub'.pc = .stopped aborted) ∧ sub'.received = sub.invoked := by
  cases h with
  | received hpc hqueue hreceiver =>
    left
    rw [Subscriber.received, Subscriber.received, Subscriber.invoked, Subscriber.invoked,
      hpc, hqueue]
    simp [Pc.current]
  | returned hpc =>
    left
    rw [Subscriber.received, Subscriber.received, Subscriber.invoked, Subscriber.invoked, hpc]
    simp [Pc.current]
  | closed hpc hqueue hkey =>
    left
    rw [Subscriber.received, Subscriber.received, Subscriber.invoked, Subscriber.invoked, hpc]
    rfl
  | stopped hdropped hpc => exact Or.inr ⟨⟨_, rfl⟩, List.append_nil _⟩

theorem WorkerMove.received_isPrefix (h : WorkerMove s k sub action sub') :
    sub'.received <+: sub.received := by
  rcases h.received_cases with hsame | ⟨-, hcut⟩
  · exact hsame ▸ List.prefix_rfl
  · exact hcut ▸ List.prefix_append ..

theorem WorkerMove.sound (h : WorkerMove s k sub action sub') (hsub : sub.Sound) : sub'.Sound := by
  have hreceived := h.received_cases
  cases h with
  | received hpc hqueue hreceiver =>
    exact hsub.of_running hreceiver.symm rfl (by simp [hpc]) (by simp) (by simpa using hreceived)
  | returned hpc =>
    exact hsub.of_running rfl rfl (by simp [hpc]) (by simp) (by simpa using hreceived)
  | closed hpc hqueue hkey =>
    exact hsub.of_running rfl rfl (by simp [hpc]) (by simp) (by simpa using hreceived)
  | stopped hdropped hpc =>
    refine ⟨⟨fun halive ↦ (by cases halive), fun hpc' ↦ absurd rfl (hpc' _)⟩, hsub.found, ?_⟩
    exact fun halive ↦ by cases halive

theorem WorkerMove.attempts (h : WorkerMove s k sub action sub') :
    sub'.attempts = sub.attempts ∧ sub'.since = sub.since := by
  cases h <;> exact ⟨rfl, rfl⟩

namespace World

/-- The call, the message and the subscriber of a `try_send`.  Other steps do not send, and neither
does a call that has no senders left. -/
def sending (s : World) : Action → Option (ℕ × Message × Uuid)
  | .send n =>
    match s.calls[n]? with
    | some ⟨message, _, k :: _⟩ => some (n, message, k)
    | _ => none
  | _ => none

theorem sending_of_ne (h : ∀ n, action ≠ .send n) : s.sending action = none := by
  cases action with
  | send n => exact absurd rfl (h n)
  | _ => rfl

/-- The call in progress at a position. -/
theorem getElem?_calls {earlier later : List Call} {call : Call}
    (hcalls : s.calls = earlier ++ call :: later) : s.calls[earlier.length]? = some call := by
  rw [hcalls, List.getElem?_append_right le_rfl, Nat.sub_self, List.getElem?_cons_zero]

theorem sending_send {earlier later : List Call} {message : Message} {duplicate : Bool}
    {senders : List Uuid}
    (hcalls : s.calls = earlier ++ ⟨message, duplicate, k :: senders⟩ :: later) :
    s.sending (.send earlier.length) = some (earlier.length, message, k) := by
  rw [sending, getElem?_calls hcalls]

/-- **Only a send adds to what a subscriber has received.**  Any other step leaves it, or cuts off
what was waiting, or inserts a subscriber that has received nothing. -/
theorem received_of_step (hstep : s.step action = some t) (haction : ∀ n, action ≠ .send n)
    (hsub' : t.subscribers k = some sub') :
    sub'.received = [] ∨ ∃ sub, s.subscribers k = some sub ∧ sub'.received <+: sub.received := by
  cases move_of_step hstep with
  | sent hcalls hsub => exact absurd rfl (haction _)
  | subscribed hnew =>
    rcases setSubscriber_eq_some_iff.1 hsub' with ⟨rfl, rfl⟩ | ⟨-, hsame⟩
    · exact Or.inl rfl
    · exact Or.inr ⟨sub', hsame, List.prefix_rfl⟩
  | worked hsub hmove =>
    rcases setSubscriber_eq_some_iff.1 hsub' with ⟨rfl, rfl⟩ | ⟨-, hsame⟩
    · exact Or.inr ⟨_, hsub, hmove.received_isPrefix⟩
    · exact Or.inr ⟨sub', hsame, List.prefix_rfl⟩
  | @removed k' sub hsub hpc =>
    rcases setSubscriber_eq_some_iff.1 hsub' with ⟨rfl, rfl⟩ | ⟨-, hsame⟩
    · refine Or.inr ⟨sub, hsub, ?_⟩
      show sub.handled ++ [] ++ [] <+: sub.handled ++ sub.pc.current.toList ++ sub.channel.queue
      rw [List.append_nil, List.append_nil, List.append_assoc]
      exact List.prefix_append ..
    · exact Or.inr ⟨sub', hsame, List.prefix_rfl⟩
  | rejected | entered | dropped => exact Or.inr ⟨sub', hsub', List.prefix_rfl⟩

/-- **A step keeps what is true of every subscriber exactly if its send does.**  `Q` holds of the
beginnings of what it holds of, so nothing but a send can end it. -/
theorem forall_received_step_iff {Q : List Message → Prop}
    {C : ℕ → Message → Uuid → Subscriber → Prop}
    (hfront : ∀ xs ys, xs <+: ys → Q ys → Q xs) (hnil : Q [])
    (h : ∀ k sub, s.subscribers k = some sub → Q sub.received) (hstep : s.step action = some t)
    (hsend : ∀ n message k sub, s.sending action = some (n, message, k) →
      s.subscribers k = some sub → (Q (sub.trySend message).received ↔ C n message k sub)) :
    (∀ k sub, t.subscribers k = some sub → Q sub.received) ↔
      ∀ n message k sub, s.sending action = some (n, message, k) → s.subscribers k = some sub →
        C n message k sub := by
  by_cases haction : ∀ n, action ≠ .send n
  · refine ⟨fun _ n message k sub hsending ↦ ?_, fun _ k sub' hsub' ↦ ?_⟩
    · cases (sending_of_ne haction).symm.trans hsending
    · rcases received_of_step hstep haction hsub' with hempty | ⟨sub, hsub, hkept⟩
      · exact hempty ▸ hnil
      · exact hfront _ _ hkept (h k sub hsub)
  · push Not at haction
    obtain ⟨n, rfl⟩ := haction
    cases move_of_step hstep with
    | @sent earlier later message duplicate k senders sub hcalls hsub =>
      have hiff := hsend _ message k sub (sending_send hcalls) hsub
      constructor
      · intro ht n message' k' sub' hsending hsub'
        obtain ⟨rfl, rfl, rfl⟩ : earlier.length = n ∧ message = message' ∧ k = k' := by
          simpa using (sending_send hcalls).symm.trans hsending
        obtain rfl := Option.some_inj.1 (hsub.symm.trans hsub')
        exact hiff.1 (ht k _ (setSubscriber_eq_some_iff.2 (Or.inl ⟨rfl, rfl⟩)))
      · intro hall k' sub' hsub'
        rcases setSubscriber_eq_some_iff.1 hsub' with ⟨rfl, rfl⟩ | ⟨-, hsame⟩
        · exact hiff.2 (hall _ message k' sub (sending_send hcalls) hsub)
        · exact h k' sub' hsame
    | worked _ hmove => cases hmove

end World

/-! ## What the calls have sent

The calls are numbered, and a subscriber knows how many there were before it came.  What has been
sent to it are the messages of the later calls which do not have its sender any more, in the order
of the calls. -/

namespace World

/-- What the calls after the first few have sent to a subscriber, in the order of the calls.  A call
that does not have the sender any more has sent; one that has it still will. -/
def sentTo (s : World) (k : Uuid) (since : ℕ) : List Message :=
  ((s.calls.drop since).filter fun call ↦ k ∉ call.senders).map Call.message

/-- A new call has not sent anything. -/
theorem sentTo_enter {envelope : EventEnvelope} {senders : List Uuid} {since : ℕ}
    (hk : k ∈ senders) (hsince : since ≤ s.calls.length) :
    (s.enter envelope senders).sentTo k since = s.sentTo k since := by
  show (((s.calls ++ [_]).drop since).filter _).map Call.message = _
  rw [List.drop_append_of_le_length hsince, List.filter_append, List.filter_singleton]
  simp [hk, sentTo]

/-- The call sends to the subscriber.  Its message comes after those of earlier calls and before
those of later ones, which may have sent already; with no later call it comes last. -/
theorem sentTo_sent {earlier later : List Call} {message : Message} {duplicate : Bool}
    {senders : List Uuid} {since : ℕ}
    (hcalls : s.calls = earlier ++ ⟨message, duplicate, k :: senders⟩ :: later)
    (hk : k ∉ senders) (hsince : since ≤ earlier.length) (hcalls' : t.calls =
      earlier ++ ⟨message, duplicate, senders⟩ :: later) :
    ∃ before behind, s.sentTo k since = before ++ behind ∧
      t.sentTo k since = before ++ message :: behind ∧ (later = [] → behind = []) := by
  refine ⟨((earlier.drop since).filter fun call ↦ k ∉ call.senders).map Call.message,
    (later.filter fun call ↦ k ∉ call.senders).map Call.message, ?_, ?_, ?_⟩
  · rw [sentTo, hcalls, List.drop_append_of_le_length hsince, List.filter_append, List.map_append]
    simp
  · rw [sentTo, hcalls', List.drop_append_of_le_length hsince, List.filter_append, List.map_append]
    simp [hk]
  · rintro rfl
    rfl

/-- Sending to one subscriber is not sending to another. -/
theorem sentTo_sent_of_ne {earlier later : List Call} {message : Message} {duplicate : Bool}
    {k' : Uuid} {senders : List Uuid} (since : ℕ)
    (hcalls : s.calls = earlier ++ ⟨message, duplicate, k' :: senders⟩ :: later) (hne : k ≠ k')
    (hcalls' : t.calls = earlier ++ ⟨message, duplicate, senders⟩ :: later) :
    t.sentTo k since = s.sentTo k since := by
  rw [sentTo, sentTo, hcalls, hcalls', List.drop_append, List.drop_append]
  cases since - earlier.length with
  | zero => by_cases hk : k ∈ senders <;> simp [hne, hk]
  | succ n => rfl

/-- The call at a position after one of the calls has used a sender. -/
theorem getElem?_sent {earlier later : List Call} {message : Message} {duplicate : Bool}
    {senders : List Uuid}
    (hcalls : s.calls = earlier ++ ⟨message, duplicate, k :: senders⟩ :: later)
    (hcalls' : t.calls = earlier ++ ⟨message, duplicate, senders⟩ :: later) {i : ℕ} {call : Call}
    (h : t.calls[i]? = some call) :
    ∃ call', s.calls[i]? = some call' ∧ call.senders ⊆ call'.senders := by
  rw [hcalls', List.getElem?_append] at h
  rw [hcalls, List.getElem?_append]
  split at h
  · rename_i hi
    exact ⟨call, by rw [if_pos hi, h], fun _ hk ↦ hk⟩
  · rename_i hi
    rw [if_neg hi]
    cases hj : i - earlier.length with
    | zero =>
      rw [hj, List.getElem?_cons_zero, Option.some_inj] at h
      subst h
      exact ⟨_, List.getElem?_cons_zero, List.subset_cons_self k senders⟩
    | succ j =>
      rw [hj, List.getElem?_cons_succ] at h
      exact ⟨call, by rw [List.getElem?_cons_succ, h], fun _ hk ↦ hk⟩

/-- Every subscriber has been tried with what was sent to it, and only calls that came after it will
still send to it.  `R` says how the two orders are related. -/
structure Fair (R : List Message → List Message → Prop) (s : World) : Prop where
  registered : Registered s
  sound : ∀ k sub, s.subscribers k = some sub → sub.Sound
  since : ∀ k sub, s.subscribers k = some sub → sub.since ≤ s.calls.length
  early : ∀ k sub, s.subscribers k = some sub → ∀ i call, s.calls[i]? = some call →
    k ∈ call.senders → sub.since ≤ i
  sent : ∀ k sub, s.subscribers k = some sub →
    R (sub.attempts.map Prod.fst) (s.sentTo k sub.since)

/-- A send keeps the orders related. -/
def KeepsOrder (R : List Message → List Message → Prop) (s : World) : Prop :=
  ∀ earlier later message duplicate k senders,
    s.calls = earlier ++ ⟨message, duplicate, k :: senders⟩ :: later →
    ∀ tried before behind, (later = [] → behind = []) → R tried (before ++ behind) →
      R (tried ++ [message]) (before ++ message :: behind)

variable {R : List Message → List Message → Prop}

theorem fair_initial : Fair R initial where
  registered := registered_initial
  sound _ _ hsub := by cases hsub
  since _ _ hsub := by cases hsub
  early _ _ hsub := by cases hsub
  sent _ _ hsub := by cases hsub

/-- A step that leaves the calls and what a subscriber was tried with as they are.  These are the
steps of a worker, of a subscription and of the map. -/
theorem Fair.of_same (h : Fair R s) (ht : Registered t) (hcalls : t.calls = s.calls)
    (hsub : ∀ k sub', t.subscribers k = some sub' → ∃ sub, s.subscribers k = some sub ∧ sub'.Sound ∧
      sub'.attempts = sub.attempts ∧ sub'.since = sub.since) : Fair R t := by
  refine ⟨ht, fun k sub' hsub' ↦ ?_, fun k sub' hsub' ↦ ?_, fun k sub' hsub' ↦ ?_,
    fun k sub' hsub' ↦ ?_⟩ <;> obtain ⟨sub, hs, hsound, hattempts, hsince⟩ := hsub k sub' hsub'
  · exact hsound
  · rw [hcalls, hsince]
    exact h.since k sub hs
  · rw [hcalls, hsince]
    exact h.early k sub hs
  · rw [sentTo, hcalls, hattempts, hsince]
    exact h.sent k sub hs

/-- A call goes through the critical section. -/
theorem Fair.enter (h : Fair R s) {envelope : EventEnvelope} {senders : List Uuid}
    (ht : Registered (s.enter envelope senders))
    (hsenders : ∀ k, k ∈ senders ↔ k ∈ s.inner.subscribers) :
    Fair R (s.enter envelope senders) := by
  refine ⟨ht, h.sound, fun k sub hsub ↦ ?_, fun k sub hsub i call hcall hk ↦ ?_,
    fun k sub hsub ↦ ?_⟩
  · refine (h.since k sub hsub).trans ?_
    rw [World.enter, List.length_append]
    exact Nat.le_add_right ..
  · by_cases hi : i < s.calls.length
    · refine h.early k sub hsub i call ?_ hk
      rwa [World.enter, List.getElem?_append_left hi] at hcall
    · exact (h.since k sub hsub).trans (not_lt.1 hi)
  · have hk : k ∈ senders :=
      (hsenders k).2 ((h.registered.keys k).2 (Option.isSome_of_eq_some hsub))
    rw [sentTo_enter hk (h.since k sub hsub)]
    exact h.sent k sub hsub

/-- A call uses a sender. -/
theorem Fair.send (h : Fair R s) (hkeeps : KeepsOrder R s) {earlier later : List Call}
    {message : Message} {duplicate : Bool} {senders : List Uuid}
    (hcalls : s.calls = earlier ++ ⟨message, duplicate, k :: senders⟩ :: later)
    (hsub : s.subscribers k = some sub) (ht : Registered (setSubscriber k (sub.trySend message)
      { s with calls := earlier ++ ⟨message, duplicate, senders⟩ :: later })) :
    Fair R (setSubscriber k (sub.trySend message)
      { s with calls := earlier ++ ⟨message, duplicate, senders⟩ :: later }) := by
  have hmem : (⟨message, duplicate, k :: senders⟩ : Call) ∈ s.calls := by
    rw [hcalls]
    exact List.mem_append_right _ List.mem_cons_self
  have hk : k ∉ senders := (List.nodup_cons.1 (h.registered.senders _ hmem).1).1
  have hlength : earlier.length < s.calls.length := by
    rw [hcalls, List.length_append, List.length_cons]
    omega
  have hsince : sub.since ≤ earlier.length :=
    h.early k sub hsub _ _ (getElem?_calls hcalls) List.mem_cons_self
  refine ⟨ht, fun k' sub' hsub' ↦ ?_, fun k' sub' hsub' ↦ ?_,
    fun k' sub' hsub' i call hcall hk' ↦ ?_,
    fun k' sub' hsub' ↦ ?_⟩
  · rcases setSubscriber_eq_some_iff.1 hsub' with ⟨rfl, rfl⟩ | ⟨-, hsame⟩
    · exact (h.sound k' sub hsub).trySend message
    · exact h.sound k' sub' hsame
  · have hle : sub'.since ≤ s.calls.length := by
      rcases setSubscriber_eq_some_iff.1 hsub' with ⟨rfl, rfl⟩ | ⟨-, hsame⟩
      · exact h.since k' sub hsub
      · exact h.since k' sub' hsame
    rw [hcalls] at hle
    simpa [setSubscriber] using hle
  · obtain ⟨call', hcall', hsubset⟩ := getElem?_sent (t := setSubscriber k (sub.trySend message)
      { s with calls := earlier ++ ⟨message, duplicate, senders⟩ :: later }) hcalls rfl hcall
    rcases setSubscriber_eq_some_iff.1 hsub' with ⟨rfl, rfl⟩ | ⟨-, hsame⟩
    · exact h.early k' sub hsub i call' hcall' (hsubset hk')
    · exact h.early k' sub' hsame i call' hcall' (hsubset hk')
  · rcases setSubscriber_eq_some_iff.1 hsub' with ⟨rfl, rfl⟩ | ⟨hne, hsame⟩
    · obtain ⟨before, behind, hbefore, hafter, hlast⟩ := sentTo_sent (t := setSubscriber k'
        (sub.trySend message) { s with calls := earlier ++ ⟨message, duplicate, senders⟩ :: later })
        hcalls hk hsince rfl
      have hsent := h.sent k' sub hsub
      rw [hbefore] at hsent
      show R ((sub.attempts ++ [(message, _)]).map Prod.fst) (sentTo _ k' sub.since)
      rw [hafter, List.map_append]
      exact hkeeps _ _ _ _ _ _ hcalls _ _ _ hlast hsent
    · rw [sentTo_sent_of_ne sub'.since hcalls hne rfl]
      exact h.sent k' sub' hsame

/-- A subscriber is inserted, and no call knows of it. -/
theorem Fair.subscribe (h : Fair R s) {t : World} (ht : Registered t)
    (hnew : s.subscribers k = none) (hnil : R [] []) (hcalls : t.calls = s.calls)
    (hsubs : t.subscribers = (s.setSubscriber k (.new s.calls.length)).subscribers) : Fair R t := by
  have hcases : ∀ k' sub', t.subscribers k' = some sub' →
      k' = k ∧ sub' = .new s.calls.length ∨ k' ≠ k ∧ s.subscribers k' = some sub' :=
    fun k' sub' hsub' ↦ setSubscriber_eq_some_iff.1 (hsubs ▸ hsub')
  refine ⟨ht, fun k' sub' hsub' ↦ ?_, fun k' sub' hsub' ↦ ?_,
    fun k' sub' hsub' i call hcall hk' ↦ ?_,
    fun k' sub' hsub' ↦ ?_⟩ <;> rcases hcases k' sub' hsub' with ⟨rfl, rfl⟩ | ⟨-, hsame⟩
  · exact Subscriber.sound_new _
  · exact h.sound k' sub' hsame
  · rw [hcalls]
    exact le_rfl
  · rw [hcalls]
    exact h.since k' sub' hsame
  · rw [hcalls] at hcall
    obtain ⟨found, hfound⟩ := h.registered.exists_subscriber (List.mem_of_getElem? hcall) hk'
    cases hnew.symm.trans hfound
  · rw [hcalls] at hcall
    exact h.early k' sub' hsame i call hcall hk'
  · have hnothing : t.sentTo k' s.calls.length = [] := by
      rw [sentTo, hcalls, List.drop_length]
      rfl
    show R [] (t.sentTo k' s.calls.length)
    rw [hnothing]
    exact hnil
  · rw [sentTo, hcalls]
    exact h.sent k' sub' hsame

/-- **Every step is fair**, if it keeps the orders related.  That is a condition on sends only; a
new call has sent nothing, and a new subscriber is owed nothing. -/
theorem fair_step (h : Fair R s) (hnil : R [] []) (hkeeps : KeepsOrder R s)
    (hstep : s.step action = some t) : Fair R t := by
  have ht := registered_step h.registered hstep
  cases move_of_step hstep with
  | rejected hinvalid =>
    exact h.of_same ht rfl fun k sub hsub ↦ ⟨sub, hsub, h.sound k sub hsub, rfl, rfl⟩
  | entered hvalid hnodup hsenders => exact h.enter ht hsenders
  | sent hcalls hsub => exact h.send hkeeps hcalls hsub ht
  | subscribed hnew => exact h.subscribe ht hnew hnil rfl rfl
  | @worked action k sub sub' hsub hmove =>
    refine h.of_same ht rfl fun k' sub'' hsub' ↦ ?_
    rcases setSubscriber_eq_some_iff.1 hsub' with ⟨rfl, rfl⟩ | ⟨-, hsame⟩
    · exact ⟨sub, hsub, hmove.sound (h.sound k' sub hsub), hmove.attempts⟩
    · exact ⟨sub'', hsame, h.sound k' sub'' hsame, rfl, rfl⟩
  | dropped hk => exact h.of_same ht rfl fun k sub hsub ↦ ⟨sub, hsub, h.sound k sub hsub, rfl, rfl⟩
  | @removed k sub hsub hpc => exact absurd hpc (h.registered.running k sub hsub)

/-- A send only moves a message from what is owed to what was tried. -/
theorem keepsOrder_perm (s : World) : KeepsOrder List.Perm s := by
  intro earlier later message duplicate k senders _ tried before behind _ htried
  have happend : (tried ++ [message]).Perm (before ++ behind ++ [message]) :=
    htried.append_right [message]
  have hmove : (before ++ behind ++ [message]).Perm (before ++ message :: behind) :=
    (List.perm_append_singleton ..).trans List.perm_middle.symm
  exact happend.trans hmove

/-- **Every subscriber is tried once with everything that is sent to it**, whatever the calls do.
Two calls that overlap may send in either order, and that is all that is open. -/
theorem fair_of_reachable (h : Reachable step initial s) : Fair List.Perm s :=
  h.invariant fair_initial fun s _ _ hs hstep ↦ fair_step hs List.Perm.nil (keepsOrder_perm s) hstep

/-! ## Calls that do not overlap

Then all calls but the last have used all of their senders, so whatever is sent comes after
everything that was sent before. -/

instance (s : World) : Decidable s.Quiet :=
  inferInstanceAs (Decidable (∀ call ∈ s.calls, call.senders = []))

/-- The step does not begin a call of `publish` while another is in progress. -/
def Apart (s : World) : Action → Prop
  | .publish _ _ => s.Quiet
  | _ => True

instance (s : World) : ∀ action, Decidable (s.Apart action)
  | .publish _ _ => inferInstanceAs (Decidable s.Quiet)
  | .send _ | .subscribe _ | .receive _ | .returned _ _ | .drop _ | .stop _ | .closed _
  | .remove _ =>
    isTrue trivial

/-- Only the last call may be in progress: the senders of all earlier ones are used up.  It is what
is left, as an invariant, of calls that do not overlap. -/
def LastOnly (s : World) : Prop := ∀ call ∈ s.calls.dropLast, call.senders = []

/-- Nothing comes after a call in progress. -/
theorem LastOnly.later_eq_nil (h : s.LastOnly) {earlier later : List Call} {call : Call}
    (hcalls : s.calls = earlier ++ call :: later) (hcall : call.senders ≠ []) : later = [] := by
  by_contra hlater
  refine hcall (h call ?_)
  rw [hcalls, List.dropLast_append_of_ne_nil (List.cons_ne_nil _ _),
    List.dropLast_cons_of_ne_nil hlater]
  exact List.mem_append_right _ List.mem_cons_self

theorem lastOnly_step (h : s.LastOnly) (hapart : s.Apart action) (hstep : s.step action = some t) :
    t.LastOnly := by
  cases move_of_step hstep with
  | entered hvalid hnodup hsenders =>
    intro call hcall
    rw [enter, List.dropLast_concat] at hcall
    exact hapart call hcall
  | @sent earlier later message duplicate k senders sub hcalls hsub =>
    obtain rfl := h.later_eq_nil hcalls (List.cons_ne_nil _ _)
    intro call hcall
    rw [LastOnly, hcalls, List.dropLast_concat] at h
    have hlast : (earlier ++ [(⟨message, duplicate, senders⟩ : Call)]).dropLast = earlier :=
      List.dropLast_concat
    exact h call (hlast ▸ hcall)
  | _ => exact h

/-- If only the last call sends, everything is tried in the order of the calls. -/
theorem LastOnly.keepsOrder (h : s.LastOnly) : KeepsOrder Eq s := by
  intro earlier later message duplicate k senders hcalls tried before behind hlast htried
  obtain rfl := hlast (h.later_eq_nil hcalls (List.cons_ne_nil _ _))
  rw [htried, List.append_nil]

/-- **In a run of calls that do not overlap, everything is tried in the order of the calls.**  While
only the last call sends, there is no later message that could have come before. -/
theorem fair_of_apart {as : List Action} (hapart : StepsMeet step Apart initial as)
    (hrun : run step initial as = some s) : Fair Eq s := by
  refine (StepsMeet.invariant (I := fun s ↦ Fair Eq s ∧ s.LastOnly)
    (fun s a t ⟨hs, hlast⟩ ha hstep ↦ ?_) ⟨fair_initial, fun call hcall ↦ by cases hcall⟩ hapart
    (visits_of_run hrun)).1
  exact ⟨fair_step hs rfl hlast.keepsOrder hstep, lastOnly_step hlast ha hstep⟩

theorem lastOnly_of_apart {as : List Action} (hapart : StepsMeet step Apart initial as)
    (hrun : run step initial as = some s) : s.LastOnly :=
  StepsMeet.invariant (I := LastOnly) (fun _ _ _ hs ha hstep ↦ lastOnly_step hs ha hstep)
    (fun call hcall ↦ by cases hcall) hapart (visits_of_run hrun)

/-- If only the last call sends, a subscriber has been sent the first messages. -/
theorem LastOnly.sentTo_isPrefix (h : s.LastOnly) (k : Uuid) : s.sentTo k 0 <+: s.messages := by
  rw [sentTo, List.drop_zero, messages]
  refine List.IsPrefix.map _ ?_
  cases hcalls : s.calls.getLast? with
  | none =>
    rw [List.getLast?_eq_none_iff] at hcalls
    rw [hcalls]
    exact List.prefix_rfl
  | some call =>
    obtain ⟨earlier, hcalls⟩ := List.getLast?_eq_some_iff.1 hcalls
    rw [LastOnly, hcalls, List.dropLast_concat] at h
    have hall : (earlier.filter fun call ↦ k ∉ call.senders) = earlier :=
      List.filter_eq_self.2 fun call hcall ↦ by simp [h call hcall]
    rw [hcalls, List.filter_append, hall, List.prefix_append_right_inj]
    by_cases hk : k ∈ call.senders <;> simp [hk]

/-- When no call is in progress, everything has been sent. -/
theorem Quiet.sentTo_eq (h : s.Quiet) (k : Uuid) (since : ℕ) :
    s.sentTo k since = (s.calls.drop since).map Call.message := by
  have hall : ((s.calls.drop since).filter fun call ↦ k ∉ call.senders) = s.calls.drop since :=
    List.filter_eq_self.2 fun call hcall ↦ by simp [h call (List.mem_of_mem_drop hcall)]
  rw [sentTo, hall]

end World

/-- The receiver of a live subscription is there. -/
theorem World.Fair.receiver_of_live {R : List Message → List Message → Prop} (h : s.Fair R)
    (hsub : s.subscribers k = some sub) (hlive : k ∈ s.subscriptions) :
    sub.channel.receiver = true :=
  (h.sound k sub hsub).receiver.2 fun aborted hpc ↦
    h.registered.stopped k sub aborted hsub hpc hlive

/-- An event about users. -/
def userEvent (id : Uuid) : EventEnvelope where
  id := id
  eventType := "user.created"
  source := "tests"
  timestamp := 0
  causationId := none
  correlationId := none
  schemaVersion := 1
  payload := .emptyObject

end InMemoryBus

end PhenoEvents
