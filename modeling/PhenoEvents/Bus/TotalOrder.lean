import PhenoEvents.Bus.FanOut

/-!
# One order for all subscribers

The critical section of `publish` puts the events in order, and links each of them to the one before
(`chained`).  The sends come after the lock is released, so a call may overtake another on its way
to a subscriber.  Then that subscriber is told of a `last_seen` it has not seen.

`oneOrder_iff`: all subscribers see the order of the critical sections exactly if no call ever sends
to a subscriber before its turn.  `overtakenRun_out_of_order` is two calls that pass each other.

## What is here

* `Chained`: the messages of the calls are the chain of their envelopes.  It holds of every
  reachable state, since it is about the critical sections alone.
* `InOrder`: every subscriber has received the first messages.  `InTurn` is the condition on a send,
  in the state before it: no earlier call still has a sender of this subscriber.
* `inOrder_step_iff`: a step that keeps the order is in turn, and one that is in turn keeps it.
* `OneOrder`: the order in the terms of a subscriber.  It has received a beginning of the chain,
  each event comes with the id of the one before, and of two subscribers one is behind the other.

That the order is lost needs two calls at the same time.  Calls that are made one after another send
in turn, and `interleavedRun_oneOrder` shows that calls at the same time may do so too.
-/

set_option autoImplicit false

namespace PhenoEvents

/-- Every event with the id of the one before it. -/
def chained (previous : Option Uuid) : List EventEnvelope → List Message
  | [] => []
  | envelope :: rest => ⟨envelope, previous⟩ :: chained (some envelope.id) rest

theorem chained_concat (previous : Option Uuid) (envelopes : List EventEnvelope)
    (envelope : EventEnvelope) :
    chained previous (envelopes ++ [envelope]) = chained previous envelopes ++
      [⟨envelope, (envelopes.getLast?.map EventEnvelope.id).or previous⟩] := by
  induction envelopes generalizing previous with
  | nil => rfl
  | cons e rest ih =>
    have hlast : (rest.getLast?.map EventEnvelope.id).or (some e.id) =
        ((e :: rest).getLast?.map EventEnvelope.id).or previous := by
      rw [List.getLast?_cons]
      cases rest.getLast? <;> rfl
    rw [List.cons_append, chained, ih, hlast]
    rfl

/-- A chain goes on where it was. -/
theorem chained_isPrefix (previous : Option Uuid) {xs ys : List EventEnvelope} (h : xs <+: ys) :
    chained previous xs <+: chained previous ys := by
  induction xs generalizing previous ys with
  | nil => exact List.nil_prefix
  | cons e rest ih =>
    obtain ⟨behind, rfl⟩ := h
    exact List.cons_prefix_cons.2 ⟨rfl, ih (some e.id) (List.prefix_append rest behind)⟩

/-- A beginning of a chain is a chain. -/
theorem eq_chained_of_prefix {previous : Option Uuid} {envelopes : List EventEnvelope}
    {messages : List Message} (h : messages <+: chained previous envelopes) :
    messages = chained previous (messages.map Message.envelope) := by
  induction envelopes generalizing previous messages with
  | nil =>
    obtain rfl := List.prefix_nil.1 h
    rfl
  | cons e rest ih =>
    cases messages with
    | nil => rfl
    | cons m messages =>
      obtain ⟨rfl, hrest⟩ := List.cons_prefix_cons.1 h
      exact congrArg _ (ih hrest)

namespace InMemoryBus

open Transition

namespace World

variable {s t : World} {action : Action} {k : Uuid} {sub : Subscriber}

/-! ## The critical sections

They exclude each other, so their order is that of the list of calls. -/

/-- The critical sections chain the events. -/
structure Chained (s : World) : Prop where
  lastSeen : s.inner.lastSeen = s.messages.getLast?.map Message.id
  messages : s.messages = chained none (s.messages.map Message.envelope)

/-- A send leaves the messages as they are. -/
theorem messages_sent {earlier later : List Call} {message : Message} {duplicate : Bool}
    {senders : List Uuid}
    (hcalls : s.calls = earlier ++ ⟨message, duplicate, k :: senders⟩ :: later)
    (hcalls' : t.calls = earlier ++ ⟨message, duplicate, senders⟩ :: later) :
    t.messages = s.messages := by
  rw [messages, messages, hcalls, hcalls', List.map_append, List.map_append]
  rfl

/-- A step adds a message at most, and then the call comes with the id of the last one. -/
theorem messages_step (hstep : s.step action = some t) :
    t.messages = s.messages ∧ t.inner.lastSeen = s.inner.lastSeen ∨
      ∃ envelope, t.messages = s.messages ++ [⟨envelope, s.inner.lastSeen⟩] ∧
        t.inner.lastSeen = some envelope.id := by
  cases move_of_step hstep with
  | @entered envelope senders hvalid hnodup hsenders =>
    refine Or.inr ⟨envelope, ?_, rfl⟩
    rw [messages, enter, List.map_append]
    rfl
  | sent hcalls hsub => exact Or.inl ⟨messages_sent hcalls rfl, rfl⟩
  | worked hsub hmove => exact Or.inl ⟨rfl, rfl⟩
  | _ => exact Or.inl ⟨rfl, rfl⟩

theorem chained_step (h : s.Chained) (hstep : s.step action = some t) : t.Chained := by
  rcases messages_step hstep with ⟨hmessages, hlast⟩ | ⟨envelope, hmessages, hlast⟩
  · exact ⟨by rw [hlast, hmessages, h.lastSeen], by rw [hmessages]; exact h.messages⟩
  · refine ⟨by rw [hlast, hmessages, List.getLast?_concat]; rfl, ?_⟩
    rw [hmessages, List.map_append, List.map_singleton, chained_concat, ← h.messages, h.lastSeen,
      List.getLast?_map, Option.map_map, Option.or_none]
    rfl

theorem chained_of_reachable (h : Reachable step initial s) : s.Chained :=
  h.invariant ⟨rfl, rfl⟩ fun _ _ _ hs hstep ↦ chained_step hs hstep

/-- Messages are only ever added. -/
theorem messages_isPrefix (hstep : s.step action = some t) : s.messages <+: t.messages := by
  rcases messages_step hstep with ⟨hmessages, -⟩ | ⟨envelope, hmessages, -⟩
  · rw [hmessages]
  · rw [hmessages]
    exact List.prefix_append ..

/-- What a send does. -/
theorem step_of_sending {n : ℕ} {message : Message}
    (hsending : s.sending action = some (n, message, k)) (hsub : s.subscribers k = some sub)
    (hstep : s.step action = some t) : ∃ call, s.calls[n]? = some call ∧ call.message = message ∧
      k ∈ call.senders ∧ t.subscribers k = some (sub.trySend message) ∧
      t.messages = s.messages := by
  by_cases haction : ∀ n, action ≠ .send n
  · cases (sending_of_ne haction).symm.trans hsending
  · push Not at haction
    obtain ⟨n, rfl⟩ := haction
    cases move_of_step hstep with
    | @sent earlier later message' duplicate k' senders sub' hcalls hsub' =>
      obtain ⟨rfl, rfl, rfl⟩ : earlier.length = _ ∧ message' = message ∧ k' = k := by
        simpa using (sending_send hcalls).symm.trans hsending
      obtain rfl := Option.some_inj.1 (hsub.symm.trans hsub')
      exact ⟨_, getElem?_calls hcalls, rfl, List.mem_cons_self,
        setSubscriber_eq_some_iff.2 (Or.inl ⟨rfl, rfl⟩), messages_sent hcalls rfl⟩
    | worked _ hmove => cases hmove

/-! ## The order of one subscriber

Under the assumptions, a subscriber has received what has been sent to it, and the message of a call
is unlike that of any other.  So how many messages it has received tells whose turn it is. -/

/-- The ids are distinct, every subscriber was there before the first call, and none of them has had
a full queue.  Each of the three can be seen in a state, so they are assumed of every state of the
run. -/
structure Assumed (s : World) : Prop where
  distinct : (s.messages.map Message.id).Nodup
  early : ∀ k sub, s.subscribers k = some sub → sub.since = 0
  roomy : ∀ k sub, s.subscribers k = some sub → ∀ a ∈ sub.attempts, a.2 < subscriberQueue

/-- Every subscriber has received the first events, in the order of the critical sections. -/
def InOrder (s : World) : Prop :=
  ∀ k sub, s.subscribers k = some sub → sub.received <+: s.messages

/-- A `try_send` to a subscriber that is there comes after those of all earlier calls.  Only the
state before it and the action are mentioned. -/
def InTurn (s : World) (action : Action) : Prop :=
  ∀ n message k sub, s.sending action = some (n, message, k) → s.subscribers k = some sub →
    sub.channel.receiver = true → ∀ call ∈ s.calls.take n, k ∉ call.senders

instance (s : World) (action : Action) : Decidable (s.InTurn action) :=
  match hsending : s.sending action with
  | none => isTrue fun n message k sub h ↦ by cases hsending.symm.trans h
  | some (n, message, k) =>
    match hsub : s.subscribers k with
    | none => isTrue fun n' message' k' sub h hsub' ↦ by
        obtain ⟨-, -, rfl⟩ : n = n' ∧ message = message' ∧ k = k' := by
          simpa using hsending.symm.trans h
        cases hsub.symm.trans hsub'
    | some sub =>
      decidable_of_iff (sub.channel.receiver = true →
        ∀ call ∈ s.calls.take n, k ∉ call.senders) <| by
        constructor
        · intro hturn n' message' k' sub' h hsub'
          obtain ⟨rfl, -, rfl⟩ : n = n' ∧ message = message' ∧ k = k' := by
            simpa using hsending.symm.trans h
          exact Option.some_inj.1 (hsub.symm.trans hsub') ▸ hturn
        · exact fun hturn ↦ hturn n message k sub hsending hsub

/-- What a subscriber has received is what has been sent to it. -/
theorem Assumed.received_perm (h : s.Assumed) (hs : s.Fair List.Perm)
    (hsub : s.subscribers k = some sub) (halive : sub.channel.receiver = true) :
    sub.received.Perm (s.sentTo k 0) := by
  have hsent := hs.sent k sub hsub
  rw [h.early k sub hsub] at hsent
  rw [(hs.sound k sub hsub).received halive, Subscriber.accepted_of_roomy (h.roomy k sub hsub)]
  exact hsent

/-- A call has sent to a subscriber exactly if the subscriber has its message. -/
theorem Assumed.mem_received_iff (h : s.Assumed) (hs : s.Fair List.Perm)
    (hsub : s.subscribers k = some sub) (halive : sub.channel.receiver = true) {call : Call}
    (hcall : call ∈ s.calls) : call.message ∈ sub.received ↔ k ∉ call.senders := by
  rw [(h.received_perm hs hsub halive).mem_iff, sentTo, List.drop_zero, List.mem_map]
  simp only [List.mem_filter, decide_eq_true_eq]
  have hcalls : (s.calls.map Call.message).Nodup := h.distinct.of_map _
  constructor
  · rintro ⟨call', ⟨hcall', hk⟩, hsame⟩
    rwa [List.inj_on_of_nodup_map hcalls hcall' hcall hsame] at hk
  · exact fun hk ↦ ⟨call, ⟨hcall, hk⟩, rfl⟩

/-- The call whose turn it is. -/
theorem Assumed.lt_length_iff (h : s.Assumed) (hs : s.Fair List.Perm)
    (hsub : s.subscribers k = some sub) (halive : sub.channel.receiver = true)
    (horder : sub.received <+: s.messages) {i : ℕ} {call : Call} (hcall : s.calls[i]? = some call) :
    i < sub.received.length ↔ k ∉ call.senders := by
  have hnodup : s.messages.Nodup := h.distinct.of_map _
  obtain ⟨hi, hcall'⟩ := List.getElem?_eq_some_iff.1 hcall
  have hi' : i < s.messages.length := by rwa [messages, List.length_map]
  have hmessage : s.messages[i] = call.message := by simp only [messages, List.getElem_map, hcall']
  rw [← h.mem_received_iff hs hsub halive (List.mem_of_getElem? hcall), ← hmessage,
    List.prefix_iff_eq_take.1 horder, List.mem_take_iff_idxOf_lt (List.getElem_mem hi'),
    hnodup.idxOf_getElem i hi', List.length_take]
  have hle := horder.length_le
  omega

/-- **A send keeps the order exactly if it comes in turn.**  The subscriber has received as many
messages as there are calls that have sent to it, so the next one must be that of the next call. -/
theorem Assumed.prefix_append_iff (h : s.Assumed) (hs : s.Fair List.Perm)
    (hsub : s.subscribers k = some sub) (halive : sub.channel.receiver = true)
    (horder : sub.received <+: s.messages) {n : ℕ} {call : Call} (hcall : s.calls[n]? = some call)
    (hk : k ∈ call.senders) : sub.received ++ [call.message] <+: s.messages ↔
      ∀ call' ∈ s.calls.take n, k ∉ call'.senders := by
  have hnodup : s.messages.Nodup := h.distinct.of_map _
  obtain ⟨hn, hcall'⟩ := List.getElem?_eq_some_iff.1 hcall
  have hle : sub.received.length ≤ n :=
    not_lt.1 fun hlt ↦ (h.lt_length_iff hs hsub halive horder hcall).1 hlt hk
  have hn' : n < s.messages.length := by rwa [messages, List.length_map]
  have hmessage : s.messages[n] = call.message := by simp only [messages, List.getElem_map, hcall']
  have hnext : sub.received ++ [call.message] <+: s.messages ↔ sub.received.length = n := by
    constructor
    · intro hfront
      have hlength : sub.received.length < (sub.received ++ [call.message]).length := by simp
      have hsame : call.message = s.messages[sub.received.length] := by
        simpa using hfront.getElem hlength
      exact (hnodup.getElem_inj_iff.1 (hmessage.trans hsame)).symm
    · intro hlength
      have htake : sub.received = s.messages.take n :=
        hlength ▸ List.prefix_iff_eq_take.1 horder
      rw [htake, ← hmessage, List.take_append_getElem]
      exact List.take_prefix ..
  rw [hnext]
  constructor
  · rintro rfl call' hcall'
    obtain ⟨i, hi, hcall'⟩ := List.mem_take_iff_getElem.1 hcall'
    rw [lt_min_iff] at hi
    exact (h.lt_length_iff hs hsub halive horder
      (List.getElem?_eq_some_iff.2 ⟨hi.2, hcall'⟩)).1 hi.1
  · intro hturn
    by_contra hne
    have hlt : sub.received.length < n := lt_of_le_of_ne hle hne
    have hbehind : s.calls[sub.received.length]? = some s.calls[sub.received.length] :=
      List.getElem?_eq_getElem (hlt.trans hn)
    have hmem : s.calls[sub.received.length] ∈ s.calls.take n :=
      List.mem_take_iff_getElem.2 ⟨_, lt_min hlt (hlt.trans hn), rfl⟩
    exact absurd ((h.lt_length_iff hs hsub halive horder hbehind).2 (hturn _ hmem)) (lt_irrefl _)

/-- **Only a send can break the order.** -/
theorem inOrder_step_iff (hs : s.Fair List.Perm) (h : s.Assumed) (ht : t.Assumed)
    (horder : s.InOrder) (hstep : s.step action = some t) : t.InOrder ↔ s.InTurn action := by
  refine forall_received_step_iff (Q := fun received ↦ received <+: t.messages)
    (C := fun n _ k sub ↦ sub.channel.receiver = true → ∀ call ∈ s.calls.take n, k ∉ call.senders)
    (fun _ _ hfront hys ↦ hfront.trans hys) List.nil_prefix
    (fun k sub hsub ↦ (horder k sub hsub).trans (messages_isPrefix hstep)) hstep ?_
  intro n message k sub hsending hsub
  obtain ⟨call, hcall, rfl, hk, hset, hmessages⟩ := step_of_sending hsending hsub hstep
  rw [hmessages, Subscriber.received_trySend]
  by_cases halive : sub.channel.receiver = true
  · have hroom : sub.channel.HasRoom := ⟨halive, ht.roomy k _ hset _ (List.mem_append_right _
      (List.mem_singleton_self _))⟩
    rw [if_pos hroom, h.prefix_append_iff hs hsub halive (horder k sub hsub) hcall hk]
    exact ⟨fun hturn _ ↦ hturn, fun hturn ↦ hturn halive⟩
  · rw [if_neg fun hroom ↦ halive hroom.1]
    exact ⟨fun _ halive' ↦ absurd halive' halive, fun _ ↦ horder k sub hsub⟩

/-! ## All subscribers

If everybody receives a beginning of one list, then of two of them one has received a beginning of
what the other has. -/

/-- Every subscriber sees the order of the critical sections; each event comes to it with the id of
the one it has received just before; and of two subscribers, one has received what the other has,
and maybe more. -/
structure OneOrder (s : World) : Prop where
  inOrder : s.InOrder
  chained : ∀ k sub, s.subscribers k = some sub →
    sub.received = PhenoEvents.chained none (sub.received.map Message.envelope)
  agree : ∀ k k' sub sub', s.subscribers k = some sub → s.subscribers k' = some sub' →
    sub.received <+: sub'.received ∨ sub'.received <+: sub.received

/-- The order of the critical sections says it all. -/
theorem Chained.oneOrder_iff_inOrder (h : s.Chained) : s.OneOrder ↔ s.InOrder := by
  refine ⟨OneOrder.inOrder, fun horder ↦ ⟨horder, fun k sub hsub ↦ ?_, ?_⟩⟩
  · exact eq_chained_of_prefix (h.messages ▸ horder k sub hsub)
  · exact fun k k' sub sub' hsub hsub' ↦
      List.prefix_or_prefix_of_prefix (horder k sub hsub) (horder k' sub' hsub')

/-- The assumptions can be computed. -/
def assumes (s : World) : Bool :=
  (s.messages.map Message.id).Nodup ∧ ∀ k ∈ s.inner.subscribers, (s.subscribers k).all fun sub ↦
    sub.since = 0 ∧ ∀ a ∈ sub.attempts, a.2 < subscriberQueue

theorem assumed_of_assumes (hs : Registered s) (h : s.assumes = true) : s.Assumed := by
  obtain ⟨hdistinct, hall⟩ := of_decide_eq_true h
  have hsub : ∀ k sub, s.subscribers k = some sub →
      sub.since = 0 ∧ ∀ a ∈ sub.attempts, a.2 < subscriberQueue := by
    intro k sub hsub
    have hk := hall k ((hs.keys k).2 (Option.isSome_of_eq_some hsub))
    rw [hsub] at hk
    exact of_decide_eq_true hk
  exact ⟨hdistinct, fun k sub h ↦ (hsub k sub h).1, fun k sub h ↦ (hsub k sub h).2⟩

/-- A run whose states all meet the assumptions. -/
theorem assumed_of_inits {as : List Action}
    (h : (as.inits.all fun bs ↦ (run step initial bs).all assumes) = true) :
    ∀ s, Visits step initial as s → s.Assumed := by
  intro s hs
  obtain ⟨bs, -, hrun⟩ := id hs
  exact assumed_of_assumes (registered_of_reachable ⟨bs, hrun⟩) (forall_visits_of_inits h s hs)

end World

/-- **There is one order exactly as long as no call overtakes another.**  The event ids are
distinct, every subscriber is there before the first call, and no queue is full.  A send comes in
turn if no earlier call still has a sender of the same subscriber. -/
theorem oneOrder_iff (as : List Action)
    (hassumed : ∀ s, Visits World.step .initial as s → s.Assumed) :
    (∀ s, Visits World.step .initial as s → s.OneOrder) ↔
      StepsMeet World.step World.InTurn .initial as := by
  have hchained : ∀ s, Visits World.step .initial as s → (s.OneOrder ↔ s.InOrder) :=
    fun s ⟨bs, _, hrun⟩ ↦ (World.chained_of_reachable ⟨bs, hrun⟩).oneOrder_iff_inOrder
  rw [forall₂_congr hchained]
  refine visits_iff_stepsMeet_of_visits (I := fun s ↦ s.Fair List.Perm ∧ s.Assumed)
    (fun s a t hs ht horder hstep ↦ World.inOrder_step_iff hs.1 hs.2 ht.2 horder hstep)
    (fun s hs ↦ ⟨?_, hassumed s hs⟩) fun k sub hsub ↦ by cases hsub
  obtain ⟨bs, -, hrun⟩ := hs
  exact World.fair_of_reachable ⟨bs, hrun⟩

/-- Two calls send to two subscribers at the same time, in turn. -/
def interleavedRun : List Action :=
  [.subscribe ⟨1⟩, .subscribe ⟨2⟩, .publish (userEvent ⟨1⟩) [⟨1⟩, ⟨2⟩],
    .publish (userEvent ⟨2⟩) [⟨1⟩, ⟨2⟩], .send 0, .send 1, .send 0, .send 1]

/-- Both subscribers see one order. -/
theorem interleavedRun_oneOrder :
    ∃ s, run World.step .initial interleavedRun = some s ∧ s.OneOrder := by
  have hruns : (run World.step .initial interleavedRun).isSome = true := by decide +kernel
  obtain ⟨s, hs⟩ := Option.isSome_iff_exists.1 hruns
  have horder := (oneOrder_iff interleavedRun (World.assumed_of_inits (by decide +kernel))).2
    (by decide +kernel)
  exact ⟨s, hs, horder s (visits_of_run hs)⟩

/-- The second call is the first to send. -/
def overtakenRun : List Action :=
  [.subscribe ⟨1⟩, .publish (userEvent ⟨1⟩) [⟨1⟩], .publish (userEvent ⟨2⟩) [⟨1⟩], .send 1, .send 0]

/-- The subscriber receives the second event first. -/
theorem overtakenRun_out_of_order :
    ¬∀ as, (∀ s, Visits World.step .initial as s → s.Assumed) →
      ∀ s, Visits World.step .initial as s → s.OneOrder := by
  intro h
  have hend : ((run World.step .initial overtakenRun).bind fun s ↦ (s.subscribers ⟨1⟩).map fun sub ↦
      (sub.received.map Message.id, s.messages.map Message.id)) =
      some ([⟨2⟩, ⟨1⟩], [⟨1⟩, ⟨2⟩]) := by
    decide +kernel
  obtain ⟨s, hs, hend⟩ := Option.bind_eq_some_iff.1 hend
  obtain ⟨sub, hsub, hend⟩ := Option.map_eq_some_iff.1 hend
  obtain ⟨hreceived, hmessages⟩ := Prod.ext_iff.1 hend
  have horder := (h overtakenRun (World.assumed_of_inits (by decide +kernel)) s
    (visits_of_run hs)).inOrder ⟨1⟩ sub hsub
  have hfront := horder.map Message.id
  rw [show sub.received.map Message.id = [⟨2⟩, ⟨1⟩] from hreceived,
    show s.messages.map Message.id = [⟨1⟩, ⟨2⟩] from hmessages] at hfront
  exact absurd hfront (by decide)

end InMemoryBus

end PhenoEvents
