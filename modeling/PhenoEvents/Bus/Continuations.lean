import PhenoEvents.Bus.Answers

/-!
# What a bus in memory can always do next

The theorems about `InMemoryBus` say what no run does.  This file is about the runs there are: which
steps are enabled, and where they lead if nobody comes in between.

* `run_sends`: a call of `publish` can use its next senders one after another.  What that does to
  the subscribers is `World.fanOut`, and it does nothing else.
* `run_publish`: a whole call, from its critical section to the last of its senders.
* `exists_run_drain`: a worker that has not been aborted can empty its queue, by handling everything
  that waits in it.

None of these needs a subscriber to be in a particular state: `try_send` never waits, and a worker
only waits for its own queue.

They are used in two places.  A condition on runs is exact only if there is a run that goes wrong
whenever it is not met, and such a run has to be continued until the harm shows in what a handler is
called with.  And a run that is long, because a queue has to be filled, is put together from runs of
single calls instead of being evaluated.
-/

set_option autoImplicit false

namespace PhenoEvents

namespace InMemoryBus

open Transition

namespace World

variable {s : World} {k : Uuid} {sub : Subscriber} {n : ℕ} {message : Message} {duplicate : Bool}

/-! ## The senders of a call

A call keeps the senders it has not used in a list, and a step of the call takes the first of them.
So any number of them can be used one after another, whatever their subscribers do. -/

/-- The message is sent to these subscribers. -/
def fanOut (message : Message) (ks : List Uuid) (s : World) : World :=
  { s with
    subscribers := fun j ↦
      if j ∈ ks then (s.subscribers j).map (Subscriber.trySend message) else s.subscribers j }

theorem subscribers_fanOut (message : Message) (ks : List Uuid) (s : World) (j : Uuid) :
    (s.fanOut message ks).subscribers j =
      if j ∈ ks then (s.subscribers j).map (Subscriber.trySend message) else s.subscribers j :=
  rfl

/-- Sending to one subscriber and then to others is sending to all of them. -/
theorem fanOut_setSubscriber {ks : List Uuid} (hk : k ∉ ks) (hsub : s.subscribers k = some sub) :
    (s.setSubscriber k (sub.trySend message)).fanOut message ks = s.fanOut message (k :: ks) := by
  have hsame (j : Uuid) :
      ((s.setSubscriber k (sub.trySend message)).fanOut message ks).subscribers j =
      (s.fanOut message (k :: ks)).subscribers j := by
    rw [subscribers_fanOut, subscribers_fanOut, setSubscriber]
    by_cases hj : j = k
    · subst hj
      simp [hk, hsub]
    · simp [hj]
  simp only [fanOut, setSubscriber, mk.injEq, true_and, and_true]
  exact funext hsame

theorem step_send {ks : List Uuid} (hcall : s.calls[n]? = some ⟨message, duplicate, k :: ks⟩)
    (hsub : s.subscribers k = some sub) : s.step (.send n) = some (setSubscriber k
      (sub.trySend message) { s with calls := s.calls.set n ⟨message, duplicate, ks⟩ }) := by
  rw [step, hcall]
  show (Option.bind (s.subscribers k) _).map _ = _
  rw [hsub]
  rfl

/-- **A call can use its next senders one after another.** -/
theorem run_sends {ks rest : List Uuid}
    (hcall : s.calls[n]? = some ⟨message, duplicate, ks ++ rest⟩) (hnodup : ks.Nodup)
    (hsubs : ∀ k ∈ ks, (s.subscribers k).isSome) :
    run step s (List.replicate ks.length (.send n)) = some
      (fanOut message ks { s with calls := s.calls.set n ⟨message, duplicate, rest⟩ }) := by
  induction ks generalizing s with
  | nil =>
    obtain ⟨hn, hcall⟩ := List.getElem?_eq_some_iff.1 hcall
    have hsame : s.calls.set n ⟨message, duplicate, rest⟩ = s.calls := by
      rw [← show s.calls[n] = ⟨message, duplicate, rest⟩ from hcall, List.set_getElem_self]
    rw [hsame]
    simp [fanOut]
  | cons k ks ih =>
    obtain ⟨hk, hnodup⟩ := List.nodup_cons.1 hnodup
    obtain ⟨sub, hsub⟩ := Option.isSome_iff_exists.1 (hsubs k List.mem_cons_self)
    have hlt : n < s.calls.length := (List.getElem?_eq_some_iff.1 hcall).1
    refine run_cons_eq_some.2 ⟨_, step_send hcall hsub, ?_⟩
    rw [ih (List.getElem?_set_self hlt) hnodup fun j hj ↦ ?_]
    · rw [← fanOut_setSubscriber
        (s := { s with calls := s.calls.set n ⟨message, duplicate, rest⟩ }) hk
        hsub]
      simp only [setSubscriber, List.set_set]
    · have hne : j ≠ k := fun h ↦ hk (h ▸ hj)
      show (Function.update s.subscribers k _ j).isSome = true
      rw [Function.update_of_ne hne]
      exact hsubs j (List.mem_cons_of_mem k hj)

/-- **A whole call of `publish`.**  If nobody comes in between, it is through its critical section
and has tried every subscriber in the map. -/
theorem run_publish (h : Registered s) {envelope : EventEnvelope} {senders : List Uuid}
    (hvalid : envelope.validate = .ok ()) (hnodup : senders.Nodup)
    (hsenders : senders.toFinset = s.inner.subscribers) :
    run step s (.publish envelope senders ::
        List.replicate senders.length (.send s.calls.length)) =
      some ((s.enter envelope []).fanOut ⟨envelope, s.inner.lastSeen⟩ senders) := by
  have henter : s.step (.publish envelope senders) = some (s.enter envelope senders) := by
    rw [step, hvalid]
    exact if_pos ⟨hnodup, hsenders⟩
  have hsubs : ∀ k ∈ senders, ((s.enter envelope senders).subscribers k).isSome := by
    intro k hk
    refine (h.keys k).1 ?_
    rw [← hsenders, List.mem_toFinset]
    exact hk
  refine run_cons_eq_some.2 ⟨_, henter, ?_⟩
  have hcall : (s.enter envelope senders).calls[s.calls.length]? = some
      ⟨⟨envelope, s.inner.lastSeen⟩, decide (envelope.id ∈ s.inner.seen), senders ++ []⟩ := by
    rw [List.append_nil]
    exact List.getElem?_concat_length
  rw [run_sends hcall hnodup hsubs]
  simp [enter, Inner.record]

/-! ## Emptying a queue

A worker is in `recv` or in its handler until it is aborted, and in both places it can go on.  So it
can handle whatever waits; the other subscribers and the calls in progress are not touched. -/

theorem run_handle {rest : List Message} (hsub : s.subscribers k = some sub)
    (hpc : sub.pc = .receiving) (hqueue : sub.channel.queue = message :: rest) :
    ∃ sub', run step s [.receive k, .returned k (.ok ())] = some (s.setSubscriber k sub') ∧
      sub'.channel.queue = rest ∧ sub'.channel.receiver = sub.channel.receiver ∧
      sub'.pc = .receiving ∧ sub'.handled = sub.handled ++ [message] ∧
      sub'.attempts = sub.attempts := by
  have hbounded : rest.length ≤ subscriberQueue := by
    have hle := sub.channel.bounded
    rw [hqueue, List.length_cons] at hle
    omega
  have hrecv : sub.channel.recv = some (message, ⟨rest, sub.channel.receiver, hbounded⟩) :=
    Channel.recv_eq_some_iff.2 ⟨hqueue, rfl⟩
  refine ⟨⟨⟨rest, sub.channel.receiver, hbounded⟩, .receiving,
    sub.handled ++ [message], sub.attempts,
    sub.since⟩, ?_, rfl, rfl, rfl, rfl, rfl⟩
  have hreceive : sub.receive =
      some { sub with
        channel := ⟨rest, sub.channel.receiver, hbounded⟩, pc := .handling message } := by
    rw [Subscriber.receive, hpc, hrecv]
  simp [run, step, work, hsub, hreceive, setSubscriber, Subscriber.returned]

theorem exists_run_drain_of_receiving (hsub : s.subscribers k = some sub)
    (hpc : sub.pc = .receiving) :
    ∃ bs sub', (∀ b ∈ bs, b.envelope = none) ∧ run step s bs = some (s.setSubscriber k sub') ∧
      sub'.channel.queue = [] ∧ sub'.channel.receiver = sub.channel.receiver ∧
      sub'.pc = .receiving ∧ sub'.handled = sub.handled ++ sub.channel.queue := by
  generalize hqueue : sub.channel.queue = queue
  induction queue generalizing s sub with
  | nil =>
    refine ⟨[], sub, fun b hb ↦ (by cases hb), ?_, hqueue, rfl, hpc, (List.append_nil _).symm⟩
    rw [run_nil, setSubscriber, ← hsub, Function.update_eq_self]
  | cons message rest ih =>
    obtain ⟨sub', hrun, hrest, hreceiver, hpc', hhandled, -⟩ := run_handle hsub hpc hqueue
    obtain ⟨bs, sub'', hbs, hrun', hempty, hreceiver', hpc'', hhandled'⟩ :=
      ih (s := s.setSubscriber k sub') (setSubscriber_eq_some_iff.2 (Or.inl ⟨rfl, rfl⟩)) hpc' hrest
    refine ⟨[.receive k, .returned k (.ok ())] ++ bs, sub'', ?_, ?_, hempty,
      hreceiver'.trans hreceiver, hpc'', ?_⟩
    · exact List.forall_mem_append.2 ⟨by simp [Action.envelope], hbs⟩
    · rw [run_append_eq_some hrun hrun']
      simp [setSubscriber]
    · rw [hhandled', hhandled, List.append_assoc, List.singleton_append]

/-- **A worker that has not been aborted can handle everything that waits.** -/
theorem exists_run_drain (h : Registered s) (hsub : s.subscribers k = some sub)
    (hpc : ∀ aborted, sub.pc ≠ .stopped aborted) :
    ∃ bs sub', (∀ b ∈ bs, b.envelope = none) ∧ run step s bs = some (s.setSubscriber k sub') ∧
      sub'.channel.queue = [] ∧ sub'.channel.receiver = sub.channel.receiver ∧
      sub'.pc = .receiving ∧ sub'.handled = sub.received := by
  cases hplace : sub.pc with
  | receiving =>
    obtain ⟨bs, sub', hbs, hrun, hempty, hreceiver, hpc', hhandled⟩ :=
      exists_run_drain_of_receiving hsub hplace
    refine ⟨bs, sub', hbs, hrun, hempty, hreceiver, hpc', ?_⟩
    rw [hhandled, Subscriber.received, Subscriber.invoked, hplace, Pc.current, Option.toList_none,
      List.append_nil]
  | handling message =>
    have hreturn : s.step (.returned k (.ok ())) = some (s.setSubscriber k
        { sub with pc := .receiving, handled := sub.handled ++ [message] }) := by
      simp [step, work, hsub, Subscriber.returned, hplace]
    obtain ⟨bs, sub', hbs, hrun, hempty, hreceiver, hpc', hhandled⟩ :=
      exists_run_drain_of_receiving (s := s.setSubscriber k
          { sub with pc := .receiving, handled := sub.handled ++ [message] })
        (setSubscriber_eq_some_iff.2 (Or.inl ⟨rfl, rfl⟩)) rfl
    refine ⟨.returned k (.ok ()) :: bs, sub', List.forall_mem_cons.2 ⟨rfl, hbs⟩, ?_, hempty,
      hreceiver, hpc', ?_⟩
    · refine run_cons_eq_some.2 ⟨_, hreturn, hrun.trans ?_⟩
      simp [setSubscriber]
    · rw [hhandled, Subscriber.received, Subscriber.invoked, hplace, Pc.current, Option.toList_some]
  | removing => exact absurd hplace (h.running k sub hsub)
  | stopped aborted => exact absurd hplace (hpc aborted)

end World

end InMemoryBus

end PhenoEvents
