import PhenoEvents.Bus.SingleWorker

/-!
# One bus for the other

One subscription, taken before the first call of `publish`; calls one after another; a handler that
returns `Ok`.  `SqliteBus` polls a table and asks for `last_seen` when it gets to an event,
`InMemoryBus` queues the events with the `last_seen` of the time they were published.  Nobody can
tell which is which: both answer the calls as `answersAfter` says, and both call the handler along
`chained`.

The part of `SqliteBus` is in the module before this one.  The part of `InMemoryBus` follows from
what is known of its subscribers: calls that do not overlap send in order, and nothing is lost
unless a queue is full.

## Where the two differ

All of the assumptions are needed.  If the handler refuses an event, `SqliteBus` hands the next one
the id of an event that was handled, and `InMemoryBus` the id of the one that was refused.  If two
calls have the same id, `InMemoryBus` sends both.  A subscription that comes late gets all of the
outbox from one bus, and nothing of the past from the other.  And more than 1024 events that wait
are too many for a queue, and not for a table.
-/

set_option autoImplicit false

namespace PhenoEvents

open Transition

namespace InMemoryBus

/-! ## The bus in memory

One subscriber that is there from the beginning and keeps up.  The calls of `publish` do not
overlap, so the order of the sends is that of the critical sections. -/

/-- The handler returns `Ok`, nobody else subscribes, and the subscription is kept. -/
def Action.Undisturbed : Action → Prop
  | .returned _ result => result = .ok ()
  | .subscribe _ | .drop _ => False
  | .publish _ _ | .send _ | .receive _ | .stop _ | .closed _ | .remove _ => True

/-- What is assumed of a run: one subscriber, a handler that returns `Ok`, and calls of `publish`
one after another. -/
structure Undisturbed (k : Uuid) (as : List Action) : Prop where
  alone : ∀ a ∈ as, a.Undisturbed
  apart : StepsMeet World.step World.Apart .initial (.subscribe k :: as)

namespace World

variable {s t : World} {action : Action} {k : Uuid}

/-- The calls of the handler. -/
def invocations (s : World) (k : Uuid) : List Message :=
  ((s.subscribers k).map Subscriber.invoked).getD []

/-- No event waits: no call is in progress, and the queue is empty. -/
def Drained (s : World) (k : Uuid) : Prop :=
  s.Quiet ∧ ∀ sub, s.subscribers k = some sub → sub.channel.queue = []

/-- No event has found the queue full: there were never more than 1024 events that waited. -/
def Roomy (s : World) (k : Uuid) : Prop :=
  ∀ sub, s.subscribers k = some sub → ∀ a ∈ sub.attempts, a.2 < subscriberQueue

/-- The subscriber was there from the start, and its subscription has not been dropped. -/
structure Subscribed (s : World) (k : Uuid) : Prop where
  live : k ∈ s.subscriptions
  early : ∃ sub, s.subscribers k = some sub ∧ sub.since = 0

theorem subscribed_step (h : s.Subscribed k) (halone : action.Undisturbed)
    (hstep : s.step action = some t) : t.Subscribed k := by
  obtain ⟨hlive, sub, hsub, hsince⟩ := h
  have hset : ∀ (k' : Uuid) (sub₀ sub' : Subscriber), s.subscribers k' = some sub₀ →
      sub'.since = sub₀.since → ∃ sub, (s.setSubscriber k' sub').subscribers k = some sub ∧
        sub.since = 0 := by
    intro k' sub₀ sub' hsub₀ hsame
    by_cases hk : k = k'
    · subst hk
      obtain rfl := Option.some_inj.1 (hsub.symm.trans hsub₀)
      exact ⟨sub', setSubscriber_eq_some_iff.2 (Or.inl ⟨rfl, rfl⟩), hsame.trans hsince⟩
    · exact ⟨sub, setSubscriber_eq_some_iff.2 (Or.inr ⟨hk, hsub⟩), hsince⟩
  cases move_of_step hstep with
  | rejected | entered => exact ⟨hlive, sub, hsub, hsince⟩
  | sent hcalls hsub' => exact ⟨hlive, hset _ _ _ hsub' rfl⟩
  | worked hsub' hmove => exact ⟨hlive, hset _ _ _ hsub' hmove.attempts.2⟩
  | removed hsub' hpc => exact ⟨hlive, hset _ _ _ hsub' rfl⟩
  | subscribed | dropped => cases halone

theorem subscribed_of_run {as : List Action} (halone : ∀ a ∈ as, a.Undisturbed)
    (hrun : run step initial (.subscribe k :: as) = some s) : s.Subscribed k := by
  obtain ⟨m, hm, hrun⟩ := run_cons_eq_some.1 hrun
  obtain rfl := Option.some_inj.1 hm
  refine run_invariant_of_forall (fun _ _ _ hs ha hstep ↦ subscribed_step hs ha hstep)
    ⟨Finset.mem_insert_self .., .new 0, ?_, rfl⟩ halone hrun
  exact setSubscriber_eq_some_iff.2 (Or.inl ⟨rfl, rfl⟩)

/-- **The handler sees the events in order**, each with the one before it, and it sees all of them
once no event waits. -/
theorem invocations_of_run {as : List Action} (hclean : Undisturbed k as)
    (hrun : run step initial (.subscribe k :: as) = some s) (hroomy : s.Roomy k) :
    s.invocations k <+: chained none (valid (published as)) ∧
      (s.Drained k → s.invocations k = chained none (valid (published as))) := by
  obtain ⟨hlive, sub, hsub, hsince⟩ := subscribed_of_run hclean.alone hrun
  have hfair := fair_of_apart hclean.apart hrun
  have hmessages : chained none (valid (published as)) = s.messages := by
    have hchained := (chained_of_reachable ⟨_, hrun⟩).messages
    rw [(answered_of_run hrun).messages] at hchained
    exact hchained.symm
  have hreceived : sub.received = s.sentTo k 0 := by
    rw [(hfair.sound k sub hsub).received (hfair.receiver_of_live hsub hlive),
      Subscriber.accepted_of_roomy (hroomy sub hsub), ← hsince]
    exact hfair.sent k sub hsub
  have hinvoked : s.invocations k = sub.invoked := by
    rw [invocations, hsub]
    rfl
  rw [hinvoked, hmessages]
  constructor
  · have hfront : sub.invoked <+: sub.received := List.prefix_append ..
    rw [hreceived] at hfront
    exact hfront.trans ((lastOnly_of_apart hclean.apart hrun).sentTo_isPrefix k)
  · rintro ⟨hquiet, hempty⟩
    have hall : sub.invoked = sub.received := by
      rw [Subscriber.received, hempty sub hsub, List.append_nil]
    rw [hall, hreceived, hquiet.sentTo_eq, List.drop_zero]
    rfl

end World

end InMemoryBus

/-! ## Both

The two runs have nothing to do with each other but the envelopes that are published.  So the
theorem compares each of them with the same list. -/

/-- **One bus can take the place of the other.**  Both get a part of the same sequence of envelopes.
What both have been asked, both have answered in the same way; and if no two events have the same
id, both call the handler with the events in order, each with the id of the one before it, and with
all of them once no event waits.

The two orders that are assumed of the clock are those of the calls of `publish` and of the returns
of the handler.  Nothing is assumed about the readings `claim_next` takes. -/
theorem interchangeable (bus : SqliteBus) (k : Uuid) (envelopes : List EventEnvelope)
    (as : List Action) (bs : List InMemoryBus.Action) (s : World) (t : InMemoryBus.World)
    (has : bus.Undisturbed as) (hbs : InMemoryBus.Undisturbed k bs)
    (hxs : published as <+: envelopes) (hys : InMemoryBus.published bs <+: envelopes)
    (hs : run (World.step bus) .initial (.subscribe 0 :: as) = some s)
    (ht : run InMemoryBus.World.step .initial (.subscribe k :: bs) = some t) (hroomy : t.Roomy k) :
    (s.answers.map Prod.fst = published as ∧ t.answers.map Prod.fst = InMemoryBus.published bs ∧
      (s.answers <+: t.answers ∨ t.answers <+: s.answers)) ∧
    (((valid envelopes).map EventEnvelope.id).Nodup →
      (s.invocations <+: chained none (valid (published as)) ∧
        (s.Drained → s.invocations = chained none (valid (published as)))) ∧
      (t.invocations k <+: chained none (valid (InMemoryBus.published bs)) ∧
        (t.Drained k →
          t.invocations k = chained none (valid (InMemoryBus.published bs))))) := by
  have hanswers : s.answers = answersAfter [] (published as) := by
    have hserde : ∀ e ∈ published (.subscribe 0 :: as), bus.serde.RoundTrips e := has.roundTrips
    exact (World.answered_of_run hserde hs).answers
  have hanswers' : t.answers = answersAfter [] (InMemoryBus.published bs) :=
    (InMemoryBus.World.answered_of_run ht).answers
  refine ⟨⟨?_, ?_, ?_⟩, fun hdistinct ↦ ⟨?_, ?_⟩⟩
  · rw [hanswers, map_fst_answersAfter]
  · rw [hanswers', map_fst_answersAfter]
  · rw [hanswers, hanswers']
    exact (List.prefix_or_prefix_of_prefix hxs hys).imp (answersAfter_isPrefix [])
      (answersAfter_isPrefix [])
  · have hsub : (valid (published as)).Sublist (valid envelopes) := hxs.sublist.filter _
    exact (World.serves_of_run has (hdistinct.sublist (hsub.map _)) hs).invocations
  · exact InMemoryBus.World.invocations_of_run hbs ht hroomy

/-- A bus that can store two events about users. -/
def userEventsBus : SqliteBus where
  serde := .table [(InMemoryBus.userEvent ⟨1⟩, "1"), (InMemoryBus.userEvent ⟨2⟩, "2")] (by decide)

/-- Two events and an invalid one, while the worker gets to the second event. -/
def polledRun : List Action :=
  [.publish (InMemoryBus.userEvent ⟨1⟩) 1, .work 0 (.poll 2), .work 0 (.claim 0),
    .work 0 (.alreadyHandled 3), .publish { InMemoryBus.userEvent ⟨3⟩ with source := " " } 4,
    .work 0 (.lastSeen 0), .publish (InMemoryBus.userEvent ⟨2⟩) 5, .work 0 (.returned (.ok ()) 6),
    .work 0 .markHandled, .work 0 (.poll 7), .work 0 (.claim 0), .work 0 (.alreadyHandled 8),
    .work 0 (.lastSeen 0)]

/-- The same events, in memory. -/
def queuedRun : List InMemoryBus.Action :=
  [.publish (InMemoryBus.userEvent ⟨1⟩) [⟨7⟩], .send 0,
    .publish { InMemoryBus.userEvent ⟨3⟩ with source := " " } [],
    .publish (InMemoryBus.userEvent ⟨2⟩) [⟨7⟩], .send 1, .receive ⟨7⟩, .returned ⟨7⟩ (.ok ()),
    .receive ⟨7⟩]

theorem polledRun_undisturbed : userEventsBus.Undisturbed polledRun where
  alone := by simp [polledRun, Action.Undisturbed]
  publishedAt := by decide
  handledAt := by decide
  roundTrips := by
    have hall : ∀ e ∈ published polledRun, e.validate = .ok () →
        (userEventsBus.serde.toString e).isOk = true := by decide +kernel
    exact fun e he ↦ Serde.roundTrips_table (by decide) (hall e he)

theorem queuedRun_undisturbed : InMemoryBus.Undisturbed ⟨7⟩ queuedRun where
  alone := by simp [queuedRun, InMemoryBus.Action.Undisturbed]
  apart := by decide +kernel

/-- Both buses have called the handler with both events. -/
theorem queuedRun_interchanged : ∃ s t,
    run (World.step userEventsBus) .initial (.subscribe 0 :: polledRun) = some s ∧
    run InMemoryBus.World.step .initial (.subscribe ⟨7⟩ :: queuedRun) = some t ∧
    (s.answers <+: t.answers ∨ t.answers <+: s.answers) ∧ s.invocations = t.invocations ⟨7⟩ ∧
    s.invocations.map Message.lastSeen = [none, some ⟨1⟩] := by
  have hend : (run (World.step userEventsBus) .initial (.subscribe 0 :: polledRun)).map (fun s ↦
      (s.workers 0, s.db.outbox.rows.all fun r ↦ !r.claimable)) =
      some (some (.handling (InMemoryBus.userEvent ⟨2⟩) (some ⟨1⟩)), true) := by decide +kernel
  have hend' : (run InMemoryBus.World.step .initial (.subscribe ⟨7⟩ :: queuedRun)).map (fun t ↦
      (decide t.Quiet, (t.subscribers ⟨7⟩).map fun sub ↦
        (sub.channel.queue, sub.attempts.all fun a ↦ a.2 < subscriberQueue))) =
      some (true, some ([], true)) := by decide +kernel
  obtain ⟨s, hs, hend⟩ := Option.map_eq_some_iff.1 hend
  obtain ⟨t, ht, hend'⟩ := Option.map_eq_some_iff.1 hend'
  obtain ⟨hpc, hrows⟩ := Prod.ext_iff.1 hend
  obtain ⟨hquiet, hsub⟩ := Prod.ext_iff.1 hend'
  obtain ⟨sub, hsub, hqueue⟩ := Option.map_eq_some_iff.1 hsub
  obtain ⟨hempty, hroomy⟩ := Prod.ext_iff.1 hqueue
  have hsub' : ∀ sub', t.subscribers ⟨7⟩ = some sub' → sub' = sub :=
    fun sub' h ↦ Option.some_inj.1 (h.symm.trans hsub)
  have hdrained : s.Drained :=
    ⟨by simpa using hrows, fun e ↦ by simp [show s.workers 0 = _ from hpc]⟩
  have hdrained' : t.Drained ⟨7⟩ :=
    ⟨of_decide_eq_true hquiet, fun sub' h ↦ hsub' sub' h ▸ hempty⟩
  obtain ⟨⟨-, -, hanswers⟩, hinvocations⟩ := interchangeable userEventsBus ⟨7⟩ (published polledRun)
    polledRun queuedRun s t polledRun_undisturbed queuedRun_undisturbed List.prefix_rfl
    (by decide +kernel) hs ht fun sub' h ↦ hsub' sub' h ▸ by simpa using hroomy
  obtain ⟨⟨-, hall⟩, -, hall'⟩ := hinvocations (by decide +kernel)
  refine ⟨s, t, hs, ht, hanswers, ?_, ?_⟩
  · rw [hall hdrained, hall' hdrained']
    decide +kernel
  · rw [hall hdrained]
    decide +kernel

end PhenoEvents
