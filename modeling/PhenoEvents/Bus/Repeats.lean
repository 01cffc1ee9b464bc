import PhenoEvents.Bus.Continuations

/-!
# Events that are published twice

`SqliteBus` stores an event once, whatever is published under its id.  `InMemoryBus` keeps a set of
the ids it has seen as well, but only to fill in `Ack::duplicate`: the event is sent all the same.

So a handler may be called twice for an event, and this file says exactly when.

* `World.owed` is what the calls in progress still have to send to a subscriber.  Together with what
  it has received, that is everything the subscriber will ever see of the calls so far.
* `World.RepeatsNothing` is the condition on a call of `publish`: if its id has been seen before, so
  that the answer is `duplicate = true`, no subscriber with a worker has been sent an event with
  this id or is owed one.
* `World.mem_seen_of_mem` ties the answer to the queues: the id of whatever a subscriber has been
  sent or is owed has been seen.  So a call that is answered `duplicate = false` never repeats
  anything.
* `World.noRepeats_step` keeps what has been sent and what is owed free of repetitions, and
  `World.exists_run_repeat` is the way back: after a call that does not meet the condition the
  workers and the calls in progress can go on, without another call of `publish`, until a handler
  has been called twice.

`noRepeats_iff` puts them together.  A run that does not meet the condition need not call a handler
twice itself: it may end before, the second event may find a full queue, or the worker may be
aborted.  But each of this happens after the event has been fanned out again, and nothing the bus
does prevents the repetition then.  `repeatedRun_invoked` is the shortest run in which it comes
about.
-/

set_option autoImplicit false

namespace PhenoEvents

namespace InMemoryBus

open Transition

namespace World

variable {s t : World} {action : Action} {k : Uuid} {sub : Subscriber}

/-! ## What is owed to a subscriber

A call of `publish` takes a snapshot of the senders in its critical section and works it off later.
Until then the event is not in any queue, but it is on its way. -/

/-- What the calls in progress still have to send to a subscriber. -/
def owed (s : World) (k : Uuid) : List Message :=
  (s.calls.filter fun call ↦ k ∈ call.senders).map Call.message

theorem owed_enter (envelope : EventEnvelope) (senders : List Uuid) :
    (s.enter envelope senders).owed k =
      s.owed k ++ if k ∈ senders then [⟨envelope, s.inner.lastSeen⟩] else [] := by
  show ((s.calls ++ [_]).filter _).map Call.message = _
  rw [List.filter_append, List.filter_singleton, List.map_append, owed]
  by_cases hk : k ∈ senders <;> simp [hk]

/-- What a call sends is not owed any more. -/
theorem owed_sent {earlier later : List Call} {message : Message} {duplicate : Bool}
    {senders : List Uuid}
    (hcalls : s.calls = earlier ++ ⟨message, duplicate, k :: senders⟩ :: later)
    (hk : k ∉ senders) (hcalls' : t.calls = earlier ++ ⟨message, duplicate, senders⟩ :: later) :
    (message :: t.owed k).Perm (s.owed k) := by
  rw [owed, owed, hcalls, hcalls']
  simpa [hk] using List.perm_middle.symm

theorem owed_sent_of_ne {earlier later : List Call} {message : Message} {duplicate : Bool}
    {k' : Uuid} {senders : List Uuid}
    (hcalls : s.calls = earlier ++ ⟨message, duplicate, k' :: senders⟩ :: later)
    (hne : k ≠ k') (hcalls' : t.calls = earlier ++ ⟨message, duplicate, senders⟩ :: later) :
    t.owed k = s.owed k := by
  rw [owed, owed, hcalls, hcalls']
  by_cases hk : k ∈ senders <;> simp [hk, hne]

/-- Nothing is owed to a subscriber that is not there. -/
theorem owed_eq_nil (h : Registered s) (hnone : s.subscribers k = none) : s.owed k = [] := by
  rw [owed, List.map_eq_nil_iff, List.filter_eq_nil_iff]
  intro call hcall hk
  obtain ⟨sub, hsub⟩ := h.exists_subscriber hcall (of_decide_eq_true hk)
  cases hnone.symm.trans hsub

theorem mem_messages_of_owed {message : Message} (h : message ∈ s.owed k) :
    message ∈ s.messages := by
  obtain ⟨call, hcall, rfl⟩ := List.mem_map.1 h
  exact List.mem_map_of_mem (List.mem_filter.1 hcall).1

/-! ## What has been seen

The ids in `seen` are those of the messages, and everything a subscriber gets is one of the
messages. -/

/-- **Whatever a subscriber has been sent or is owed has been seen.** -/
theorem mem_seen_of_mem (hs : Reachable step initial s) (hsub : s.subscribers k = some sub)
    (halive : sub.channel.receiver = true) {id : Uuid}
    (hid : id ∈ (sub.received ++ s.owed k).map Message.id) : id ∈ s.inner.seen := by
  have hfair := fair_of_reachable hs
  obtain ⟨as, hrun⟩ := hs
  have hanswered := answered_of_run hrun
  obtain ⟨message, hmem, rfl⟩ := List.mem_map.1 hid
  have hmessage : message ∈ s.messages := by
    rcases List.mem_append.1 hmem with hreceived | howed
    · rw [(hfair.sound k sub hsub).received halive] at hreceived
      obtain ⟨a, ha, rfl⟩ := List.mem_map.1 hreceived
      have htried : a.1 ∈ sub.attempts.map Prod.fst := List.mem_map_of_mem (List.mem_filter.1 ha).1
      obtain ⟨call, hcall, heq⟩ := List.mem_map.1 ((hfair.sent k sub hsub).mem_iff.1 htried)
      exact heq ▸ List.mem_map_of_mem (List.mem_of_mem_drop (List.mem_filter.1 hcall).1)
    · exact mem_messages_of_owed howed
  rw [hanswered.seen, ← hanswered.messages, List.map_map]
  exact List.mem_map_of_mem (f := EventEnvelope.id ∘ Message.envelope) hmessage

/-! ## Runs that repeat nothing

The condition is on the calls of `publish` that are answered `duplicate = true`, and the invariant
is on what each subscriber has been sent and is owed. -/

/-- If the call of `publish` is answered `duplicate = true`, no subscriber in the map whose receiver
is there has been sent an event with this id, or is owed one. -/
def RepeatsNothing (s : World) : Action → Prop
  | .publish envelope _ => envelope.validate = .ok () → envelope.id ∈ s.inner.seen →
    ∀ k ∈ s.inner.subscribers, ∀ sub, s.subscribers k = some sub → sub.channel.receiver = true →
      envelope.id ∉ (sub.received ++ s.owed k).map Message.id
  | _ => True

/-- No subscriber has been sent two events with the same id, and none with a receiver will be. -/
def NoRepeats (s : World) : Prop :=
  ∀ k sub, s.subscribers k = some sub → (sub.received.map Message.id).Nodup ∧
    (sub.channel.receiver = true → ((sub.received ++ s.owed k).map Message.id).Nodup)

theorem noRepeats_initial : initial.NoRepeats := fun _ _ hsub ↦ by cases hsub

/-- A step that owes nobody anything new. -/
theorem NoRepeats.of_same (h : s.NoRepeats) (howed : ∀ k, t.owed k = s.owed k)
    (hsub : ∀ k sub', t.subscribers k = some sub' → sub'.received = [] ∧ s.owed k = [] ∨
      ∃ sub, s.subscribers k = some sub ∧ sub'.received <+: sub.received ∧
        (sub'.channel.receiver = true → sub.channel.receiver = true)) : t.NoRepeats := by
  intro k sub' hsub'
  rw [howed]
  rcases hsub k sub' hsub' with ⟨hempty, hnothing⟩ | ⟨sub, hs, hfront, halive⟩
  · rw [hempty, hnothing]
    exact ⟨List.nodup_nil, fun _ ↦ List.nodup_nil⟩
  · obtain ⟨hnodup, hboth⟩ := h k sub hs
    refine ⟨hnodup.sublist (hfront.sublist.map _), fun halive' ↦ ?_⟩
    exact (hboth (halive halive')).sublist ((hfront.sublist.append_right _).map _)

/-- A send moves an event from what is owed to what is received, or drops it. -/
theorem NoRepeats.send (h : s.NoRepeats) (hregistered : Registered s) {earlier later : List Call}
    {message : Message} {duplicate : Bool} {senders : List Uuid}
    (hcalls : s.calls = earlier ++ ⟨message, duplicate, k :: senders⟩ :: later)
    (hsub : s.subscribers k = some sub) : (setSubscriber k (sub.trySend message)
      { s with calls := earlier ++ ⟨message, duplicate, senders⟩ :: later }).NoRepeats := by
  have hmem : (⟨message, duplicate, k :: senders⟩ : Call) ∈ s.calls := by
    rw [hcalls]
    exact List.mem_append_right _ List.mem_cons_self
  have hk : k ∉ senders := (List.nodup_cons.1 (hregistered.senders _ hmem).1).1
  intro k' sub' hsub'
  rcases setSubscriber_eq_some_iff.1 hsub' with ⟨rfl, rfl⟩ | ⟨hne, hsame⟩
  · obtain ⟨hnodup, hboth⟩ := h k' sub hsub
    have hperm := owed_sent (t := setSubscriber k' (sub.trySend message)
      { s with calls := earlier ++ ⟨message, duplicate, senders⟩ :: later }) hcalls hk rfl
    rcases sub.channel_trySend message with ⟨hroom, halive, -⟩ | ⟨hfull, hchannel⟩
    · have hreceived := sub.received_trySend message
      rw [if_pos hroom] at hreceived
      have hall := hboth hroom.1
      rw [← ((hperm.append_left sub.received).map Message.id).nodup_iff, List.append_cons,
        ← hreceived] at hall
      exact ⟨hall.sublist ((List.sublist_append_left ..).map _), fun _ ↦ hall⟩
    · have hreceived := sub.received_trySend message
      rw [if_neg hfull] at hreceived
      rw [hreceived, hchannel]
      refine ⟨hnodup, fun halive ↦ ?_⟩
      have hall := hboth halive
      rw [← ((hperm.append_left sub.received).map Message.id).nodup_iff] at hall
      exact hall.sublist (((List.sublist_cons_self ..).append_left _).map _)
  · rw [owed_sent_of_ne hcalls hne rfl]
    exact h k' sub' hsame

/-- **A step that meets the condition repeats nothing.** -/
theorem noRepeats_step (h : s.NoRepeats) (hs : Reachable step initial s)
    (hnew : s.RepeatsNothing action) (hstep : s.step action = some t) : t.NoRepeats := by
  have hregistered := registered_of_reachable hs
  cases move_of_step hstep with
  | rejected | dropped =>
    exact h.of_same (fun _ ↦ rfl) fun k sub hsub ↦ Or.inr ⟨sub, hsub, List.prefix_rfl, id⟩
  | @entered envelope senders hvalid hnodup hsenders =>
    -- the only step that owes anybody anything new
    intro k sub hsub
    obtain ⟨hreceived, hboth⟩ := h k sub hsub
    refine ⟨hreceived, fun halive ↦ ?_⟩
    have hk : k ∈ s.inner.subscribers := (hregistered.keys k).2 (Option.isSome_of_eq_some hsub)
    have hfresh : envelope.id ∉ (sub.received ++ s.owed k).map Message.id := fun hmem ↦
      hnew hvalid (mem_seen_of_mem hs hsub halive hmem) k hk sub hsub halive hmem
    rw [owed_enter, if_pos ((hsenders k).2 hk), ← List.append_assoc, List.map_append,
      List.map_singleton, List.nodup_append_comm, List.singleton_append, List.nodup_cons]
    exact ⟨hfresh, hboth halive⟩
  | sent hcalls hsub => exact h.send hregistered hcalls hsub
  | @subscribed k hnone =>
    refine h.of_same (fun _ ↦ rfl) fun k' sub' hsub' ↦ ?_
    rcases setSubscriber_eq_some_iff.1 hsub' with ⟨rfl, rfl⟩ | ⟨-, hsame⟩
    · exact Or.inl ⟨rfl, owed_eq_nil hregistered hnone⟩
    · exact Or.inr ⟨sub', hsame, List.prefix_rfl, id⟩
  | worked hsub hmove =>
    refine h.of_same (fun _ ↦ rfl) fun k' sub'' hsub' ↦ Or.inr ?_
    rcases setSubscriber_eq_some_iff.1 hsub' with ⟨rfl, rfl⟩ | ⟨-, hsame⟩
    · refine ⟨_, hsub, hmove.received_isPrefix, fun halive ↦ ?_⟩
      cases hmove with
      | received hpc hqueue hreceiver => exact hreceiver.trans halive
      | returned | closed => exact halive
      | stopped => cases halive
    · exact ⟨sub'', hsame, List.prefix_rfl, id⟩
  | removed hsub hpc => exact absurd hpc (hregistered.running _ _ hsub)

/-! ## Runs that repeat something

A worker that has not been aborted gets whatever is owed to it, if the others wait long enough: it
empties its queue, the call uses its senders up to this one, and then the worker handles the event.
-/

/-- **What is owed to a worker can be handled next**, and the other calls are where they were. -/
theorem exists_run_deliver (hs : Reachable step initial s) (hsub : s.subscribers k = some sub)
    (halive : sub.channel.receiver = true) {n : ℕ} {call : Call} (hcall : s.calls[n]? = some call)
    (hk : k ∈ call.senders) :
    ∃ bs t sub', (∀ b ∈ bs, b.envelope = none) ∧ run step s bs = some t ∧
      t.subscribers k = some sub' ∧ sub'.channel.receiver = true ∧
      sub'.invoked = sub.received ++ [call.message] ∧ ∀ i, i ≠ n → t.calls[i]? = s.calls[i]? := by
  have hsound := (fair_of_reachable hs).sound k sub hsub
  obtain ⟨message, duplicate, senders⟩ := call
  -- the worker empties its queue
  obtain ⟨bs, sub₁, hbs, hdrain, hempty, hreceiver, hpc, hhandled⟩ :=
    exists_run_drain (registered_of_reachable hs) hsub (hsound.receiver.1 halive)
  obtain ⟨front, back, rfl⟩ := List.append_of_mem hk
  have hs₁ := hs.run hdrain
  have hregistered := registered_of_reachable hs₁
  have hmem : (⟨message, duplicate, front ++ k :: back⟩ : Call) ∈ s.calls :=
    List.mem_of_getElem? hcall
  have hnodup : (front ++ [k] ++ back).Nodup := by
    rw [← List.append_cons]
    exact (hregistered.senders _ hmem).1
  -- the call uses its senders up to the one of the worker, and there is room in the queue
  have hcall₁ : (s.setSubscriber k sub₁).calls[n]? =
      some ⟨message, duplicate, (front ++ [k]) ++ back⟩ :=
    hcall.trans (congrArg (fun ks ↦ some (Call.mk message duplicate ks)) (List.append_cons ..))
  have hsends := run_sends hcall₁ (hnodup.sublist (List.sublist_append_left ..)) fun j hj ↦ by
    refine Option.isSome_iff_exists.2 (hregistered.exists_subscriber hmem ?_)
    rw [List.append_cons]
    exact List.mem_append_left _ hj
  have hroom : sub₁.channel.HasRoom := by
    refine ⟨hreceiver.trans halive, ?_⟩
    rw [hempty]
    exact Nat.zero_lt_succ _
  have hsub₂ : (fanOut message (front ++ [k]) { s.setSubscriber k sub₁ with
      calls := s.calls.set n ⟨message, duplicate, back⟩ }).subscribers k =
      some (sub₁.trySend message) := by
    rw [subscribers_fanOut, if_pos (List.mem_append_right _ List.mem_cons_self)]
    simp [setSubscriber]
  have hreceived := sub₁.received_trySend message
  have hdrained : sub₁.received = sub.received := by
    simp [Subscriber.received, Subscriber.invoked, hpc, hempty, hhandled, Pc.current]
  rw [if_pos hroom, hdrained] at hreceived
  -- the worker handles the event
  obtain ⟨bs', sub₃, hbs', hdrain', hempty', hreceiver', hpc', hhandled'⟩ :=
    exists_run_drain (registered_of_reachable (hs₁.run hsends)) hsub₂ fun aborted h ↦ by
      cases hpc.symm.trans h
  have halive' : (sub₁.trySend message).channel.receiver = true := by
    rcases sub₁.channel_trySend message with ⟨-, h, -⟩ | ⟨hfull, -⟩
    · exact h
    · exact absurd hroom hfull
  refine ⟨_, _, sub₃, ?_, run_append_eq_some (run_append_eq_some hdrain hsends) hdrain',
    setSubscriber_eq_some_iff.2 (Or.inl ⟨rfl, rfl⟩), hreceiver'.trans halive', ?_, fun i hi ↦ ?_⟩
  · refine List.forall_mem_append.2 ⟨List.forall_mem_append.2 ⟨hbs, fun b hb ↦ ?_⟩, hbs'⟩
    rw [List.eq_of_mem_replicate hb]
    rfl
  · rw [Subscriber.invoked, hpc', hhandled', hreceived]
    simp [Pc.current]
  · exact List.getElem?_set_ne hi.symm

/-- **After a call that does not meet the condition a handler can be called twice**, and no other
call of `publish` is needed for it. -/
theorem exists_run_repeat (hs : Reachable step initial s) (hstep : s.step action = some t)
    (hrepeats : ¬s.RepeatsNothing action) : ∃ bs u k sub, (∀ b ∈ bs, b.envelope = none) ∧
      run step t bs = some u ∧ u.subscribers k = some sub ∧
      ¬(sub.invoked.map Message.id).Nodup := by
  cases action with
  | publish envelope senders =>
    simp only [RepeatsNothing, not_forall, not_not] at hrepeats
    obtain ⟨hvalid, -, k, hkey, sub, hsub, halive, hid⟩ := hrepeats
    have ht : Reachable step initial t := hs.next hstep
    cases move_of_step hstep with
    | rejected hinvalid => cases hvalid.symm.trans hinvalid
    | worked _ hmove => cases hmove
    | entered _ hnodup hsenders =>
      have hlast : (s.enter envelope senders).calls[s.calls.length]? = some
          ⟨⟨envelope, s.inner.lastSeen⟩, decide (envelope.id ∈ s.inner.seen), senders⟩ :=
        List.getElem?_concat_length
      -- first the worker gets the earlier event, if that is still owed to it
      have hfirst : ∃ bs u sub', (∀ b ∈ bs, b.envelope = none) ∧
          run step (s.enter envelope senders) bs = some u ∧ u.subscribers k = some sub' ∧
          sub'.channel.receiver = true ∧ envelope.id ∈ sub'.received.map Message.id ∧
          u.calls[s.calls.length]? = (s.enter envelope senders).calls[s.calls.length]? := by
        rw [List.map_append, List.mem_append] at hid
        rcases hid with hreceived | howed
        · exact ⟨[], _, sub, fun b hb ↦ (by cases hb), rfl, hsub, halive, hreceived, rfl⟩
        · obtain ⟨message, hmem, hsame⟩ := List.mem_map.1 howed
          obtain ⟨call, hcall, rfl⟩ := List.mem_map.1 hmem
          obtain ⟨hcall, hk⟩ := List.mem_filter.1 hcall
          obtain ⟨n, hn, hget⟩ := List.mem_iff_getElem.1 hcall
          have hget' : (s.enter envelope senders).calls[n]? = some call :=
            (List.getElem?_append_left hn).trans (List.getElem?_eq_some_iff.2 ⟨hn, hget⟩)
          obtain ⟨bs, u, sub', hbs, hrun, hsub', halive', hinvoked, hcalls⟩ :=
            exists_run_deliver ht (s := s.enter envelope senders) hsub halive hget'
              (of_decide_eq_true hk)
          refine ⟨bs, u, sub', hbs, hrun, hsub', halive', ?_, hcalls _ hn.ne'⟩
          rw [Subscriber.received, hinvoked, ← hsame]
          simp
      obtain ⟨bs, u, sub', hbs, hrun, hsub', halive', hreceived, hcalls⟩ := hfirst
      obtain ⟨bs', u', sub'', hbs', hrun', hsub'', -, hinvoked, -⟩ :=
        exists_run_deliver (ht.run hrun) hsub' halive' (hcalls.trans hlast) ((hsenders k).2 hkey)
      refine ⟨bs ++ bs', u', k, sub'', List.forall_mem_append.2 ⟨hbs, hbs'⟩,
        run_append_eq_some hrun hrun', hsub'', fun hnodup' ↦ ?_⟩
      rw [hinvoked, List.map_append, List.map_singleton, List.nodup_append_comm,
        List.singleton_append, List.nodup_cons] at hnodup'
      exact hnodup'.1 hreceived
  | _ => exact absurd trivial hrepeats

/-- Without another call of `publish` nothing comes up that would be repeated. -/
theorem noRepeats_run {bs : List Action} (h : s.NoRepeats) (hs : Reachable step initial s)
    (hbs : ∀ b ∈ bs, b.envelope = none) (hrun : run step s bs = some t) : t.NoRepeats := by
  refine (run_invariant_of_forall (K := fun b ↦ b.envelope = none)
    (I := fun s ↦ Reachable step initial s ∧ s.NoRepeats) (fun s b t ⟨hs, h⟩ hb hstep ↦ ?_) ⟨hs, h⟩
    hbs hrun).2
  refine ⟨hs.next hstep, noRepeats_step h hs ?_ hstep⟩
  cases b with
  | publish => cases hb
  | _ => trivial

theorem noRepeats_of_visits {as : List Action} (hnew : StepsMeet step RepeatsNothing initial as)
    (hs : Visits step initial as s) : s.NoRepeats :=
  (hnew.invariant (I := fun s ↦ Reachable step initial s ∧ s.NoRepeats)
    (fun _ _ _ ⟨hs, h⟩ ha hstep ↦
      ⟨hs.next hstep, noRepeats_step h hs ha hstep⟩)
    ⟨⟨[], rfl⟩, noRepeats_initial⟩ hs).2

/-- **If no id is published twice, no call is a duplicate.** -/
theorem stepsMeet_of_nodup {as : List Action}
    (hnodup : ((valid (published as)).map EventEnvelope.id).Nodup) :
    StepsMeet step RepeatsNothing initial as := by
  refine stepsMeet_of_forall fun front a s t hpre hrun _ ↦ ?_
  cases a with
  | publish envelope senders =>
    intro hvalid hseen
    obtain ⟨rest, rfl⟩ := hpre
    have hmem := ((answered_of_run hrun).seen envelope.id).1 hseen
    have hsplit : published (front ++ [.publish envelope senders]) =
      published front ++ [envelope] :=
      published_concat front _
    have hall : published (front ++ [.publish envelope senders] ++ rest) =
        published front ++ [envelope] ++ published rest := by
      rw [← hsplit]
      exact List.filterMap_append ..
    rw [hall, valid, List.filter_append, ← valid, valid_concat_of_ok _ hvalid, List.map_append,
      List.map_append] at hnodup
    exact absurd List.mem_cons_self
      (List.disjoint_of_nodup_append (List.nodup_append.1 hnodup).1 hmem)
  | _ => trivial

end World

/-- **When no handler is called twice for an event.**  In a run whose duplicate calls of `publish`
come when no subscriber with a worker has been sent the event or is owed it, no subscriber is sent
an id twice and no handler is called twice for one.  These are exactly the runs at no point of which
the workers and the calls in progress can go on, without another call of `publish`, until a handler
has been called twice for an id; and a run in which no id is published twice is one of them. -/
theorem noRepeats_iff (as : List Action) :
    (StepsMeet World.step World.RepeatsNothing .initial as → ∀ s, Visits World.step .initial as s →
        ∀ k sub, s.subscribers k = some sub →
          (sub.invoked.map Message.id).Nodup ∧ (sub.received.map Message.id).Nodup) ∧
      ((∀ front bs s, front <+: as → (∀ b ∈ bs, b.envelope = none) →
          run World.step .initial (front ++ bs) = some s → ∀ k sub, s.subscribers k = some sub →
            (sub.invoked.map Message.id).Nodup) ↔
        StepsMeet World.step World.RepeatsNothing .initial as) ∧
      (((valid (published as)).map EventEnvelope.id).Nodup →
        StepsMeet World.step World.RepeatsNothing .initial as) := by
  have hinvoked : ∀ {s : World}, s.NoRepeats → ∀ k sub, s.subscribers k = some sub →
      (sub.invoked.map Message.id).Nodup := fun h k sub hsub ↦
    (h k sub hsub).1.sublist ((List.sublist_append_left ..).map _)
  refine ⟨fun hnew s hs k sub hsub ↦ ?_, ⟨fun h ↦ ?_, fun hnew front bs s hpre hbs hrun ↦ ?_⟩,
    World.stepsMeet_of_nodup⟩
  · have hnone := World.noRepeats_of_visits hnew hs
    exact ⟨hinvoked hnone k sub hsub, (hnone k sub hsub).1⟩
  · refine stepsMeet_of_forall fun front a s t hpre hrun hstep ↦ ?_
    by_contra hrepeats
    obtain ⟨bs, u, k, sub, hbs, hrest, hsub, htwice⟩ :=
      World.exists_run_repeat ⟨front, hrun⟩ hstep hrepeats
    refine htwice (h (front ++ [a]) bs u hpre hbs (run_append_eq_some ?_ hrest) k sub hsub)
    exact run_append_eq_some hrun (run_cons_eq_some.2 ⟨t, hstep, run_nil t⟩)
  · rw [run_append, Option.bind_eq_some_iff] at hrun
    obtain ⟨m, hm, hrest⟩ := hrun
    have hnone := World.noRepeats_of_visits hnew ⟨front, hpre, hm⟩
    exact hinvoked (World.noRepeats_run hnone ⟨front, hm⟩ hbs hrest)

/-- One event, published twice. -/
def repeatedRun : List Action :=
  [.subscribe ⟨1⟩, .publish (userEvent ⟨1⟩) [⟨1⟩], .send 0, .publish (userEvent ⟨1⟩) [⟨1⟩], .send 1,
    .receive ⟨1⟩, .returned ⟨1⟩ (.ok ()), .receive ⟨1⟩]

/-- The handler is called twice, with the same envelope, although the second call was answered
`duplicate = true`. -/
theorem repeatedRun_invoked : ¬∀ s, Reachable World.step .initial s → ∀ k sub,
    s.subscribers k = some sub → (sub.invoked.map Message.id).Nodup := by
  intro h
  have hend : ((run World.step .initial repeatedRun).bind fun s ↦
      (s.subscribers ⟨1⟩).map fun sub ↦ decide (sub.invoked.map Message.id).Nodup) =
      some false := by
    decide +kernel
  obtain ⟨s, hs, hend⟩ := Option.bind_eq_some_iff.1 hend
  obtain ⟨sub, hsub, hend⟩ := Option.map_eq_some_iff.1 hend
  exact of_decide_eq_false hend (h s ⟨_, hs⟩ ⟨1⟩ sub hsub)

end InMemoryBus

end PhenoEvents
