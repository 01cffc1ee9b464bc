import PhenoEvents.Bus.Continuations

/-!
# What a full queue loses

`publish` does not wait for a subscriber that is slow: a `try_send` that finds 1024 entries in its
queue drops the event.  This file says that nothing else does.  For a subscription that stays alive,
every valid envelope whose call of `publish` goes through its critical section after `subscribe` is
tried on its queue once, in that order, and is handled, being handled or waiting if the queue was
not full.

The theorem compares a subscriber with the run, so it has to be said what the run has tried on it.

* `World.attempt` is the `try_send` a step makes to the subscriber, read off the state before the
  step: the message of the call, and the number of entries the queue holds at that moment.
* `World.attemptsOf` collects them along a run, and `World.attempts_of_run` says that the log a
  subscriber keeps of its `try_send`s is just that.
* `World.exists_subscribe` finds the call of `subscribe` in the run, and `World.published_since` the
  envelopes that were published after it.

`delivered_in_order` asks that the calls of `publish` do not overlap each other, and nothing of the
other subscribers, of the workers or of what the handlers return.
-/

set_option autoImplicit false

namespace PhenoEvents

namespace InMemoryBus

open Transition

namespace World

variable {s t : World} {action : Action} {k : Uuid} {sub : Subscriber} {as : List Action}

/-! ## What a run tries on a subscriber

This is read off the actions and the states between them, without the logs a subscriber keeps. -/

/-- The `try_send` a step makes to a subscriber, with the number of entries it finds in the queue.
-/
def attempt (k : Uuid) (s : World) (action : Action) : Option (Message × ℕ) :=
  match s.sending action with
  | some (_, message, k') =>
    if k' = k then (s.subscribers k).map fun sub ↦ (message, sub.channel.queue.length) else none
  | none => none

/-- Every `try_send` a run makes to a subscriber, with the number of entries it finds in the queue.
-/
def attemptsOf (k : Uuid) : World → List Action → List (Message × ℕ)
  | _, [] => []
  | s, a :: as =>
    match s.step a with
    | some t => (s.attempt k a).toList ++ attemptsOf k t as
    | none => []

theorem attemptsOf_append {bs : List Action} (hrun : run step s as = some t) :
    s.attemptsOf k (as ++ bs) = s.attemptsOf k as ++ t.attemptsOf k bs := by
  induction as generalizing s with
  | nil =>
    obtain rfl := Option.some_inj.1 hrun
    rfl
  | cons a as ih =>
    obtain ⟨m, hm, hrun⟩ := run_cons_eq_some.1 hrun
    rw [List.cons_append, attemptsOf, attemptsOf, hm]
    exact (congrArg _ (ih hrun)).trans (List.append_assoc ..).symm

theorem attemptsOf_singleton (hstep : s.step action = some t) :
    s.attemptsOf k [action] = (s.attempt k action).toList := by
  rw [attemptsOf, hstep]
  exact List.append_nil _

/-- The log of a subscriber, which is empty before it is there.  In this way a step of the run can
be compared with what it adds, whether it inserts the subscriber or not. -/
def tried (k : Uuid) (s : World) : List (Message × ℕ) :=
  ((s.subscribers k).map Subscriber.attempts).getD []

theorem tried_eq (hsub : s.subscribers k = some sub) : s.tried k = sub.attempts := by
  rw [tried, hsub]
  rfl

theorem tried_setSubscriber (k' : Uuid) (hsub : s.subscribers k = some sub) (sub' : Subscriber) :
    (s.setSubscriber k sub').tried k' =
      if k' = k then sub'.attempts else s.tried k' := by
  rw [tried, setSubscriber]
  by_cases hk : k' = k
  · subst hk
    simp
  · simp [hk, tried]

/-- **A step writes down the `try_send` it makes.** -/
theorem tried_step (hstep : s.step action = some t) (k : Uuid) :
    t.tried k = s.tried k ++ (s.attempt k action).toList := by
  have hquiet : (∀ n, action ≠ .send n) → s.attempt k action = none := fun haction ↦ by
    rw [attempt, sending_of_ne haction]
  cases move_of_step hstep with
  | @sent earlier later message duplicate k' senders sub hcalls hsub =>
    -- the one step that makes a `try_send`
    rw [attempt, sending_send hcalls]
    show (s.setSubscriber k' (sub.trySend message)).tried k = _
    rw [tried_setSubscriber k hsub]
    by_cases hk : k' = k
    · subst hk
      simp [hsub, tried_eq hsub, Subscriber.trySend]
    · simp [hk, Ne.symm hk]
  | @subscribed k' hnew =>
    -- a new subscriber has been tried with nothing
    rw [hquiet (fun n h ↦ by cases h), Option.toList_none, List.append_nil, tried, tried]
    by_cases hk : k = k'
    · subst hk
      simp [setSubscriber, hnew, Subscriber.new]
    · simp [setSubscriber, hk]
  | @worked _ k' sub sub' hsub hmove =>
    have hnone : s.attempt k action = none := hquiet fun n h ↦ by
      subst h
      cases hmove
    rw [hnone, Option.toList_none, List.append_nil, tried_setSubscriber k hsub]
    by_cases hk : k = k'
    · subst hk
      rw [if_pos rfl, hmove.attempts.1, tried_eq hsub]
    · rw [if_neg hk]
  | @removed k' sub hsub hpc =>
    rw [hquiet (fun n h ↦ by cases h), Option.toList_none, List.append_nil]
    refine (tried_setSubscriber k hsub _).trans ?_
    by_cases hk : k = k'
    · subst hk
      rw [if_pos rfl, tried_eq hsub]
    · rw [if_neg hk]
  | rejected | entered | dropped =>
    rw [hquiet (fun n h ↦ by cases h), Option.toList_none, List.append_nil]
    rfl

/-- **The log of a subscriber is what the run has tried on it.** -/
theorem attempts_of_run (hrun : run step initial as = some s) (hsub : s.subscribers k = some sub) :
    sub.attempts = initial.attemptsOf k as := by
  rw [← tried_eq hsub]
  refine (run_invariant_of_trace (I := fun as s ↦ run step initial as = some s ∧
    s.tried k = initial.attemptsOf k as) ⟨rfl, rfl⟩ (fun as a s t ⟨hrun, h⟩ hstep ↦ ?_) hrun).2
  refine ⟨run_append_eq_some hrun (run_cons_eq_some.2 ⟨t, hstep, run_nil t⟩), ?_⟩
  rw [tried_step hstep, attemptsOf_append hrun, attemptsOf_singleton hstep, h]

/-! ## What was published since

A subscriber knows how many calls there were before it, and the calls are in the order of their
critical sections; so the later ones are those of the later actions of the run. -/

/-- **Every subscriber has subscribed**, and knows how many calls there were before.  A key is never
used twice, so there is one call of `subscribe` to speak of. -/
theorem exists_subscribe (hrun : run step initial as = some s) (hsub : s.subscribers k = some sub) :
    ∃ before after m, as = before ++ .subscribe k :: after ∧ run step initial before = some m ∧
      sub.since = m.calls.length := by
  refine (run_invariant_of_trace (I := fun as s ↦ run step initial as = some s ∧
    ∀ k sub, s.subscribers k = some sub → ∃ before after m, as = before ++ .subscribe k :: after ∧
      run step initial before = some m ∧ sub.since = m.calls.length)
    ⟨rfl, fun k sub hsub ↦ (by cases hsub)⟩ (fun as a s t ⟨hrun, h⟩ hstep ↦ ?_) hrun).2 k sub hsub
  refine ⟨run_append_eq_some hrun (run_cons_eq_some.2 ⟨t, hstep, run_nil t⟩), fun k sub hsub ↦ ?_⟩
  have hold : (∃ sub', s.subscribers k = some sub' ∧ sub.since = sub'.since) →
      ∃ before after m, as ++ [a] = before ++ .subscribe k :: after ∧
        run step initial before = some m ∧ sub.since = m.calls.length := by
    rintro ⟨sub', hsub', hsame⟩
    obtain ⟨before, after, m, rfl, hm, hsince⟩ := h k sub' hsub'
    exact ⟨before, after ++ [a], m, List.append_assoc .., hm, hsame.trans hsince⟩
  cases move_of_step hstep with
  | @subscribed k' hnew =>
    rcases setSubscriber_eq_some_iff.1 hsub with ⟨rfl, rfl⟩ | ⟨-, hsame⟩
    · exact ⟨as, [], s, rfl, hrun, rfl⟩
    · exact hold ⟨sub, hsame, rfl⟩
  | sent hcalls hsub' | removed hsub' hpc =>
    rcases setSubscriber_eq_some_iff.1 hsub with ⟨rfl, rfl⟩ | ⟨-, hsame⟩
    · exact hold ⟨_, hsub', rfl⟩
    · exact hold ⟨sub, hsame, rfl⟩
  | worked hsub' hmove =>
    rcases setSubscriber_eq_some_iff.1 hsub with ⟨rfl, rfl⟩ | ⟨-, hsame⟩
    · exact hold ⟨_, hsub', hmove.attempts.2⟩
    · exact hold ⟨sub, hsame, rfl⟩
  | rejected | entered | dropped => exact hold ⟨sub, hsub, rfl⟩

/-- **The calls after the first few are those of the envelopes that were published since.** -/
theorem published_since {before after : List Action} {m : World}
    (hm : run step initial before = some m) (hrun : run step initial (before ++ after) = some s) :
    (s.messages.drop m.calls.length).map Message.envelope = valid (published after) := by
  have hbefore := (answered_of_run hm).messages
  have hall := (answered_of_run hrun).messages
  have hlength : m.calls.length = (valid (published before)).length := by
    rw [← hbefore, messages, List.length_map, List.length_map]
  have hsplit : valid (published (before ++ after)) =
      valid (published before) ++ valid (published after) := by
    rw [published, List.filterMap_append, valid, List.filter_append]
    rfl
  rw [List.map_drop, hall, hsplit, hlength, List.drop_left]

end World

/-- **Events are lost only to a full queue.**  The calls of `publish` do not overlap, and none is in
progress.  Then the valid envelopes that were published after a subscriber was inserted have each
been tried on it once, in that order, and the events that were handled, are being handled or wait
are those whose `try_send` did not find 1024 entries in its queue.  Nothing is asked of the other
subscribers or of the results of the handlers. -/
theorem delivered_in_order (as : List Action) (s : World)
    (hapart : StepsMeet World.step World.Apart .initial as)
    (hrun : run World.step .initial as = some s) (hquiet : s.Quiet) (k : Uuid) (sub : Subscriber)
    (hsub : s.subscribers k = some sub) (hlive : k ∈ s.subscriptions) :
    ∃ before after, as = before ++ .subscribe k :: after ∧
      sub.attempts = World.initial.attemptsOf k as ∧
      sub.attempts.map (fun a ↦ a.1.envelope) = valid (published after) ∧
      (∀ a ∈ sub.attempts, a.2 ≤ 1024) ∧
      sub.handled ++ sub.pc.current.toList ++ sub.channel.queue =
        (sub.attempts.filter fun a ↦ a.2 ≠ 1024).map Prod.fst := by
  have hs := World.fair_of_apart hapart hrun
  have hsound := hs.sound k sub hsub
  obtain ⟨before, after, m, rfl, hm, hsince⟩ := World.exists_subscribe hrun hsub
  refine ⟨before, after, rfl, World.attempts_of_run hrun hsub, ?_, hsound.found, ?_⟩
  · have hsent := hs.sent k sub hsub
    rw [hquiet.sentTo_eq k, List.map_drop, hsince] at hsent
    have hsince := World.published_since hm hrun
    rw [World.messages, ← hsent, List.map_map] at hsince
    exact hsince
  · refine (hsound.received (hs.receiver_of_live hsub hlive)).trans ?_
    refine congrArg (List.map Prod.fst) (List.filter_congr fun a ha ↦ ?_)
    have hle : a.2 ≤ 1024 := hsound.found a ha
    rw [decide_eq_decide]
    show a.2 < 1024 ↔ a.2 ≠ 1024
    omega

/-! ## A queue that is full

A run of 1026 calls, which is too long to be evaluated.  So the calls that fill the queue are taken
one after another, and what holds after `n` of them is `Crowded`. -/

/-- Two subscribers.  One is dropped between two events, the handler of the other one fails. -/
def nackRun : List Action :=
  [.subscribe ⟨1⟩, .subscribe ⟨2⟩, .publish (userEvent ⟨1⟩) [⟨2⟩, ⟨1⟩], .send 0, .send 0,
    .receive ⟨1⟩,
    .returned ⟨1⟩ (.error "no"), .drop ⟨2⟩, .stop ⟨2⟩, .publish (userEvent ⟨2⟩) [⟨1⟩, ⟨2⟩], .send 1,
    .send 1]

/-- More events, which nobody handles.  Each call sends to both subscribers before the next one
begins. -/
def crowd (n : ℕ) : List Action :=
  (List.range n).flatMap fun i ↦
    .publish (userEvent ⟨.ofNat 128 (i + 3)⟩) [⟨1⟩, ⟨2⟩] :: List.replicate 2 (.send (i + 2))

theorem validate_userEvent (id : Uuid) : (userEvent id).validate = .ok () := by
  show (userEvent ⟨0⟩).validate = .ok ()
  decide +kernel

theorem crowd_succ (n : ℕ) : crowd (n + 1) =
    crowd n ++
      .publish (userEvent ⟨.ofNat 128 (n + 3)⟩) [⟨1⟩, ⟨2⟩] :: List.replicate 2 (.send (n + 2)) := by
  rw [crowd, crowd, List.range_succ, List.flatMap_append]
  simp

/-- One event has been handled, and as many wait as fit.  The second of the first two events waits
as well, so there are `n + 1` of them until the queue is full. -/
structure Crowded (n : ℕ) (s : World) : Prop where
  quiet : s.Quiet
  keys : s.inner.subscribers = {⟨1⟩, ⟨2⟩}
  live : ⟨1⟩ ∈ s.subscriptions
  calls : s.calls.length = n + 2
  waits : ∃ sub, s.subscribers ⟨1⟩ = some sub ∧ sub.channel.receiver = true ∧
    sub.channel.queue.length = min (n + 1) 1024 ∧ sub.received.length = min (n + 1) 1024 + 1 ∧
    sub.attempts.length = n + 2

theorem Crowded.succ {n : ℕ} {s : World} (h : Crowded n s) (envelope : EventEnvelope) :
    Crowded (n + 1) ((s.enter envelope []).fanOut ⟨envelope, s.inner.lastSeen⟩ [⟨1⟩, ⟨2⟩]) := by
  obtain ⟨sub, hsub, halive, hqueue, hreceived, hattempts⟩ := h.waits
  have hroom : sub.channel.HasRoom ↔ n + 1 < 1024 := by
    rw [Channel.HasRoom, hqueue, halive]
    show true = true ∧ min (n + 1) 1024 < 1024 ↔ n + 1 < 1024
    rw [eq_self, true_and]
    omega
  refine ⟨List.forall_mem_append.2 ⟨h.quiet, List.forall_mem_singleton.2 rfl⟩, h.keys, h.live, ?_,
    sub.trySend ⟨envelope, s.inner.lastSeen⟩, ?_, ?_, ?_, ?_, ?_⟩
  · show (s.calls ++ [_]).length = _
    rw [List.length_append, h.calls, List.length_singleton]
  · rw [World.subscribers_fanOut, if_pos List.mem_cons_self]
    show (s.subscribers ⟨1⟩).map _ = _
    rw [hsub]
    rfl
  · rcases sub.channel_trySend ⟨envelope, s.inner.lastSeen⟩ with ⟨-, hreceiver, -⟩ | ⟨-, hchannel⟩
    · exact hreceiver
    · rw [hchannel, halive]
  · rcases sub.channel_trySend ⟨envelope, s.inner.lastSeen⟩ with
      ⟨hfits, -, hfull⟩ | ⟨hfull, hchannel⟩
    · rw [hfull, List.length_append, hqueue, List.length_singleton]
      have hlt := hroom.1 hfits
      omega
    · rw [hchannel, hqueue]
      have hge := mt hroom.2 hfull
      omega
  · rw [Subscriber.received_trySend]
    split
    · rename_i hfits
      rw [List.length_append, hreceived, List.length_singleton]
      have hlt := hroom.1 hfits
      omega
    · rename_i hfull
      rw [hreceived]
      have hge := mt hroom.2 hfull
      omega
  · rw [Subscriber.trySend, List.length_append, hattempts, List.length_singleton]

theorem crowded_nackRun : ∃ s, run World.step .initial nackRun = some s ∧ Crowded 0 s := by
  have hend : ((run World.step .initial nackRun).any fun s ↦ decide (s.Quiet ∧
      s.inner.subscribers = {⟨1⟩, ⟨2⟩} ∧ ⟨1⟩ ∈ s.subscriptions ∧ s.calls.length = 2)) = true := by
    decide +kernel
  have hsub : ((run World.step .initial nackRun).bind fun s ↦ (s.subscribers ⟨1⟩).map fun sub ↦
      (sub.channel.receiver, sub.channel.queue.length, sub.received.length, sub.attempts.length)) =
      some (true, 1, 2, 2) := by decide +kernel
  obtain ⟨s, hs, hend⟩ := (Option.any_eq_true _ _).1 hend
  rw [hs] at hsub
  obtain ⟨sub, hsub, hcolumns⟩ := Option.map_eq_some_iff.1 hsub
  obtain ⟨hquiet, hkeys, hlive, hcalls⟩ := of_decide_eq_true hend
  simp only [Prod.mk.injEq] at hcolumns
  exact ⟨s, hs, hquiet, hkeys, hlive, hcalls, sub, hsub, hcolumns⟩

/-- The calls do not overlap, and after them the queue is as full as it can be.  The induction is on
the number of calls, and each adds one to the queue or, when it is full, nothing. -/
theorem exists_crowded (n : ℕ) : ∃ s, run World.step .initial (nackRun ++ crowd n) = some s ∧
    Crowded n s ∧ StepsMeet World.step World.Apart .initial (nackRun ++ crowd n) := by
  induction n with
  | zero =>
    obtain ⟨s, hs, hcrowded⟩ := crowded_nackRun
    exact ⟨s, hs, hcrowded, by decide +kernel⟩
  | succ n ih =>
    obtain ⟨s, hs, hcrowded, hapart⟩ := ih
    have hkeys : [⟨1⟩, ⟨2⟩].toFinset = s.inner.subscribers := by
      rw [hcrowded.keys]
      decide
    have hnext := World.run_publish (World.registered_of_reachable ⟨_, hs⟩)
      (validate_userEvent ⟨.ofNat 128 (n + 3)⟩) (by decide) hkeys
    rw [hcrowded.calls] at hnext
    rw [crowd_succ, ← List.append_assoc]
    refine ⟨_, run_append_eq_some hs hnext, hcrowded.succ _, stepsMeet_append.2 ⟨hapart, ?_⟩⟩
    intro t ht
    obtain rfl := Option.some_inj.1 (hs.symm.trans ht)
    exact fun _ _ ↦ ⟨hcrowded.quiet, fun _ _ ↦ ⟨trivial, fun _ _ ↦ ⟨trivial, trivial⟩⟩⟩

/-- Of 1026 events the last one finds the queue full, and is lost. -/
theorem crowd_delivered : ∃ s sub, run World.step .initial (nackRun ++ crowd 1024) = some s ∧
    s.subscribers ⟨1⟩ = some sub ∧ sub.attempts.length = 1026 ∧ sub.received.length = 1025 ∧
    (∃ a ∈ sub.attempts, a.2 = 1024) ∧
    sub.handled ++ sub.pc.current.toList ++ sub.channel.queue =
      (sub.attempts.filter fun a ↦ a.2 ≠ 1024).map Prod.fst := by
  obtain ⟨s, hs, hcrowded, hapart⟩ := exists_crowded 1024
  obtain ⟨sub, hsub, -, -, hreceived, hattempts⟩ := hcrowded.waits
  obtain ⟨-, -, -, -, -, -, hdelivered⟩ :=
    delivered_in_order _ s hapart hs hcrowded.quiet ⟨1⟩ sub hsub hcrowded.live
  refine ⟨s, sub, hs, hsub, hattempts, hreceived, ?_, hdelivered⟩
  by_contra hroomy
  push Not at hroomy
  have hall : (sub.attempts.filter fun a ↦ a.2 ≠ 1024) = sub.attempts :=
    List.filter_eq_self.2 fun a ha ↦ decide_eq_true (hroomy a ha)
  have hlength := congrArg List.length hdelivered
  rw [hall, List.length_map, hattempts] at hlength
  exact absurd (hreceived.symm.trans hlength) (by decide)

end InMemoryBus

end PhenoEvents
