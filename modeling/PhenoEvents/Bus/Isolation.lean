import PhenoEvents.Bus.Answers
import PhenoEvents.Bus.FanOut

/-!
# No subscriber notices another

`InMemoryBus` serves its subscribers from one map, and every call of `publish` goes through all of
them.  Still none of them can tell that it is not the only one: whatever the others do, and however
slow they are, a run of the bus looks to a subscriber and to the publishers like a run in which
there is nobody else.

That run is not made up.  `World.restrict` leaves of a bus what belongs to one subscriber, and
`Action.restrict` of a step what it is to that subscriber, which may be nothing.  The bus that is
left takes the steps that are left (`step_restrict`).

So a subscriber is not kept waiting by another one that is slow, does not lose an event because the
queue of another one is full, and is told the same `last_seen`.  The calls of `publish` are answered
alike, with other subscribers or without.

The argument goes through the steps by whom they belong to: another subscriber, the subscriber
itself, or a publisher.  Of a publisher the steps that are left are its critical section and the
`try_send` to this subscriber.
-/

set_option autoImplicit false

namespace PhenoEvents

namespace InMemoryBus

open Transition

/-- The subscriber a step belongs to. -/
def Action.owner : Action → Option Uuid
  | .publish _ _ | .send _ => none
  | .subscribe k | .receive k | .returned k _ | .drop k | .stop k | .closed k | .remove k => some k

/-- The senders that belong to one subscriber. -/
def Call.restrict (k : Uuid) (call : Call) : Call :=
  { call with senders := call.senders.filter fun j ↦ j = k }

namespace World

/-- What belongs to one subscriber, and to the publishers: its entry in the map, its channel and
worker, and of every call the sender of this subscriber, if it still has it.  The seen set, the last
published id and the answers belong to the publishers and are kept whole. -/
def restrict (k : Uuid) (s : World) : World where
  inner := { s.inner with subscribers := s.inner.subscribers.filter fun j ↦ j = k }
  calls := s.calls.map (Call.restrict k)
  answers := s.answers
  subscribers := fun j ↦ if j = k then s.subscribers j else none
  subscriptions := s.subscriptions.filter fun j ↦ j = k

/-- Where the call sends next. -/
def sendsTo (s : World) (n : ℕ) : Option Uuid := s.calls[n]?.bind fun call ↦ call.senders.head?

end World

/-- What a step is to one subscriber.  A call of `publish` is one to everybody, with the other
senders left out of its snapshot; a send to somebody else is nothing. -/
def Action.restrict (k : Uuid) (s : World) : Action → Option Action
  | .publish envelope senders => some (.publish envelope (senders.filter fun j ↦ j = k))
  | .send n => if s.sendsTo n = some k then some (.send n) else none
  | action => if action.owner = some k then some action else none

namespace World

variable {s t : World} {k j : Uuid} {action : Action}

@[simp] theorem restrict_initial (k : Uuid) : initial.restrict k = initial := by
  simp [restrict, initial]

@[simp] theorem subscribers_restrict_self : (s.restrict k).subscribers k = s.subscribers k :=
  if_pos rfl

theorem mem_subscribers_restrict :
    k ∈ (s.restrict k).inner.subscribers ↔ k ∈ s.inner.subscribers := by
  simp [restrict]

theorem mem_subscriptions_restrict : k ∈ (s.restrict k).subscriptions ↔ k ∈ s.subscriptions := by
  simp [restrict]

theorem exists_sender_restrict :
    (∃ call ∈ (s.restrict k).calls, k ∈ call.senders) ↔ ∃ call ∈ s.calls, k ∈ call.senders := by
  simp [restrict, Call.restrict]

/-! ## What the others do

A step of another subscriber changes that subscriber, its entry in the map and its subscription.
None of them is left in what belongs to this one. -/

theorem restrict_setSubscriber_of_ne (h : j ≠ k) (sub : Subscriber) :
    (s.setSubscriber j sub).restrict k = s.restrict k := by
  have hsame : (fun i ↦ if i = k then Function.update s.subscribers j (some sub) i else none) =
      fun i ↦ if i = k then s.subscribers i else none := by
    funext i
    by_cases hi : i = k
    · rw [if_pos hi, if_pos hi, Function.update_of_ne (hi.trans_ne h.symm)]
    · rw [if_neg hi, if_neg hi]
  simp only [restrict, setSubscriber, hsame]

theorem restrict_of_work_of_ne (h : j ≠ k) {f : Subscriber → Option Subscriber}
    (hwork : s.work j f = some t) : t.restrict k = s.restrict k := by
  obtain ⟨sub, sub', -, -, rfl⟩ := work_eq_some hwork
  exact restrict_setSubscriber_of_ne h sub'

/-! ## What the subscriber does

Its own channel and worker are all there, so its steps find what they look for. -/

theorem restrict_setSubscriber_self (sub : Subscriber) :
    (s.setSubscriber k sub).restrict k = (s.restrict k).setSubscriber k sub := by
  have hsame : (fun i ↦ if i = k then Function.update s.subscribers k (some sub) i else none) =
      Function.update (fun i ↦ if i = k then s.subscribers i else none) k (some sub) := by
    funext i
    by_cases hi : i = k
    · rw [if_pos hi, hi, Function.update_self, Function.update_self]
    · rw [if_neg hi, Function.update_of_ne hi, if_neg hi]
  simp only [restrict, setSubscriber, hsame]

theorem work_restrict {f : Subscriber → Option Subscriber} (hwork : s.work k f = some t) :
    (s.restrict k).work k f = some (t.restrict k) := by
  obtain ⟨sub, sub', hsub, hf, rfl⟩ := work_eq_some hwork
  rw [work, subscribers_restrict_self, hsub, Option.bind_some, hf, restrict_setSubscriber_self]
  rfl

/-! ## What the publishers do

The critical section takes its snapshot of a smaller map.  The senders of the call are those that
are left of the ones it had, in their order. -/

theorem restrict_enter (envelope : EventEnvelope) (senders : List Uuid) :
    (s.enter envelope senders).restrict k =
      (s.restrict k).enter envelope (senders.filter fun j ↦ j = k) := by
  by_cases hseen : envelope.id ∈ s.inner.seen <;>
    simp [enter, restrict, Inner.record, Call.restrict, hseen]

theorem step_restrict_publish {envelope : EventEnvelope} {senders : List Uuid}
    (h : s.step (.publish envelope senders) = some t) :
    (s.restrict k).step (.publish envelope (senders.filter fun j ↦ j = k)) =
    some (t.restrict k) := by
  cases move_of_step h with
  | rejected hinvalid =>
    rw [step, hinvalid]
    rfl
  | entered hvalid hnodup hsenders =>
    have hfinset : senders.toFinset = s.inner.subscribers := by
      ext j
      rw [List.mem_toFinset, hsenders]
    have hleft : (senders.filter fun j ↦ j = k).Nodup ∧
        (senders.filter fun j ↦ j = k).toFinset = (s.restrict k).inner.subscribers := by
      refine ⟨hnodup.filter _, ?_⟩
      rw [List.toFinset_filter, hfinset, restrict]
      simp
    rw [step, hvalid, restrict_enter]
    exact if_pos hleft
  | worked hsub hmove => cases hmove

/-- The call goes on without the sender it has used. -/
theorem restrict_set {n : ℕ} {message : Message} {duplicate : Bool} {senders : List Uuid} :
    { s with calls := s.calls.set n ⟨message, duplicate, senders⟩ }.restrict k =
      { s.restrict k with
        calls := (s.restrict k).calls.set n
          ⟨message, duplicate, senders.filter fun j ↦ j = k⟩ } := by
  simp [restrict, Call.restrict, List.map_set]

theorem step_restrict_send {n : ℕ} (h : s.step (.send n) = some t) :
    run step (s.restrict k) (Action.restrict k s (.send n)).toList = some (t.restrict k) := by
  rw [step] at h
  split at h
  · rename_i message duplicate j senders hcall
    have hto : s.sendsTo n = some j := by rw [sendsTo, hcall]; rfl
    by_cases hj : j = k
    · subst hj
      have hcall' : (s.restrict j).calls[n]? =
          some ⟨message, duplicate, j :: senders.filter fun i ↦ i = j⟩ := by
        simp [restrict, hcall, Call.restrict]
      rw [Action.restrict, if_pos hto]
      refine run_cons_eq_some.2 ⟨_, ?_, rfl⟩
      rw [step, hcall']
      have hwork := work_restrict h
      rwa [restrict_set] at hwork
    · have hne : s.sendsTo n ≠ some k := fun hk ↦ hj (Option.some_inj.1 (hto.symm.trans hk))
      rw [Action.restrict, if_neg hne]
      -- what is left of the call is the same before and after
      have hcalls :
          (s.calls.map (Call.restrict k)).set n (Call.restrict k ⟨message, duplicate, senders⟩) =
            s.calls.map (Call.restrict k) := by
        obtain ⟨hn, hcall⟩ := List.getElem?_eq_some_iff.1 hcall
        have hn' : n < (s.calls.map (Call.restrict k)).length := by rwa [List.length_map]
        have hleft : (s.calls.map (Call.restrict k))[n] =
            Call.restrict k ⟨message, duplicate, senders⟩ := by
          simp [hcall, Call.restrict, hj]
        rw [← hleft, List.set_getElem_self]
      rw [restrict_of_work_of_ne hj h, Option.toList_none, run_nil]
      simp only [restrict, List.map_set, hcalls]
  · cases h

/-! ## Subscriptions

The map and the set of subscriptions are filtered, and inserting or removing the subscriber itself
is the same before and after the filter. -/

theorem restrict_subscribe_self (k : Uuid) (sub : Subscriber) :
    restrict k { s.setSubscriber k sub with
        inner := { s.inner with subscribers := insert k s.inner.subscribers }
        subscriptions := insert k s.subscriptions } =
      { (s.restrict k).setSubscriber k sub with
        inner := { (s.restrict k).inner with
          subscribers := insert k (s.restrict k).inner.subscribers }
        subscriptions := insert k (s.restrict k).subscriptions } := by
  rw [← restrict_setSubscriber_self]
  simp [restrict, setSubscriber, Finset.filter_insert]

theorem restrict_remove_self (k : Uuid) (sub : Subscriber) :
    restrict k { s.setSubscriber k sub with
        inner := { s.inner with subscribers := s.inner.subscribers.erase k } } =
      { (s.restrict k).setSubscriber k sub with
        inner := { (s.restrict k).inner with
          subscribers := (s.restrict k).inner.subscribers.erase k } } := by
  rw [← restrict_setSubscriber_self]
  simp [restrict, setSubscriber, Finset.filter_erase]

/-- A step of another subscriber leaves everything as it was. -/
theorem restrict_of_owner_of_ne (hj : j ≠ k) (howner : action.owner = some j)
    (h : s.step action = some t) : t.restrict k = s.restrict k := by
  cases action with
  | publish | send => cases howner
  | receive i | returned i result =>
    obtain rfl := Option.some_inj.1 howner
    exact restrict_of_work_of_ne hj h
  | subscribe i =>
    obtain rfl := Option.some_inj.1 howner
    cases move_of_step h with
    | subscribed hnew =>
      rw [← restrict_setSubscriber_of_ne (s := s) hj (.new s.calls.length)]
      simp [restrict, setSubscriber, Finset.filter_insert, hj]
    | worked hsub hmove => cases hmove
  | drop i =>
    obtain rfl := Option.some_inj.1 howner
    cases move_of_step h with
    | dropped hk => simp [restrict, Finset.filter_erase, hj]
    | worked hsub hmove => cases hmove
  | stop i =>
    -- `step` looks into the set of live subscriptions first, which is not changed by this
    obtain rfl := Option.some_inj.1 howner
    rw [step] at h
    split at h
    · cases h
    · exact restrict_of_work_of_ne hj h
  | closed i =>
    obtain rfl := Option.some_inj.1 howner
    rw [step] at h
    split at h
    · cases h
    · exact restrict_of_work_of_ne hj h
  | remove i =>
    obtain rfl := Option.some_inj.1 howner
    cases move_of_step h with
    | @removed _ sub hsub hpc =>
      rw [← restrict_setSubscriber_of_ne (s := s) hj
        ⟨sub.channel.dropReceiver, .stopped none, sub.handled, sub.attempts, sub.since⟩]
      simp [restrict, setSubscriber, Finset.filter_erase, hj]
    | worked hsub hmove => cases hmove

/-- A step of the subscriber is one on the bus that is left.  It reads the calls in one case only,
at `closed`: its receiver ends when nobody has a sender, and the senders of this subscriber are all
kept. -/
theorem step_restrict_of_owner (howner : action.owner = some k) (h : s.step action = some t) :
    (s.restrict k).step action = some (t.restrict k) := by
  cases action with
  | publish | send => cases howner
  | receive i | returned i result =>
    obtain rfl := Option.some_inj.1 howner
    exact work_restrict h
  | subscribe i =>
    obtain rfl := Option.some_inj.1 howner
    cases move_of_step h with
    | subscribed hnew =>
      rw [step, subscribers_restrict_self, hnew, restrict_subscribe_self]
      simp [restrict]
    | worked hsub hmove => cases hmove
  | drop i =>
    obtain rfl := Option.some_inj.1 howner
    cases move_of_step h with
    | dropped hk =>
      rw [step, if_pos (mem_subscriptions_restrict.2 hk)]
      simp [restrict, Finset.filter_erase]
    | worked hsub hmove => cases hmove
  | stop i =>
    obtain rfl := Option.some_inj.1 howner
    rw [step] at h ⊢
    simp only [mem_subscriptions_restrict]
    split at h
    · cases h
    · rename_i hdropped
      rw [if_neg hdropped]
      exact work_restrict h
  | closed i =>
    -- whether the channel is closed depends on the senders of this subscriber alone
    obtain rfl := Option.some_inj.1 howner
    rw [step] at h ⊢
    simp only [mem_subscribers_restrict, exists_sender_restrict]
    split at h
    · cases h
    · rename_i hopen
      rw [if_neg hopen]
      exact work_restrict h
  | remove i =>
    obtain rfl := Option.some_inj.1 howner
    rw [step] at h ⊢
    rw [subscribers_restrict_self]
    split at h
    · rename_i channel handled attempts since hsub
      obtain rfl := Option.some_inj.1 h
      rw [restrict_remove_self]
    · cases h

/-- **The bus that is left takes the steps that are left.**  A step that is nothing to the
subscriber leaves the bus as it is. -/
theorem step_restrict (h : s.step action = some t) :
    run step (s.restrict k) (action.restrict k s).toList = some (t.restrict k) := by
  cases howner : action.owner with
  | none =>
    cases action with
    | publish envelope senders => exact run_cons_eq_some.2 ⟨_, step_restrict_publish h, rfl⟩
    | send n => exact step_restrict_send h
    | _ => cases howner
  | some j =>
    have hrestrict : action.restrict k s = if j = k then some action else none := by
      cases action with
      | publish | send => cases howner
      | _ =>
        obtain rfl := Option.some_inj.1 howner
        simp only [Action.restrict, Action.owner, Option.some_inj]
    rw [hrestrict]
    by_cases hj : j = k
    · subst hj
      rw [if_pos rfl]
      exact run_cons_eq_some.2 ⟨_, step_restrict_of_owner howner h, rfl⟩
    · rw [if_neg hj, restrict_of_owner_of_ne hj howner h]
      rfl

end World

/-- What a run is to one subscriber.  The state is carried along, since it decides whom a call sends
to next, and so whether that send is anything to this subscriber. -/
def restrictRun (k : Uuid) : World → List Action → List Action
  | _, [] => []
  | s, a :: as =>
    match s.step a with
    | some t => (a.restrict k s).toList ++ restrictRun k t as
    | none => []

variable {s t : World} {k : Uuid}

theorem World.run_restrict {as : List Action} (h : run step s as = some t) :
    run step (s.restrict k) (restrictRun k s as) = some (t.restrict k) := by
  induction as generalizing s with
  | nil =>
    obtain rfl := Option.some_inj.1 h
    rfl
  | cons a as ih =>
    obtain ⟨m, hm, h⟩ := run_cons_eq_some.1 h
    rw [restrictRun, hm]
    exact run_append_eq_some (step_restrict hm) (ih h)

/-- Only the steps of one subscriber are left, and all the calls of `publish`.  So the run that is
left is one of a bus with a single subscriber, and nothing has been put into it that was not there.
-/
theorem restrictRun_spec {as : List Action} (h : run World.step s as = some t) :
    (∀ b ∈ restrictRun k s as, b.owner = none ∨ b.owner = some k) ∧
      published (restrictRun k s as) = published as ∧
      ((restrictRun k s as).filter fun b ↦ b.owner = some k) =
        as.filter fun b ↦ b.owner = some k := by
  induction as generalizing s with
  | nil => exact ⟨fun _ hb ↦ absurd hb List.not_mem_nil, rfl, rfl⟩
  | cons a as ih =>
    obtain ⟨m, hm, h⟩ := run_cons_eq_some.1 h
    obtain ⟨howners, hpublished, hsteps⟩ := ih h
    rw [restrictRun, hm]
    have hone : (∀ b ∈ (a.restrict k s).toList, b.owner = none ∨ b.owner = some k) ∧
        (a.restrict k s).toList.filterMap Action.envelope = a.envelope.toList ∧
        ((a.restrict k s).toList.filter fun b ↦ b.owner = some k) =
          [a].filter fun b ↦ b.owner = some k := by
      cases a with
      | publish envelope senders => simp [Action.restrict, Action.owner, Action.envelope]
      | send n =>
        by_cases hto : s.sendsTo n = some k <;>
          simp [Action.restrict, Action.owner, Action.envelope, hto]
      | subscribe j | receive j | returned j result | drop j | stop j | closed j | remove j =>
        by_cases hj : j = k <;> simp [Action.restrict, Action.owner, Action.envelope, hj]
    obtain ⟨howner, henvelope, hstep⟩ := hone
    refine ⟨List.forall_mem_append.2 ⟨howner, howners⟩, ?_, ?_⟩
    · show List.filterMap _ _ = List.filterMap _ _
      rw [List.filterMap_append, henvelope, ← List.singleton_append, List.filterMap_append]
      rw [← published, hpublished]
      cases ha : a.envelope <;> simp [ha, published]
    · rw [List.filter_append, hstep, hsteps, ← List.filter_append, List.singleton_append]

/-- **No subscriber notices another.**  Whatever the others do, there is a run in which nobody
subscribes but this one, with the same calls of `publish` and the same steps of the subscriber,
after which every call has had the same answer and the subscriber has the same queue, the same
worker and the same past. -/
theorem subscriber_alone (as : List Action) (s : World) (k : Uuid)
    (hrun : run World.step .initial as = some s) :
    ∃ (bs : List Action) (t : World), run World.step .initial bs = some t ∧
      (∀ b ∈ bs, b.owner = none ∨ b.owner = some k) ∧ published bs = published as ∧
      (bs.filter fun b ↦ b.owner = some k) = (as.filter fun b ↦ b.owner = some k) ∧
      t.answers = s.answers ∧ t.messages = s.messages ∧ t.subscribers k = s.subscribers k ∧
      ∀ j, j ≠ k → t.subscribers j = none := by
  have hleft := World.run_restrict (k := k) hrun
  rw [World.restrict_initial] at hleft
  obtain ⟨howners, hpublished, hsteps⟩ := restrictRun_spec (k := k) hrun
  refine ⟨_, _, hleft, howners, hpublished, hsteps, rfl, ?_, World.subscribers_restrict_self,
    fun j hj ↦ if_neg hj⟩
  rw [World.messages, World.restrict, List.map_map]
  rfl

/-- Two subscribers, one of which is slow and leaves.  The first event is sent to it before it is
sent to the other, and it has handled nothing when it is dropped. -/
def crowdedRun : List Action :=
  [.subscribe ⟨8⟩, .subscribe ⟨7⟩, .publish (userEvent ⟨1⟩) [⟨8⟩, ⟨7⟩], .send 0, .send 0,
    .publish (userEvent ⟨2⟩) [⟨7⟩, ⟨8⟩], .send 1, .receive ⟨7⟩, .returned ⟨7⟩ (.ok ()), .drop ⟨8⟩,
    .stop ⟨8⟩, .send 1, .receive ⟨7⟩]

/-- The subscriber that has stayed got both events, and would have got them alone. -/
theorem crowdedRun_alone : ∃ (s t : World) (bs : List Action),
    run World.step .initial crowdedRun = some s ∧ run World.step .initial bs = some t ∧
      t.subscribers ⟨8⟩ = none ∧ t.subscribers ⟨7⟩ = s.subscribers ⟨7⟩ ∧
      (t.subscribers ⟨7⟩).map (fun sub ↦ sub.invoked.map Message.id) = some [⟨1⟩, ⟨2⟩] := by
  have hend : (run World.step .initial crowdedRun).map (fun s ↦
      (s.subscribers ⟨7⟩).map fun sub ↦ sub.invoked.map Message.id) = some (some [⟨1⟩, ⟨2⟩]) := by
    decide +kernel
  obtain ⟨s, hs, hinvoked⟩ := Option.map_eq_some_iff.1 hend
  obtain ⟨bs, t, ht, -, -, -, -, -, hsame, hnobody⟩ := subscriber_alone crowdedRun s ⟨7⟩ hs
  exact ⟨s, t, bs, hs, ht, hnobody ⟨8⟩ (by decide), hsame, hsame ▸ hinvoked⟩

end InMemoryBus

end PhenoEvents
