import PhenoEvents.Bus.Conservation
import PhenoEvents.Bus.Interchange
import PhenoEvents.Library.Traces

/-!
# What the handler is given

A handler is called with an envelope and with the id of the event that was seen last.  Both have
come a long way: the envelope as a text in the outbox, through a claim that may have been made by
any worker at any time, and the id through `handled_events`.  Here is what a handler may rely on,
however many workers there are and whatever they do.

* The envelope is the first one that `publish` accepted under its id, unchanged.  What is published
  under the same id later never gets to a handler (`delivered_as_published`).
* The event that was seen last is another one, and a handler has returned `Ok` for it before this
  call (`last_seen_succeeded`).

Both say of a history that everything in it has a cause (`Caused`), so it is enough to look at the
one step that calls the handler (`WorldMove.history_cases`).

What a handler cannot rely on is that the event seen last was published before, or handled by the
same worker.  `last_seen` is the last row of `handled_events` by the time of handling, over all
workers.
-/

set_option autoImplicit false

namespace PhenoEvents

open Transition

/-- The envelope a worker has decoded. -/
def Pc.envelope : Pc → Option EventEnvelope
  | .checking envelope | .querying envelope | .handling envelope _ => some envelope
  | _ => none

/-- The handler is called with an envelope that was accepted, and was the first of its id. -/
def Observation.Delivers (before : List Observation) : Observation → Prop
  | .invoked _ envelope _ =>
    envelope ∈ (before.filterMap Observation.acceptedEnvelope).firsts EventEnvelope.id
  | _ => True

/-- The handler is told of another event, for which a handler has returned `Ok`. -/
def Observation.Follows (before : List Observation) : Observation → Prop
  | .invoked _ envelope (some id) =>
    id ≠ envelope.id ∧ ∃ w e, e.id = id ∧ Observation.returned w e (.ok ()) ∈ before
  | _ => True

theorem Observation.delivers_of_not_invoked {o : Observation} (h : o.isInvoked = false)
    (before : List Observation) : o.Delivers before := by
  cases o with
  | invoked => cases h
  | _ => trivial

theorem Observation.follows_of_not_invoked {o : Observation} (h : o.isInvoked = false)
    (before : List Observation) : o.Follows before := by
  cases o with
  | invoked => cases h
  | _ => trivial

/-! ## The call of the handler

A worker that has asked for `last_seen` calls the handler next, with the envelope it has decoded and
the id the query has come back with.  No other step observes a call. -/

section Step

variable {bus : SqliteBus} {s t : World}

/-- One step of a worker calls the handler, with what it has in its hands. -/
theorem WorkerMove.observations_cases {w : ℕ} {db db' : Database} {pc pc' : Pc}
    {action : WorkerAction} {obs : List Observation}
    (h : WorkerMove bus w db pc action db' pc' obs) :
    (∃ envelope tie, pc = .querying envelope ∧ obs = [.invoked w envelope (db.lastSeen tie)]) ∨
      ∀ o ∈ obs, o.isInvoked = false := by
  cases h with
  | invoke envelope tie => exact Or.inl ⟨envelope, tie, rfl, rfl⟩
  | _ => exact Or.inr (by simp [Observation.isInvoked])

/-- **Nothing but the query of `last_seen` is followed by a call of the handler.** -/
theorem WorldMove.history_cases {action : Action} (h : WorldMove bus s action t) :
    (∃ w envelope tie, s.workers w = some (.querying envelope) ∧
      t.history = s.history ++ [.invoked w envelope (s.db.lastSeen tie)]) ∨
    ∃ obs, t.history = s.history ++ obs ∧ ∀ o ∈ obs, o.isInvoked = false := by
  cases h with
  | accepted envelope now text hvalid htext | rejected envelope now error herror =>
    exact Or.inr ⟨_, rfl, by simp [Observation.isInvoked]⟩
  | work w pc pc' action db' obs hpc hmove =>
    rcases hmove.observations_cases with ⟨envelope, tie, rfl, rfl⟩ | hobs
    · exact Or.inl ⟨w, envelope, tie, hpc, rfl⟩
    · exact Or.inr ⟨obs, rfl, hobs⟩
  | subscribe w hfree | abort w pc hpc | restart =>
    exact Or.inr ⟨[], (List.append_nil _).symm, by simp⟩

/-- What a worker has in its hands it has had before, or decoded just now. -/
theorem WorkerMove.envelope_cases {w : ℕ} {db db' : Database} {pc pc' : Pc} {action : WorkerAction}
    {obs : List Observation} (h : WorkerMove bus w db pc action db' pc' obs) {e : EventEnvelope}
    (he : pc'.envelope = some e) :
    pc.envelope = some e ∨ ∃ row ∈ db.outbox.rows, bus.serde.fromStr row.envelope = .ok e := by
  cases h with
  | claim now tie row envelope hrow hdecode =>
    obtain rfl := Option.some_inj.1 he
    exact Or.inr ⟨row, KeyedTable.mem_of_lookup (Database.nextDue_eq_some hrow).1, hdecode⟩
  | notHandled envelope now hdone | invoke envelope tie => exact Or.inl he
  | _ => cases he

end Step

namespace World

variable {bus : SqliteBus} {s t : World}

/-! ## The envelope

What a worker has in its hands is the first accepted envelope of some id: it was when the worker
decoded it, and what was accepted first does not change. -/

/-- Whatever a worker has in its hands is what was accepted first, under the id it has: between the
decoding and the call of the handler nothing can replace it. -/
structure Carries (bus : SqliteBus) (s : World) : Prop where
  stores : s.StoresFirsts bus
  decodes : ∀ e ∈ s.acceptedEnvelopes, ∀ text, bus.serde.toString e = .ok text →
    bus.serde.fromStr text = .ok e
  holds : ∀ w pc e, s.workers w = some pc → pc.envelope = some e →
    e ∈ s.acceptedEnvelopes.firsts EventEnvelope.id

theorem carries_initial (bus : SqliteBus) : initial.Carries bus where
  stores := rfl
  decodes _ he := by cases he
  holds _ _ _ hpc := by cases hpc

/-- A row decodes to what was accepted first. -/
theorem Carries.mem_firsts (h : s.Carries bus) {row : OutboxRow} (hrow : row ∈ s.db.outbox.rows)
    {e : EventEnvelope} (hdecode : bus.serde.fromStr row.envelope = .ok e) :
    e ∈ s.acceptedEnvelopes.firsts EventEnvelope.id := by
  have hmem : row.stored ∈ (s.acceptedEnvelopes.firsts EventEnvelope.id).map bus.stored :=
    h.stores ▸ List.mem_map_of_mem hrow
  obtain ⟨first, hfirst, hstored⟩ := List.mem_map.1 hmem
  obtain ⟨-, htext⟩ := Prod.mk.inj hstored
  have hsame := h.decodes first (List.mem_of_mem_firsts hfirst) row.envelope htext
  obtain rfl := Except.ok.inj (hdecode.symm.trans hsame)
  exact hfirst

/-- Workers come and go with nothing in their hands. -/
theorem Carries.update (h : s.Carries bus) {w : ℕ} {o : Option Pc}
    (ho : ∀ pc, o = some pc → pc.envelope = none) :
    { s with workers := Function.update s.workers w o }.Carries bus := by
  refine ⟨h.stores, h.decodes, fun u pc e hu he ↦ ?_⟩
  have hu' : Function.update s.workers w o u = some pc := hu
  rw [Function.update_apply] at hu'
  split at hu'
  · rw [ho pc hu'] at he
    cases he
  · exact h.holds u pc e hu' he

/-- **Nobody ever has anything else in its hands.** -/
theorem Carries.step (h : s.Carries bus) {action : Action}
    (hserde : ∀ e, action.envelope = some e → bus.serde.RoundTrips e)
    (hstep : World.step bus s action = some t) : t.Carries bus := by
  have hstores := storesFirsts_step h.stores hstep
  cases WorldMove.of_step hstep with
  | accepted envelope now text hvalid htext =>
    -- one more accepted envelope; the first of each id stays the first
    have haccepted : (s.history ++ [Observation.published envelope
        (.ok ⟨envelope.id, (s.db.outbox.lookup envelope.id).isSome⟩)]).filterMap
        Observation.acceptedEnvelope = s.acceptedEnvelopes ++ [envelope] := List.filterMap_append ..
    refine ⟨hstores, fun e he text' htext' ↦ ?_, fun w pc e hpc he ↦ ?_⟩
    · rw [acceptedEnvelopes, haccepted, List.mem_append, List.mem_singleton] at he
      rcases he with he | rfl
      · exact h.decodes e he text' htext'
      · obtain ⟨text, htext, hback⟩ := hserde e rfl hvalid
        obtain rfl := Except.ok.inj (htext.symm.trans htext')
        exact hback
    · rw [acceptedEnvelopes, haccepted]
      exact (List.firsts_isPrefix (List.prefix_append _ _)).subset (h.holds w pc e hpc he)
  | rejected envelope now error herror =>
    have haccepted : (s.history ++ [Observation.published envelope (.error error)]).filterMap
        Observation.acceptedEnvelope = s.acceptedEnvelopes :=
      (List.filterMap_append ..).trans (List.append_nil _)
    refine ⟨hstores, ?_, ?_⟩
    · rw [acceptedEnvelopes, haccepted]
      exact h.decodes
    · rw [acceptedEnvelopes, haccepted]
      exact h.holds
  | subscribe w hfree => exact h.update fun pc hpc ↦ by rw [← Option.some_inj.1 hpc]; rfl
  | abort w pc hpc => exact h.update fun pc hpc ↦ by cases hpc
  | restart => exact ⟨h.stores, h.decodes, fun _ _ _ hpc ↦ by cases hpc⟩
  | work w pc pc' action db' obs hpc hmove =>
    have haccepted : (s.history ++ obs).filterMap Observation.acceptedEnvelope =
        s.acceptedEnvelopes := by
      rw [List.filterMap_append, hmove.stored.2, List.append_nil, acceptedEnvelopes]
    refine ⟨hstores, ?_, fun u pc'' e hu he ↦ ?_⟩
    · rw [acceptedEnvelopes, haccepted]
      exact h.decodes
    · have hu' : Function.update s.workers w (some pc') u = some pc'' := hu
      rw [acceptedEnvelopes, haccepted]
      rw [Function.update_apply] at hu'
      split at hu'
      · obtain rfl := Option.some_inj.1 hu'
        -- the envelope was there before, or has been decoded from a row just now
        rcases hmove.envelope_cases he with hold | ⟨row, hrow, hdecode⟩
        · exact h.holds w pc e hpc hold
        · exact h.mem_firsts hrow hdecode
      · exact h.holds u pc'' e hu' he

/-! ## The event that was seen last

The row of `handled_events` was inserted by a worker whose handler had returned `Ok`. -/

/-- What is in `handled_events` was put there by a success. -/
theorem Sound.exists_succeeded (h : s.Sound bus) {id : Uuid}
    (hdone : s.db.alreadyHandled id = true) :
    ∃ w e, e.id = id ∧ Observation.returned w e (.ok ()) ∈ s.history := by
  have hphase := (h id).phase
  obtain ⟨row, hrow, hacked⟩ := hphase.handled_iff.1 hdone
  obtain ⟨n, -, -, -, hstatus⟩ := hphase.account hrow
  rw [hacked] at hstatus
  have hone : (s.view id).log.countP Observation.isSucceeded = 1 := hstatus.2
  obtain ⟨o, ho, hsucceeded⟩ := List.countP_pos_iff.1 (hone ▸ Nat.one_pos)
  obtain ⟨hmem, hid⟩ := List.mem_filter.1 ho
  cases o with
  | returned w e result =>
    cases result with
    | ok u => exact ⟨w, e, of_decide_eq_true hid, hmem⟩
    | error error => cases hsucceeded
  | _ => cases hsucceeded

theorem alreadyHandled_of_lastSeen {db : Database} {tie : ℕ} {id : Uuid}
    (h : db.lastSeen tie = some id) : db.alreadyHandled id = true := by
  obtain ⟨row, hrow, rfl⟩ := Option.map_eq_some_iff.1 h
  obtain ⟨hmem, -, -⟩ := KeyedTable.firstBy_eq_some hrow
  rw [Database.alreadyHandled_eq_isSome, KeyedTable.lookup_of_mem hmem]
  rfl

end World

/-! ## The results

Each is about every observation of the history and those that came before it (`Caused`), so it is
about every moment of a run. -/

/-- **A handler is given what was published first under the id**, on any worker and at any time.  An
envelope that comes later under the same id is answered with `duplicate`, and never delivered. -/
theorem delivered_as_published (bus : SqliteBus) (as : List Action) (s : World)
    (hserde : ∀ e ∈ published as, bus.serde.RoundTrips e)
    (hrun : run (World.step bus) .initial as = some s) :
    Caused Observation.Delivers s.history := by
  refine caused_of_run (I := World.Carries bus)
    (K := fun a ↦ ∀ e, a.envelope = some e → bus.serde.RoundTrips e)
    (fun s a t h ha hstep ↦ h.step ha hstep) (fun s a t h _ hstep ↦ ?_) (World.carries_initial bus)
    caused_nil (fun a ha e he ↦ hserde e (List.mem_filterMap.2 ⟨a, ha, he⟩)) hrun
  rcases (WorldMove.of_step hstep).history_cases with
    ⟨w, envelope, tie, hpc, hhistory⟩ | ⟨obs, hhistory, hobs⟩
  · refine ⟨_, hhistory, caused_singleton_iff.2 ?_⟩
    rw [List.append_nil]
    exact h.holds w _ envelope hpc rfl
  · exact ⟨obs, hhistory, caused_of_forall fun o ho _ ↦
      Observation.delivers_of_not_invoked (hobs o ho) _⟩

/-- A second envelope under the same id. -/
def forgedEvent : EventEnvelope := { userCreated with source := "elsewhere" }

/-- It is accepted as well, before a worker claims the event. -/
def forgedRun : List Action :=
  [.publish userCreated 0, .publish forgedEvent 1, .subscribe 0, .work 0 (.poll 2),
    .work 0 (.claim 0), .work 0 (.alreadyHandled 3), .work 0 (.lastSeen 0)]

/-- A bus that can store both. -/
def forgedBus : SqliteBus where
  serde := .table [(userCreated, "first"), (forgedEvent, "second")] (by decide)

/-- One delivery, and it is of the envelope that came first. -/
theorem forgedRun_delivered : ∃ s, run (World.step forgedBus) .initial forgedRun = some s ∧
    s.history.countP Observation.isInvoked = 1 ∧ Caused Observation.Delivers s.history := by
  have hall : ∀ e ∈ published forgedRun, e.validate = .ok () →
      (forgedBus.serde.toString e).isOk = true := by decide +kernel
  have hend : (run (World.step forgedBus) .initial forgedRun).map (fun s ↦
      s.history.countP Observation.isInvoked) = some 1 := by decide +kernel
  obtain ⟨s, hs, hinvoked⟩ := Option.map_eq_some_iff.1 hend
  exact ⟨s, hs, hinvoked, delivered_as_published forgedBus forgedRun s
    (fun e he ↦ Serde.roundTrips_table (by decide) (hall e he)) hs⟩

/-- **The event that was seen last is another one, and has succeeded before**, whichever worker
asks. It is read from `handled_events`, where rows are only put after a success. -/
theorem last_seen_succeeded (bus : SqliteBus) (s : World)
    (hs : Reachable (World.step bus) .initial s) : Caused Observation.Follows s.history := by
  obtain ⟨as, hrun⟩ := hs
  refine caused_of_run (I := World.Sound bus) (K := fun _ ↦ True)
    (fun s a t h _ hstep ↦ World.sound_step h hstep) (fun s a t h _ hstep ↦ ?_) World.sound_initial
    caused_nil (fun _ _ ↦ trivial) hrun
  rcases (WorldMove.of_step hstep).history_cases with
    ⟨w, envelope, tie, hpc, hhistory⟩ | ⟨obs, hhistory, hobs⟩
  · refine ⟨_, hhistory, caused_singleton_iff.2 ?_⟩
    rw [List.append_nil]
    cases hseen : s.db.lastSeen tie with
    | none => trivial
    | some id =>
      have hdone := World.alreadyHandled_of_lastSeen hseen
      obtain ⟨-, -, -, -, -, -, -, hnot, -⟩ :=
        (h envelope.id).phase.of_holder (World.holders_view hpc rfl)
      refine ⟨?_, h.exists_succeeded hdone⟩
      rintro rfl
      exact Bool.false_ne_true (hnot.symm.trans hdone)
  · exact ⟨obs, hhistory, caused_of_forall fun o ho _ ↦
      Observation.follows_of_not_invoked (hobs o ho) _⟩

/-- The first event has no predecessor, and the second follows it. -/
theorem polledRun_followed : ∃ s, run (World.step userEventsBus) .initial
    (.subscribe 0 :: polledRun) = some s ∧ s.invocations.map Message.lastSeen = [none, some ⟨1⟩] ∧
      Caused Observation.Follows s.history := by
  have hend : (run (World.step userEventsBus) .initial (.subscribe 0 :: polledRun)).map (fun s ↦
      s.invocations.map Message.lastSeen) = some [none, some ⟨1⟩] := by decide +kernel
  obtain ⟨s, hs, hseen⟩ := Option.map_eq_some_iff.1 hend
  exact ⟨s, hs, hseen, last_seen_succeeded userEventsBus s ⟨_, hs⟩⟩

end PhenoEvents
