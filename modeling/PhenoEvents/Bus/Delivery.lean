import PhenoEvents.Bus.Refinement

/-!
# What the bus guarantees about deliveries

The results about whole runs, all of them read off the phases of the single events.

* `exclusive_delivery`: one worker at a time, at most one success, and a settled event stays as it
  is.
* `retry_budget`: how status, attempts and calls of the handler hang together.
* `visits_served_iff`: which runs never strand an event.  The claim is committed before the handler
  runs and nothing ever takes an event out of `in_progress` but the worker that put it there, so an
  event whose worker goes away is lost: `claimedRun_crashed`.

The way from a step to a run is the same for all of them.  `Sound` says of every event of a world
that it is in one of the phases, that its row belongs to it and that it has been published;
`sound_step` is the simulation, applied to every event at once, and `sound_of_reachable` the
induction.  After that a result about a reachable world is a result about the phase of one event.

The delivery is at least once only as far as nobody is lost.  What is lost is not delivered again,
as nothing in the code looks for rows in progress: neither `subscribe` nor `claim_next` does, and
there is no time after which a claim would be given up.
-/

set_option autoImplicit false

namespace PhenoEvents

open Transition EventView

/-! ## Invariants of the system

What is known of a single event is carried from its own steps to those of the system by the
simulation, one event at a time. -/

namespace EventView

variable {bus : SqliteBus} {id : Uuid} {lost : Prop} {v v' : EventView}

/-- What is known of every event. -/
structure Sound (bus : SqliteBus) (id : Uuid) (v : EventView) : Prop where
  phase : v.Phase bus
  encoded : v.Encoded bus id
  published : v.Published

theorem Sees.sound (hs : v.Sees bus id lost v') (h : v.Sound bus id) : v'.Sound bus id := by
  cases hs with
  | same _ => exact h
  | step hs _ => exact ⟨hs.phase h.phase, hs.encoded h.encoded, hs.published h.published⟩
  | loss hs _ => exact ⟨(hs.stranded h.phase).1, hs.encoded h.encoded, hs.published h.published⟩

theorem Sees.settled {row : OutboxRow} (hs : v.Sees bus id lost v') (h : v.Phase bus)
    (hv : v.Settled row) : v'.Settled row := by
  cases hs with
  | same _ => exact hv
  | step hs _ => exact ⟨hs.settled hv fun w pc ↦ hv.not_holder h, hv.2⟩
  | loss hs _ => exact absurd hv (hs.not_settled fun w pc ↦ hv.not_holder h)

theorem Sees.succeeded (hs : v.Sees bus id lost v') (h : v.Phase bus)
    (hv : 0 < (Tally.of v.log).succeeded) :
    (Tally.of v'.log).invoked = (Tally.of v.log).invoked ∧ 0 < (Tally.of v'.log).succeeded := by
  cases hs with
  | same _ => exact ⟨rfl, hv⟩
  | step hs _ => exact hs.succeeded h hv
  | loss hs _ => cases hs <;> exact ⟨rfl, hv⟩

/-- A served event is served after a step exactly if the step does not lose it.  Nothing else can
strand an event, and nothing makes up for a loss. -/
theorem Sees.served_iff (hs : v.Sees bus id lost v') (h : v.Phase bus) (hv : v.Served) :
    v'.Served ↔ ¬lost := by
  cases hs with
  | same hkept => exact ⟨fun _ ↦ hkept, fun _ ↦ hv⟩
  | step hs hkept => exact ⟨fun _ ↦ hkept, fun _ ↦ hs.served hv⟩
  | loss hs hlost => exact ⟨fun hv' ↦ absurd hv' (hs.not_served h), fun hkept ↦ absurd hlost hkept⟩

end EventView

namespace World

variable {bus : SqliteBus} {s t : World}

/-- The account of an event: how often a handler was called with it, took it and refused it, and how
many of the refusals were written down. -/
def tally (s : World) (id : Uuid) : Tally := Tally.of (s.view id).log

/-- How often the event has been accepted by `publish`. -/
def accepted (s : World) (id : Uuid) : ℕ := (s.view id).log.countP Observation.isAccepted

/-- What is known of every event of a world. -/
def Sound (bus : SqliteBus) (s : World) : Prop := ∀ id, (s.view id).Sound bus id

theorem sound_initial : initial.Sound bus := fun id ↦
  ⟨phase_initial, (fun row hrow ↦ by cases hrow), published_initial⟩

theorem sees_of_step (h : s.Sound bus) {action : Action} (hstep : step bus s action = some t)
    (id : Uuid) : (s.view id).Sees bus id (s.Loses bus id action) (t.view id) :=
  (WorldMove.of_step hstep).sees (fun k ↦ (h k).encoded) id

theorem sound_step (h : s.Sound bus) {action : Action} (hstep : step bus s action = some t) :
    t.Sound bus := fun id ↦
  (sees_of_step h hstep id).sound (h id)

/-- **In every reachable world every event is in one of the phases.**  What is known of a reachable
world is this, for one event at a time. -/
theorem sound_of_reachable (h : Reachable (step bus) initial s) : s.Sound bus :=
  h.invariant sound_initial fun _ _ _ hs hstep ↦ sound_step hs hstep

/-- The row of a settled event is never written again. -/
theorem settled_run {id : Uuid} {row : OutboxRow} (h : s.Sound bus)
    (hv : (s.view id).Settled row) {as : List Action} (hrun : run (step bus) s as = some t) :
    (t.view id).Settled row := by
  have hI : t.Sound bus ∧ (t.view id).Settled row :=
    run_invariant (I := fun s ↦ s.Sound bus ∧ (s.view id).Settled row)
      (fun s _ t hs hstep ↦ ⟨sound_step hs.1 hstep,
        (sees_of_step hs.1 hstep id).settled (hs.1 id).phase hs.2⟩) ⟨h, hv⟩ hrun
  exact hI.2

/-- After a success the handler is not called again, ever. -/
theorem invoked_run {id : Uuid} (h : s.Sound bus) (hv : 0 < (s.tally id).succeeded)
    {as : List Action} (hrun : run (step bus) s as = some t) :
    (t.tally id).invoked = (s.tally id).invoked := by
  have hI : t.Sound bus ∧ (t.tally id).invoked = (s.tally id).invoked ∧
      0 < (t.tally id).succeeded := by
    refine run_invariant (I := fun r ↦ r.Sound bus ∧ (r.tally id).invoked = (s.tally id).invoked ∧
      0 < (r.tally id).succeeded) (fun r _ r' hr hstep ↦ ?_) ⟨h, rfl, hv⟩ hrun
    obtain ⟨hinv, hsucc⟩ := (sees_of_step hr.1 hstep id).succeeded (hr.1 id).phase hr.2.2
    exact ⟨sound_step hr.1 hstep, hinv.trans hr.2.1, hsucc⟩
  exact hI.2.1

end World

/-! ## One event

A bus that can encode one event only, and runs of it that can be evaluated. -/

/-- An envelope. -/
def userCreated : EventEnvelope where
  id := ⟨1⟩
  eventType := "user.created"
  source := "tests"
  timestamp := 0
  causationId := none
  correlationId := none
  schemaVersion := 1
  payload := .emptyObject

/-- Its text. -/
def userCreatedText : String :=
  "\x7b\"id\":\"00000000-0000-0000-0000-000000000001\",\"event_type\":\"user.created\"," ++
    "\"source\":\"tests\",\"timestamp\":\"1970-01-01T00:00:00Z\",\"causation_id\":null," ++
    "\"correlation_id\":null,\"schema_version\":1,\"payload\":\x7b\x7d\x7d"

/-- A bus on which only that event is published. -/
def oneEventBus (maxRetries : Int64) : SqliteBus :=
  ⟨.table [(userCreated, userCreatedText)] (List.nodup_singleton _), maxRetries⟩

/-- The event is published, and a worker claims it. -/
def claimedRun : List Action :=
  [.publish userCreated 0, .subscribe 0, .work 0 (.poll 1), .work 0 (.claim 0)]

/-- The worker calls the handler, which returns `result`. -/
def handledRun (result : Except String Unit) : List Action :=
  claimedRun ++ [.work 0 (.alreadyHandled 2), .work 0 (.lastSeen 0), .work 0 (.returned result 3)]

/-- A column of the event's row after a run, read off by evaluation. -/
theorem exists_row_of_map (bus : SqliteBus) (as : List Action) (id : Uuid) (status : Status)
    (h : ((run (World.step bus) .initial as).map fun s ↦ s.db.status id) = some (some status)) :
    ∃ s row, run (World.step bus) .initial as = some s ∧ s.db.outbox.lookup id = some row ∧
      row.status = status := by
  obtain ⟨s, hs, hstatus⟩ := Option.map_eq_some_iff.1 h
  obtain ⟨row, hrow, hst⟩ := Option.map_eq_some_iff.1 hstatus
  exact ⟨s, row, hs, hrow, hst⟩

/-! ## Exclusive processing

That two workers never hold one event is what everything else rests on.  A worker keeps an event
between two transactions, and no transaction checks whether it still does; it does, as `claim_next`
claims only what is pending or waiting for a retry, and a claimed row is neither. -/

/-- **One worker at a time, at most one success.**  (a) No two workers hold an event.  (b) After a
success no handler is called on it.  (c) An acked event has succeeded exactly once.  (d) The row of
an event that is acked or dead is never written again. -/
theorem exclusive_delivery (bus : SqliteBus) (s : World)
    (hs : Reachable (World.step bus) .initial s) (id : Uuid) :
    (∀ w w' pc pc', s.workers w = some pc → pc.held = some id → s.workers w' = some pc' →
      pc'.held = some id → w = w') ∧
    (0 < (s.tally id).succeeded → ∀ as t, run (World.step bus) s as = some t →
      (t.tally id).invoked = (s.tally id).invoked) ∧
    (∀ row, s.db.outbox.lookup id = some row → row.status = .acked →
      (s.tally id).succeeded = 1) ∧
    (∀ row, s.db.outbox.lookup id = some row → row.status = .acked ∨ row.status = .dlq →
      ∀ as t, run (World.step bus) s as = some t → t.db.outbox.lookup id = some row) := by
  have hsound := World.sound_of_reachable hs
  have hphase := (hsound id).phase
  refine ⟨fun w w' pc pc' hpc hheld hpc' hheld' ↦ ?_, fun hv as t hrun ↦ ?_, fun row hrow hst ↦ ?_,
    fun row hrow hst as t hrun ↦ ?_⟩
  · obtain ⟨-, -, -, -, -, -, hby, -⟩ := hphase.of_holder (World.holders_view hpc hheld)
    by_contra hne
    have hnone : (s.view id).holders w' = none := by
      rw [hby, Function.update_of_ne (Ne.symm hne)]
    rw [World.holders_view hpc' hheld'] at hnone
    cases hnone
  · exact World.invoked_run hsound hv hrun
  · obtain ⟨n, -, -, -, hn⟩ := hphase.account hrow
    rw [hst] at hn
    exact hn.2
  · exact (World.settled_run hsound ⟨hrow, hst⟩ hrun).1

/-- The handler succeeds. -/
theorem handledRun_ok : ∃ s, run (World.step (oneEventBus 3)) .initial
    (handledRun (.ok ()) ++ [.work 0 .markHandled]) = some s ∧ (s.tally ⟨1⟩).succeeded = 1 ∧
      ∀ as t, run (World.step (oneEventBus 3)) s as = some t →
        (t.tally ⟨1⟩).invoked = (s.tally ⟨1⟩).invoked := by
  obtain ⟨s, row, hs, hrow, hst⟩ := exists_row_of_map (oneEventBus 3)
    (handledRun (.ok ()) ++ [.work 0 .markHandled]) ⟨1⟩ .acked (by decide +kernel)
  obtain ⟨-, hb, hc, -⟩ := exclusive_delivery (oneEventBus 3) s ⟨_, hs⟩ ⟨1⟩
  have hsucc := hc row hrow hst
  exact ⟨s, hs, hsucc, hb (by omega)⟩

/-! ## The retry budget

`mark_failed` reads `attempts` in one statement and writes it in another.  The worker holds the
event in between, so the number it writes is one more than the one that is there, and what is
written down is counted exactly.  A failure that is not written down, because the worker is taken
away before that, is not counted; then the event is stranded, and there is no further attempt. -/

/-- **The retry budget is exact.**  What the status of a row says about its attempts, that attempts
count the recorded failures of the handler, how often the handler is called at all, and that the
next number of attempts never overflows. -/
theorem retry_budget (bus : SqliteBus) (s : World) (hs : Reachable (World.step bus) .initial s)
    (id : Uuid) :
    (∀ row, s.db.outbox.lookup id = some row →
      (row.status = .pending → row.attempts.toInt = 0) ∧
      (row.status = .retrying →
        1 ≤ row.attempts.toInt ∧ row.attempts.toInt < bus.maxRetries.toInt) ∧
      (row.status = .inProgress ∨ row.status = .acked →
        0 ≤ row.attempts.toInt ∧ row.attempts.toInt < max 1 bus.maxRetries.toInt) ∧
      (row.status = .dlq → row.attempts.toInt = max 1 bus.maxRetries.toInt) ∧
      row.attempts.toInt = (s.tally id).recorded) ∧
    (s.tally id).recorded ≤ (s.tally id).failed ∧
    (s.tally id).invoked ≤ max 1 bus.maxRetries.toInt ∧
    ∀ w error now attempts, s.workers w = some (.writing id error now attempts) →
      (attempts + 1).toInt = attempts.toInt + 1 := by
  have hphase := (World.sound_of_reachable hs id).phase
  refine ⟨fun row hrow ↦ ?_, hphase.recorded_le_failed, ?_, fun w error now attempts hpc ↦ ?_⟩
  · obtain ⟨n, hn, hrec, -, hstatus⟩ := hphase.account hrow
    rw [hn, World.tally, hrec]
    refine ⟨fun h ↦ ?_, fun h ↦ ?_, fun h ↦ ?_, fun h ↦ ?_, rfl⟩
    · rw [h] at hstatus
      exact congrArg _ hstatus
    · rw [h] at hstatus
      exact ⟨by exact_mod_cast hstatus.1, hstatus.2⟩
    · refine ⟨Int.natCast_nonneg n, ?_⟩
      rcases h with h | h
      · rw [h] at hstatus
        exact hstatus
      · rw [h] at hstatus
        exact hstatus.1
    · rw [h] at hstatus
      exact hstatus
  · cases hrow : (s.view id).row with
    | none =>
      rw [World.tally, hphase.tally_of_absent hrow]
      exact le_trans (by decide) (Int.le_max_left 1 _)
    | some row =>
      obtain ⟨n, -, -, hinv, -⟩ := hphase.account hrow
      exact hinv
  · obtain ⟨row, n, -, -, hn, hlt, -, -, hread, -⟩ := hphase.of_holder (World.holders_view hpc rfl)
    obtain rfl := hread id error now attempts rfl
    have hle := bus.budget_le
    exact toInt_add_one (by omega)

/-- The handler fails, and there is no second attempt. -/
theorem handledRun_error : ∃ s row, run (World.step (oneEventBus 1)) .initial
    (handledRun (.error "no") ++ [.work 0 .readAttempts, .work 0 .updateFailed]) = some s ∧
      s.db.outbox.lookup ⟨1⟩ = some row ∧ row.attempts.toInt = max 1 1 := by
  obtain ⟨s, row, hs, hrow, hst⟩ := exists_row_of_map (oneEventBus 1)
    (handledRun (.error "no") ++ [.work 0 .readAttempts, .work 0 .updateFailed]) ⟨1⟩ .dlq
    (by decide +kernel)
  obtain ⟨hrows, -⟩ := retry_budget (oneEventBus 1) s ⟨_, hs⟩ ⟨1⟩
  exact ⟨s, row, hs, hrow, (hrows row hrow).2.2.2.1 hst⟩

/-! ## Stranded events

Which steps strand an event can be said before they are taken (`World.LosesNothing`).  The theorem
is that nothing else ever does, and that every one of them does. -/

/-- Every event `publish` has accepted is done, or waits for a worker, or is held by one.  In short,
the bus still knows what to do about it. -/
def World.Served (s : World) : Prop :=
  ∀ id, 0 < s.accepted id → ∃ row, s.db.outbox.lookup id = some row ∧
    (row.status = .acked ∨ row.status = .dlq ∨ row.status = .pending ∨ row.status = .retrying ∨
      row.status = .inProgress ∧ ∃ w pc, s.workers w = some pc ∧ pc.held = some id)

theorem World.served_iff {bus : SqliteBus} {s : World} (h : s.Sound bus) :
    s.Served ↔ ∀ id, (s.view id).Served := by
  constructor
  · intro hs id row hrow hst
    have hpos : 0 < s.accepted id := (h id).published.accepted.1 (by rw [hrow]; rfl)
    obtain ⟨row', hrow', hcases⟩ := hs id hpos
    obtain rfl := Option.some_inj.1 (hrow.symm.trans hrow')
    simp only [hst, reduceCtorEq, true_and, false_or] at hcases
    obtain ⟨w, pc, hpc, hheld⟩ := hcases
    exact ⟨w, pc, holders_view hpc hheld⟩
  · intro hs id hpos
    obtain ⟨row, hrow⟩ := Option.isSome_iff_exists.1 ((h id).published.accepted.2 hpos)
    refine ⟨row, hrow, ?_⟩
    cases hst : row.status with
    | inProgress =>
      obtain ⟨w, pc, hpc⟩ := hs id row hrow hst
      exact Or.inr (Or.inr (Or.inr (Or.inr ⟨rfl, w, pc, holding_eq_some_iff.1 hpc⟩)))
    | _ => simp

/-- The step takes no worker away from an event.  This is a condition on the action and on the state
before it; what the action does afterwards is not mentioned. -/
def World.LosesNothing (bus : SqliteBus) (s : World) (action : Action) : Prop :=
  ∀ id, ¬s.Loses bus id action

/-- **A run strands no event exactly if no step of it takes a worker away from an event.**  That is
a condition on each action and the state before it.  A single step that breaks it strands an event
in the next state, and nothing that comes later brings the event back. -/
theorem visits_served_iff (bus : SqliteBus) (as : List Action) :
    (∀ s, Visits (World.step bus) .initial as s → s.Served) ↔
      StepsMeet (World.step bus) (World.LosesNothing bus) .initial as := by
  refine visits_iff_stepsMeet (I := World.Sound bus)
    (fun s a t hs hstep ↦ World.sound_step hs hstep)
    (fun s a t hs hserved hstep ↦ ?_) World.sound_initial ?_ as
  · rw [World.served_iff (World.sound_step hs hstep)]
    rw [World.served_iff hs] at hserved
    exact forall_congr' fun id ↦
      (World.sees_of_step hs hstep id).served_iff (hs id).phase (hserved id)
  · intro id hid
    exact absurd hid (Nat.lt_irrefl 0)

/-- The process crashes while a worker is between its claim and its mark.  The event stays in
progress, where nothing will ever claim it. -/
theorem claimedRun_crashed :
    ¬∀ s, Reachable (World.step (oneEventBus 3)) .initial s → s.Served := by
  intro h
  obtain ⟨s, row, hs, hrow, hst⟩ := exists_row_of_map (oneEventBus 3) claimedRun ⟨1⟩ .inProgress
    (by decide +kernel)
  have hcrash : Reachable (World.step (oneEventBus 3)) .initial
    { s with workers := fun _ ↦ none } :=
    ⟨claimedRun ++ [.restart], run_append_eq_some hs rfl⟩
  have haccepted : 0 < s.accepted ⟨1⟩ :=
    (World.sound_of_reachable ⟨_, hs⟩ ⟨1⟩).published.accepted.1 (Option.isSome_of_eq_some hrow)
  obtain ⟨row', hrow', hcases⟩ := h _ hcrash ⟨1⟩ haccepted
  obtain rfl := Option.some_inj.1 (hrow.symm.trans hrow')
  simp [hst] at hcases

end PhenoEvents
