import PhenoEvents.Bus.Delivery

/-!
# The row of an event sums up its deliveries

The outbox keeps of all the deliveries of an event a number and one message.  What was observed of
the event keeps everything, in the order in which it happened, and many workers may have taken part.

Still there is only one way it can have happened.  The deliveries of an event come one after
another: each is a claim, a call of the handler, its nack and the record of the nack, all by one
worker, and the next one does not begin before that (`Attempt`).  Only the last can be something
else (`Delivery`).  So the row can be read as a summary: `attempts` is how many there were,
`last_error` is what the last of them said, and the status tells what follows them
(`row_sums_up_deliveries`).

## What is here

* `Attempt`: a delivery that was refused and whose refusal was written down, with the four
  observations it consists of.
* `Delivery`: what there can be after the attempts.  Nothing, a delivery that is under way or was
  broken off, or one that has succeeded.
* `Told`, the invariant: a list of attempts and one `Delivery` account for all that was observed of
  the event, in this order.  Each step either goes on with the delivery, or ends it, or begins one.
* `row_sums_up_deliveries`.

The proofs follow the steps of one event (`EventView.Step`), and need from the phases that a worker
which holds an event is the only one.  Otherwise the observations of two deliveries could be mixed.
-/

set_option autoImplicit false

namespace PhenoEvents

open Transition

/-! ## Deliveries

What was observed of an event is cut into deliveries.  All of them but the last were refused, and
their refusal was written down. -/

/-- A delivery that was refused, from the claim to the record.  It has a worker, an envelope, the
event that was seen before it and the error that was returned. -/
structure Attempt where
  worker : ℕ
  envelope : EventEnvelope
  lastSeen : Option Uuid
  error : String

/-- What is observed of it. -/
def Attempt.observations (id : Uuid) (a : Attempt) : List Observation :=
  [.claimed a.worker id, .invoked a.worker a.envelope a.lastSeen,
    .returned a.worker a.envelope (.error a.error), .recorded a.worker id]

/-- What `mark_failed` writes of it. -/
def Attempt.message (a : Attempt) : String := "handler nack: " ++ a.error

/-- What there is after the attempts: nothing yet, or one delivery that is under way, was broken
off, or has succeeded.  A delivery that was broken off looks like one that is under way; only the
worker is gone. -/
inductive Delivery
  /-- Nothing. -/
  | none
  /-- A claim. -/
  | claimed (worker : ℕ)
  /-- A call of the handler. -/
  | invoked (worker : ℕ) (envelope : EventEnvelope) (lastSeen : Option Uuid)
  /-- A call that returned `Ok`. -/
  | succeeded (worker : ℕ) (envelope : EventEnvelope) (lastSeen : Option Uuid)
  /-- A call that returned `Err`, which has not been written down. -/
  | failed (attempt : Attempt)

namespace Delivery

/-- What is observed of it. -/
def observations (id : Uuid) : Delivery → List Observation
  | none => []
  | claimed w => [.claimed w id]
  | invoked w envelope seen => [.claimed w id, .invoked w envelope seen]
  | succeeded w envelope seen =>
    [.claimed w id, .invoked w envelope seen, .returned w envelope (.ok ())]
  | failed a =>
    [.claimed a.worker id, .invoked a.worker a.envelope a.lastSeen,
      .returned a.worker a.envelope (.error a.error)]

/-- The status of the row tells what there is, except while the event is in progress.  Then the row
does not say how far the delivery has come. -/
def Fits (d : Delivery) : Status → Prop
  | .inProgress => True
  | .acked => ∃ w envelope seen, d = succeeded w envelope seen
  | .pending | .retrying | .dlq => d = none

/-- A worker that holds the event knows what there is: how far the delivery has come can be told
from where the worker is in `process_once`. -/
def At (d : Delivery) (w : ℕ) : Pc → Prop
  | .idle | .claiming _ => True
  | .checking _ | .querying _ => d = claimed w
  | .handling envelope seen => d = invoked w envelope seen
  | .acking _ _ => ∃ envelope seen, d = succeeded w envelope seen
  | .reading _ error _ | .writing _ error _ _ => ∃ a, d = failed a ∧ a.worker = w ∧
      a.message = error

end Delivery

/-- Part of a delivery. -/
def Observation.isDelivery : Observation → Bool
  | .published _ _ => false
  | _ => true

namespace EventView

/-- What has been observed of the deliveries, in order. -/
def deliveries (v : EventView) : List Observation := v.log.filter Observation.isDelivery

/-! ## The invariant

`Told` keeps the attempts as a list and not as a number, since the message of the last one and the
worker of each of them are part of what is claimed. -/

/-- The attempts and what there is after them account for everything: together their observations
are all that was observed of deliveries of the event, in this order. -/
structure Told (id : Uuid) (v : EventView) (attempts : List Attempt) (d : Delivery) : Prop where
  log : v.deliveries = attempts.flatMap (Attempt.observations id) ++ d.observations id
  absent : v.row = none → attempts = [] ∧ d = .none
  row : ∀ row, v.row = some row →
    row.lastError = attempts.getLast?.map Attempt.message ∧ d.Fits row.status
  held : ∀ w pc, v.holders w = some pc → d.At w pc

variable {bus : SqliteBus} {id : Uuid} {v v' : EventView} {attempts : List Attempt}
  {d d' : Delivery}

theorem told_initial (id : Uuid) : initial.Told id [] .none where
  log := rfl
  absent _ := ⟨rfl, rfl⟩
  row _ hrow := by cases hrow
  held _ _ hpc := by cases hpc

theorem deliveries_append (obs : List Observation) :
    { v with log := v.log ++ obs }.deliveries = v.deliveries ++ obs.filter Observation.isDelivery :=
  List.filter_append ..

/-- Nobody else holds an event that a worker holds. -/
theorem HeldBy.holders_update {w u : ℕ} {pc pc' : Pc} {o : Option Pc} (h : v.HeldBy w pc)
    (hu : Function.update v.holders w o u = some pc') : u = w ∧ o = some pc' := by
  rw [h.update, Function.update_apply] at hu
  split at hu
  · exact ⟨by assumption, hu⟩
  · cases hu

theorem Free.holders_update {w u : ℕ} {pc : Pc} {o : Option Pc} (h : v.Free)
    (hu : Function.update v.holders w o u = some pc) : u = w ∧ o = some pc := by
  rw [h, Function.update_apply] at hu
  split at hu
  · exact ⟨by assumption, hu⟩
  · cases hu

/-! ## The steps

There is one lemma for each kind of step.  A worker that holds the event is the only one, so what is
observed next belongs to its delivery. -/

/-- A worker that holds the event goes on. -/
theorem Told.move (h : v.Told id attempts d) (hv : v.Phase bus) {w : ℕ} {pc : Pc}
    (hpc : v.holders w = some pc) (pc' : Pc) {obs : List Observation} (hat : d'.At w pc')
    (hobs : d'.observations id = d.observations id ++ obs.filter Observation.isDelivery) :
    { v with
      holders := Function.update v.holders w (some pc')
      log := v.log ++ obs }.Told id attempts
      d' := by
  obtain ⟨row, -, hrow, hstatus, -, -, hheld, -⟩ := hv.of_holder hpc
  refine ⟨?_, fun hnone ↦ ?_, fun row' hrow' ↦ ?_, fun u pc'' hu ↦ ?_⟩
  · rw [hobs, ← List.append_assoc, ← h.log]
    exact List.filter_append ..
  · rw [show v.row = none from hnone] at hrow
    cases hrow
  · obtain rfl := Option.some_inj.1 (hrow.symm.trans hrow')
    rw [hstatus]
    exact ⟨(h.row row hrow).1, trivial⟩
  · obtain ⟨rfl, hsome⟩ := hheld.holders_update hu
    exact Option.some_inj.1 hsome ▸ hat

/-- A worker that holds the event goes on, and nothing is observed. -/
theorem Told.moveSilently (h : v.Told id attempts d) (hv : v.Phase bus) {w : ℕ} {pc : Pc}
    (hpc : v.holders w = some pc) (pc' : Pc) (hat : d.At w pc') :
    { v with holders := Function.update v.holders w (some pc') }.Told id attempts d := by
  have hobs : d.observations id = d.observations id ++ [].filter Observation.isDelivery :=
    (List.append_nil _).symm
  have hmove := h.move hv hpc pc' hat hobs
  rwa [List.append_nil] at hmove

/-- Nothing more is heard of the worker. -/
theorem Told.release (h : v.Told id attempts d) (holders : ℕ → Option Pc)
    (hsub : ∀ u pc, holders u = some pc → v.holders u = some pc) :
    { v with holders := holders }.Told id attempts d :=
  ⟨h.log, h.absent, h.row, fun u pc hu ↦ h.held u pc (hsub u pc hu)⟩

theorem holders_of_release {w u : ℕ} {pc : Pc} (hu : Function.update v.holders w none u = some pc) :
    v.holders u = some pc := by
  rw [Function.update_apply] at hu
  split at hu
  · cases hu
  · exact hu

/-- Nothing is observed of a delivery. -/
theorem Told.observe (h : v.Told id attempts d) {o : Observation} (ho : o.isDelivery = false) :
    { v with log := v.log ++ [o] }.Told id attempts d := by
  refine ⟨?_, h.absent, h.row, h.held⟩
  rw [deliveries_append, List.filter_singleton, ho, h.log]
  exact List.append_nil _

theorem Told.publish (h : v.Told id attempts d) (envelope : EventEnvelope) (now : Instant)
    (text : String) :
    { v with
      row := some (v.row.getD (.new id text now))
      log := v.log ++ [Observation.published envelope (.ok ⟨id, v.row.isSome⟩)] }.Told id attempts
      d := by
  obtain ⟨hlog, -, -, -⟩ := h.observe (o := .published envelope (.ok ⟨id, v.row.isSome⟩)) rfl
  refine ⟨hlog, (fun hnone ↦ by cases hnone), fun row hrow ↦ ?_, h.held⟩
  obtain rfl := Option.some_inj.1 hrow
  cases hr : v.row with
  | some row => exact h.row row hr
  | none =>
    obtain ⟨rfl, rfl⟩ := h.absent hr
    exact ⟨rfl, rfl⟩

/-- Nothing follows the attempts of an event that can be claimed. -/
theorem Told.eq_none (h : v.Told id attempts d) {row : OutboxRow} (hrow : v.row = some row)
    (hclaim : row.claimable = true) : d = .none := by
  have hfits := (h.row row hrow).2
  rw [OutboxRow.claimable, decide_eq_true_eq] at hclaim
  rcases hclaim with hstatus | hstatus
  · rw [hstatus] at hfits
    exact hfits
  · rw [hstatus] at hfits
    exact hfits

theorem Told.claim (h : v.Told id attempts d) {row : OutboxRow} (hrow : v.row = some row)
    (hclaim : row.claimable = true) (hfree : v.Free) (w : ℕ) (envelope : EventEnvelope)
    (now : Instant) :
    { v with
      row := some (row.claimed now)
      holders := Function.update v.holders w (some (.checking envelope))
      log := v.log ++ [Observation.claimed w id] }.Told id attempts (.claimed w) := by
  have hlog := h.log
  rw [h.eq_none hrow hclaim, Delivery.observations, List.append_nil] at hlog
  refine ⟨?_, (fun hnone ↦ by cases hnone), fun row' hrow' ↦ ?_, fun u pc hu ↦ ?_⟩
  · show (v.log ++ [Observation.claimed w id]).filter Observation.isDelivery = _
    rw [List.filter_append, ← deliveries, hlog]
    rfl
  · obtain rfl := Option.some_inj.1 hrow'
    exact ⟨(h.row row hrow).1, trivial⟩
  · obtain ⟨rfl, hpc⟩ := hfree.holders_update hu
    exact Option.some_inj.1 hpc ▸ rfl

theorem Told.markHandled (h : v.Told id attempts d) {w : ℕ} {now : Instant}
    (hpc : v.holders w = some (.acking id now)) :
    { v with
      row := v.row.map (OutboxRow.acked now)
      handled := true
      holders := Function.update v.holders w none }.Told id attempts d := by
  refine ⟨h.log, fun hnone ↦ h.absent (Option.map_eq_none_iff.1 hnone), fun row' hrow' ↦ ?_,
    fun u pc hu ↦ h.held u pc (holders_of_release hu)⟩
  obtain ⟨row, hrow, rfl⟩ := Option.map_eq_some_iff.1 hrow'
  exact ⟨(h.row row hrow).1, w, h.held w _ hpc⟩

/-- The record of a failure ends the delivery, and makes one more attempt of it.  The message that
is written is that of the attempt. -/
theorem Told.updateFailed (h : v.Told id attempts d) (hv : v.Phase bus) {w : ℕ} {error : String}
    {now : Instant} {read : Int64} (hpc : v.holders w = some (.writing id error now read)) :
    ∃ a, { v with
      row := v.row.map (OutboxRow.failed (bus.failureStatus (read + 1)) (read + 1) error now)
      holders := Function.update v.holders w none
      log := v.log ++ [Observation.recorded w id] }.Told id (attempts ++ [a]) .none := by
  obtain ⟨row, -, hrow, -, -, -, hheld, -⟩ := hv.of_holder hpc
  obtain ⟨a, rfl, rfl, rfl⟩ := h.held w _ hpc
  refine ⟨a, ?_, fun hnone ↦ ?_, fun row' hrow' ↦ ?_, fun u pc hu ↦ ?_⟩
  · show (v.log ++ [Observation.recorded a.worker id]).filter Observation.isDelivery = _
    rw [List.filter_append, ← deliveries, h.log, List.flatMap_append, List.append_assoc,
      List.append_assoc]
    rfl
  · rw [show v.row = none from Option.map_eq_none_iff.1 hnone] at hrow
    cases hrow
  · obtain ⟨row, -, rfl⟩ := Option.map_eq_some_iff.1 hrow'
    refine ⟨by rw [List.getLast?_concat]; rfl, ?_⟩
    show Delivery.Fits .none (bus.failureStatus (read + 1))
    rcases bus.failureStatus_eq (read + 1) with hs | hs
    · rw [hs]
      rfl
    · rw [hs]
      rfl
  · cases (hheld.holders_update hu).2

/-- **Every step about the event tells of it.**  A claim begins a delivery, the steps of the holder
go on with it, and the record of a failure turns it into one more attempt. -/
theorem Step.told (hs : v.Step bus id v') (hv : v.Phase bus) (h : v.Told id attempts d) :
    ∃ attempts' d', v'.Told id attempts' d' := by
  cases hs with
  | publish envelope now text => exact ⟨attempts, d, h.publish envelope now text⟩
  | reject envelope error => exact ⟨attempts, d, h.observe rfl⟩
  | claim w row envelope now _ hrow hclaim =>
    obtain ⟨-, -, -, hfree, -, -⟩ := hv.of_claimable hrow hclaim
    exact ⟨attempts, .claimed w, h.claim hrow hclaim hfree w envelope now⟩
  | handledBefore w envelope now hpc hdone =>
    obtain ⟨-, -, -, -, -, -, -, hnot, -⟩ := hv.of_holder hpc
    rw [hdone] at hnot
    cases hnot
  | notHandled w envelope hpc =>
    have hd : d = .claimed w := h.held w _ hpc
    exact ⟨attempts, d, h.moveSilently hv hpc (.querying envelope) hd⟩
  | invoke w envelope seen hpc =>
    obtain rfl : d = .claimed w := h.held w _ hpc
    exact ⟨attempts, .invoked w envelope seen, h.move hv hpc (.handling envelope seen) rfl rfl⟩
  | succeed w envelope seen now hpc =>
    obtain rfl : d = .invoked w envelope seen := h.held w _ hpc
    exact ⟨attempts, .succeeded w envelope seen,
      h.move hv hpc (.acking id now) ⟨envelope, seen, rfl⟩ rfl⟩
  | fail w envelope seen error now hpc =>
    obtain rfl : d = .invoked w envelope seen := h.held w _ hpc
    exact ⟨attempts, .failed ⟨w, envelope, seen, error⟩,
      h.move hv hpc (.reading id ("handler nack: " ++ error) now) ⟨_, rfl, rfl, rfl⟩ rfl⟩
  | markHandled w now hpc => exact ⟨attempts, d, h.markHandled hpc⟩
  | readAttempts w error now row hpc hrow =>
    have hd : ∃ a, d = .failed a ∧ a.worker = w ∧ a.message = error := h.held w _ hpc
    exact ⟨attempts, d, h.moveSilently hv hpc (.writing id error now row.attempts) hd⟩
  | rowGone w pc hpc hnone =>
    exact ⟨attempts, d, h.release _ fun _ _ ↦ holders_of_release⟩
  | updateFailed w error now read hpc =>
    obtain ⟨a, ha⟩ := h.updateFailed hv hpc
    exact ⟨attempts ++ [a], .none, ha⟩

/-- A step that takes a worker away changes nothing that has been observed. -/
theorem Loss.told (hs : v.Loss v') (h : v.Told id attempts d) : v'.Told id attempts d := by
  cases hs with
  | claimLost row now hrow hclaim =>
    refine ⟨h.log, (fun hnone ↦ by cases hnone), fun row' hrow' ↦ ?_, h.held⟩
    obtain rfl := Option.some_inj.1 hrow'
    exact ⟨(h.row row hrow).1, trivial⟩
  | release w pc hpc => exact h.release _ fun _ _ ↦ holders_of_release
  | releaseAll w pc hpc => exact h.release _ fun _ _ hnone ↦ by cases hnone

theorem Sees.told {lost : Prop} (hs : v.Sees bus id lost v') (hv : v.Phase bus)
    (h : v.Told id attempts d) : ∃ attempts' d', v'.Told id attempts' d' := by
  cases hs with
  | same _ => exact ⟨attempts, d, h⟩
  | step hs _ => exact hs.told hv h
  | loss hs _ => exact ⟨attempts, d, hs.told h⟩

/-- There are as many attempts as records. -/
theorem Told.length_eq (h : v.Told id attempts d) :
    (Tally.of v.log).recorded = attempts.length := by
  have hall : v.log.countP Observation.isRecorded = v.deliveries.countP Observation.isRecorded := by
    rw [deliveries, List.countP_filter]
    refine List.countP_congr fun o _ ↦ ?_
    cases o <;> simp [Observation.isRecorded, Observation.isDelivery]
  have hone : ∀ a : Attempt, (a.observations id).countP Observation.isRecorded = 1 := fun _ ↦ rfl
  have hnone : (d.observations id).countP Observation.isRecorded = 0 := by cases d <;> rfl
  show v.log.countP Observation.isRecorded = _
  rw [hall, h.log, List.countP_append, hnone, List.countP_flatMap]
  simp [Function.comp_def, hone]

end EventView

/-- The deliveries of an event, as they were observed. -/
def World.deliveries (s : World) (id : Uuid) : List Observation :=
  s.history.filter fun o ↦ o.isDelivery ∧ o.eventId = id

theorem World.told_of_reachable {bus : SqliteBus} {s : World}
    (hs : Reachable (World.step bus) .initial s) (id : Uuid) :
    ∃ attempts d, (s.view id).Told id attempts d := by
  have hI : s.Sound bus ∧ ∃ attempts d, (s.view id).Told id attempts d := by
    refine hs.invariant
      (I := fun s : World ↦ s.Sound bus ∧ ∃ attempts d, (s.view id).Told id attempts d)
      ⟨World.sound_initial, [], Delivery.none, EventView.told_initial id⟩ fun s _ t h hstep ↦ ?_
    obtain ⟨hsound, attempts, d, htold⟩ := h
    exact ⟨World.sound_step hsound hstep,
      (World.sees_of_step hsound hstep id).told (hsound id).phase htold⟩
  exact hI.2

/-- **The row of an event sums up its deliveries.**  They were one after another, whichever workers
made them: some that were refused, and at most one more.  The row tells how many were refused and
what the last of them said, and its status what follows them. -/
theorem row_sums_up_deliveries (bus : SqliteBus) (s : World)
    (hs : Reachable (World.step bus) .initial s) (id : Uuid) :
    ∃ (attempts : List Attempt) (d : Delivery),
      s.deliveries id = attempts.flatMap (Attempt.observations id) ++ d.observations id ∧
      s.db.lastError id = attempts.getLast?.map Attempt.message ∧
      (s.db.outbox.lookup id = none → attempts = [] ∧ d = .none) ∧
      ∀ row, s.db.outbox.lookup id = some row →
        row.attempts.toInt = attempts.length ∧ d.Fits row.status ∧
          (row.claimable = true → (row.status = .pending ↔ attempts = [])) := by
  obtain ⟨attempts, d, htold⟩ := World.told_of_reachable hs id
  have hphase := (World.sound_of_reachable hs id).phase
  refine ⟨attempts, d, ?_, ?_, htold.absent, fun row hrow ↦ ?_⟩
  · rw [← htold.log, EventView.deliveries, World.view, List.filter_filter, World.deliveries]
    simp
  · rw [Database.lastError]
    cases hrow : s.db.outbox.lookup id with
    | some row => exact (htold.row row hrow).1
    | none => rw [(htold.absent hrow).1]; rfl
  · obtain ⟨n, hn, hrecorded, -, hstatus⟩ := hphase.account hrow
    refine ⟨by rw [hn, htold.length_eq.symm.trans hrecorded], (htold.row row hrow).2,
      fun hclaim ↦ ?_⟩
    rw [htold.length_eq] at hrecorded
    rw [← List.length_eq_zero_iff, hrecorded]
    rw [OutboxRow.claimable, decide_eq_true_eq] at hclaim
    rcases hclaim with hpending | hretrying
    · rw [hpending] at hstatus ⊢
      exact iff_of_true rfl hstatus
    · rw [hretrying] at hstatus ⊢
      exact iff_of_false (by decide) (by omega)

/-- The event is refused, and another worker delivers it again. -/
def takenOverRun : List Action :=
  handledRun (.error "no") ++ [.work 0 .readAttempts, .work 0 .updateFailed, .subscribe 1,
    .work 1 (.poll (20 * 1000 * 1000)), .work 1 (.claim 0), .work 1 (.alreadyHandled 4),
    .work 1 (.lastSeen 0), .work 1 (.returned (.ok ()) 5), .work 1 .markHandled]

/-- One attempt and a success, by two workers. -/
theorem takenOverRun_summed_up : ∃ (s : World) (attempts : List Attempt) (d : Delivery),
    run (World.step (oneEventBus 3)) .initial takenOverRun = some s ∧
      s.deliveries ⟨1⟩ = attempts.flatMap (Attempt.observations ⟨1⟩) ++ d.observations ⟨1⟩ ∧
      s.db.lastError ⟨1⟩ = attempts.getLast?.map Attempt.message ∧ attempts.length = 1 ∧
      ∃ w envelope seen, d = .succeeded w envelope seen := by
  have hrun : ((run (World.step (oneEventBus 3)) .initial takenOverRun).map fun s ↦
      (s.db.outbox.lookup ⟨1⟩).map fun row ↦ (row.status, row.attempts)) =
      some (some (.acked, 1)) := by
    decide +kernel
  obtain ⟨s, hs, hrow⟩ := Option.map_eq_some_iff.1 hrun
  obtain ⟨row, hrow, hcolumns⟩ := Option.map_eq_some_iff.1 hrow
  obtain ⟨hstatus, hattempts⟩ := Prod.mk.inj hcolumns
  obtain ⟨attempts, d, hlog, herror, -, hrows⟩ :=
    row_sums_up_deliveries (oneEventBus 3) s ⟨_, hs⟩ ⟨1⟩
  obtain ⟨hlength, hfits, -⟩ := hrows row hrow
  rw [hattempts] at hlength
  rw [hstatus] at hfits
  exact ⟨s, attempts, d, hs, hlog, herror, (Int.ofNat.inj hlength).symm, hfits⟩

end PhenoEvents
