import PhenoEvents.Bus.Delivery

/-!
# Clones with different budgets

`with_max_retries` makes a bus with another retry budget over the same database, and a subscription
keeps the budget of the clone it was taken from.  So the workers of one outbox need not agree on
when to give up: `stepWith` is the system in which each has a budget of its own.

Whoever writes down a failure decides.  The event is given up at the first failure that is written
down by a worker whose budget it exhausts, and never comes back (`budgets_decide`).

That an event has one holder, and that `attempts` counts the failures written down, does not depend
on the budgets.  This is not proved again: a bus that is given up too early looks like a bus of the
greatest budget whose event is left waiting (`EventView.lenient`), and that one is known to keep its
phases.

## What is here

* `SqliteBus.withMaxRetries`, and `World.stepWith`, which takes a budget for each worker.  With one
  budget for all it is the system of one bus (`stepWith_const`).
* `EventView.lenient` and `Step.lenient`: a step under any budget is a step of the most patient bus,
  when the rows that were given up are read as rows that wait.
* `recorders`: the workers that have written down the failures of an event, the first one first.
* `Decided`, the invariant: the event is given up exactly if the last of these failures exhausts the
  budget of the worker that wrote it down, and none before it does.
* `budgets_decide`, for every reachable state of the system with any budgets.

The budgets are `i64`s, and `attempts` is compared with them as it is; a budget of zero or less is
exhausted by the first failure.
-/

set_option autoImplicit false

namespace PhenoEvents

open Transition

/-! ## The most patient bus

The budget is read in one place only, where `mark_failed` chooses between `retrying` and `dlq`.  If
a row that was given up is read as one that waits, the choice does not show. -/

/-- `SqliteBus::with_max_retries`. -/
def SqliteBus.withMaxRetries (bus : SqliteBus) (maxRetries : Int64) : SqliteBus :=
  { bus with maxRetries := maxRetries }

/-- The clone that takes the step. -/
def SqliteBus.clone (bus : SqliteBus) (budgets : ℕ → Int64) : Action → SqliteBus
  | .work w _ => bus.withMaxRetries (budgets w)
  | _ => bus

/-- One step of the system in which every worker has its own budget.  The tables are shared, and so
is the encoding; all that a clone has of its own is the number. -/
def World.stepWith (bus : SqliteBus) (budgets : ℕ → Int64) (s : World) (action : Action) :
    Option World :=
  s.step (bus.clone budgets action) action

/-- If all have the budget of the bus, this is the system of one bus. -/
theorem World.stepWith_const (bus : SqliteBus) :
    World.stepWith bus (fun _ ↦ bus.maxRetries) = World.step bus := by
  funext s action
  cases action <;> rfl

theorem SqliteBus.serde_clone (bus : SqliteBus) (budgets : ℕ → Int64) (action : Action) :
    (bus.clone budgets action).serde = bus.serde := by
  cases action <;> rfl

/-- The greatest budget there is.  A worker with this budget gives up only when any other would.
That is not never: `attempts` is an `i64`, and the greatest of these is a budget as well. -/
def SqliteBus.patient (bus : SqliteBus) : SqliteBus := bus.withMaxRetries Int64.maxValue

/-- Nobody gives up later. -/
theorem SqliteBus.failureStatus_patient {bus bus' : SqliteBus} {attempts : Int64}
    (h : bus'.failureStatus attempts = .retrying) :
    bus.patient.failureStatus attempts = .retrying := by
  have hlt : ¬attempts ≥ bus'.maxRetries := by
    intro hge
    rw [failureStatus, if_pos hge] at h
    cases h
  rw [failureStatus, if_neg]
  intro hge
  refine hlt (Int64.le_iff_toInt_le.2 ?_)
  have hmax : (Int64.maxValue).toInt = 2 ^ 63 - 1 := rfl
  have hle := Int64.le_iff_toInt_le.1 hge
  have hlt' := bus'.maxRetries.toInt_lt
  change (Int64.maxValue).toInt ≤ attempts.toInt at hle
  omega

/-- The row, as the most patient bus would have left it.  Only a row that was given up is looked at,
and only its status changes. -/
def OutboxRow.lenient (bus : SqliteBus) (r : OutboxRow) : OutboxRow :=
  if r.status = .dlq then { r with status := bus.patient.failureStatus r.attempts } else r

theorem OutboxRow.lenient_of_ne {bus : SqliteBus} {r : OutboxRow} (h : r.status ≠ .dlq) :
    r.lenient bus = r :=
  if_neg h

theorem OutboxRow.attempts_lenient (bus : SqliteBus) (r : OutboxRow) :
    (r.lenient bus).attempts = r.attempts := by
  rw [lenient]
  split <;> rfl

/-- A row that was given up is waiting, or has been given up by everybody. -/
theorem OutboxRow.status_lenient_of_dlq (bus : SqliteBus) {r : OutboxRow} (h : r.status = .dlq) :
    (r.lenient bus).status = .dlq ∨ (r.lenient bus).status = .retrying := by
  rw [lenient, if_pos h]
  exact bus.patient.failureStatus_eq r.attempts

theorem OutboxRow.lenient_acked (bus : SqliteBus) (now : Instant) (r : OutboxRow) :
    (r.acked now).lenient bus = (r.lenient bus).acked now := by
  rw [lenient_of_ne (by simp [acked]), lenient]
  split <;> rfl

theorem OutboxRow.lenient_failed (bus bus' : SqliteBus) (attempts : Int64) (error : String)
    (now : Instant) (r : OutboxRow) :
    (r.failed (bus'.failureStatus attempts) attempts error now).lenient bus =
      (r.lenient bus).failed (bus.patient.failureStatus attempts) attempts error now := by
  have hfields (st : Status) :
      (r.lenient bus).failed st attempts error now = r.failed st attempts error now := by
    rw [lenient]
    split <;> rfl
  rw [hfields]
  rcases bus'.failureStatus_eq attempts with h | h
  · rw [h]
    exact if_pos rfl
  · rw [h, lenient_of_ne (by simp [failed]), SqliteBus.failureStatus_patient h]

namespace EventView

variable {bus bus' : SqliteBus} {id : Uuid} {v v' : EventView}

/-- The event, as the most patient bus would have left it. -/
def lenient (bus : SqliteBus) (v : EventView) : EventView :=
  { v with row := v.row.map (OutboxRow.lenient bus) }

theorem lenient_row {row : OutboxRow} (hrow : v.row = some row) :
    (v.lenient bus).row = some (row.lenient bus) := by
  rw [lenient, hrow]
  rfl

theorem lenient_row_of_ne {row : OutboxRow} (hrow : v.row = some row) (h : row.status ≠ .dlq) :
    (v.lenient bus).row = some row := by
  rw [lenient_row hrow, OutboxRow.lenient_of_ne h]

theorem status_ne_dlq_of_claimable {row : OutboxRow} (h : row.claimable = true) :
    row.status ≠ .dlq := by
  intro hdlq
  simp [OutboxRow.claimable, hdlq] at h

/-- **A step under any budget is a step of the most patient bus.**  Where an event is given up
early, that bus has a row that waits, and nobody claims it. -/
theorem Step.lenient (hserde : bus'.serde = bus.serde) (h : v.Step bus' id v') :
    (v.lenient bus).Step bus.patient id (v'.lenient bus) := by
  cases h with
  | publish envelope now text hid hvalid htext =>
    have hpublish : (v.lenient bus).Step bus.patient id _ :=
      .publish envelope now text hid hvalid (hserde ▸ htext)
    have hview : EventView.lenient bus { v with
        row := some (v.row.getD (.new id text now))
        log := v.log ++ [.published envelope (.ok ⟨id, v.row.isSome⟩)] } =
        { v.lenient bus with
          row := some ((v.lenient bus).row.getD (.new id text now))
          log := (v.lenient bus).log ++
            [.published envelope (.ok ⟨id, (v.lenient bus).row.isSome⟩)] } := by
      obtain ⟨row, handled, holders, log⟩ := v
      cases row <;> rfl
    rw [hview]
    exact hpublish
  | reject envelope error hid => exact .reject envelope error hid
  | claim w row envelope now hid hrow hclaim =>
    -- a row that can be claimed was not given up, so it reads the same
    exact .claim w row envelope now hid
      (lenient_row_of_ne hrow (status_ne_dlq_of_claimable hclaim)) hclaim
  | handledBefore w envelope now hpc hdone => exact .handledBefore w envelope now hpc hdone
  | notHandled w envelope hpc => exact .notHandled w envelope hpc
  | invoke w envelope seen hpc => exact .invoke w envelope seen hpc
  | succeed w envelope seen now hpc => exact .succeed w envelope seen now hpc
  | fail w envelope seen error now hpc => exact .fail w envelope seen error now hpc
  | markHandled w now hpc =>
    have hack : (v.lenient bus).Step bus.patient id _ := .markHandled w now hpc
    have hrow : (v.row.map (OutboxRow.acked now)).map (OutboxRow.lenient bus) =
        (v.lenient bus).row.map (OutboxRow.acked now) := by
      rw [EventView.lenient, Option.map_map, Option.map_map]
      exact congrArg (Option.map · v.row) (funext (OutboxRow.lenient_acked bus now))
    rw [← hrow] at hack
    exact hack
  | readAttempts w error now row hpc hrow =>
    rw [← row.attempts_lenient bus]
    exact .readAttempts w error now (row.lenient bus) hpc (lenient_row hrow)
  | rowGone w pc hpc hrow => exact .rowGone w pc hpc (by rw [EventView.lenient, hrow]; rfl)
  | updateFailed w error now attempts hpc =>
    -- the one step in which the budgets differ: `lenient` reads an early `dlq` as `retrying`
    have hfailed : (v.lenient bus).Step bus.patient id _ := .updateFailed w error now attempts hpc
    have hrow : (v.row.map
        (OutboxRow.failed (bus'.failureStatus (attempts + 1)) (attempts + 1) error
          now)).map (OutboxRow.lenient bus) =
        (v.lenient bus).row.map (OutboxRow.failed (bus.patient.failureStatus (attempts + 1))
          (attempts + 1) error now) := by
      rw [EventView.lenient, Option.map_map, Option.map_map]
      exact congrArg (Option.map · v.row)
        (funext (OutboxRow.lenient_failed bus bus' (attempts + 1) error now))
    rw [← hrow] at hfailed
    exact hfailed

theorem Loss.lenient (h : v.Loss v') : (v.lenient bus).Loss (v'.lenient bus) := by
  cases h with
  | claimLost row now hrow hclaim =>
    exact .claimLost row now (lenient_row_of_ne hrow (status_ne_dlq_of_claimable hclaim)) hclaim
  | release w pc hpc => exact .release w pc hpc
  | releaseAll w pc hpc => exact .releaseAll w pc hpc

/-! ## Who has written down a failure

`attempts` is the length of a list of workers, and the budget of each of them is known.  So whether
the event has been given up is a property of that list. -/

end EventView

/-- Who writes down a failure. -/
def Observation.recorder : Observation → Option ℕ
  | .recorded w _ => some w
  | _ => none

namespace EventView

/-- Who has written down the failures of the event, the first one first.  A worker that has failed
the event several times is there several times. -/
def recorders (v : EventView) : List ℕ := v.log.filterMap Observation.recorder

/-- None of the failures exhausts the budget of the worker that wrote it down.  The failure at
position `k` is number `k + 1`, and that is what `attempts` is set to by it. -/
def GoesOn (budgets : ℕ → Int64) (ws : List ℕ) : Prop :=
  ∀ k w, ws[k]? = some w → ((k + 1 : ℕ) : ℤ) < (budgets w).toInt

/-- The event is given up exactly if the last failure exhausts the budget of the worker that wrote
it down, and none before it does. -/
inductive Decided (budgets : ℕ → Int64) (v : EventView) : Prop
  | absent (hrow : v.row = none) (hnone : v.recorders = [])
  | goesOn (row : OutboxRow) (hrow : v.row = some row) (hstatus : row.status ≠ .dlq)
      (hws : GoesOn budgets v.recorders)
  | givenUp (row : OutboxRow) (hrow : v.row = some row) (hstatus : row.status = .dlq) (ws : List ℕ)
      (w : ℕ) (hlast : v.recorders = ws ++ [w]) (hws : GoesOn budgets ws)
      (hspent : (budgets w).toInt ≤ ws.length + 1)

theorem GoesOn.concat {budgets : ℕ → Int64} {ws : List ℕ} {w : ℕ} (h : GoesOn budgets ws)
    (hlt : (ws.length + 1 : ℤ) < (budgets w).toInt) : GoesOn budgets (ws ++ [w]) := by
  intro k u hk
  rw [List.getElem?_append] at hk
  split at hk
  · exact h k u hk
  · obtain ⟨hlt', hget⟩ := List.getElem?_eq_some_iff.1 hk
    rw [List.length_singleton] at hlt'
    obtain rfl : k = ws.length := by omega
    simp only [Nat.sub_self, List.getElem_cons_zero] at hget
    subst hget
    exact hlt

variable {bus bus' : SqliteBus} {id : Uuid} {v v' : EventView} {budgets : ℕ → Int64}

theorem Decided.recorders_eq_nil (h : v.Decided budgets) (hrow : v.row = none) :
    v.recorders = [] := by
  cases h with
  | absent _ hnone => exact hnone
  | goesOn row hsome | givenUp row hsome => rw [hrow] at hsome; cases hsome

theorem Decided.goesOn_of_ne (h : v.Decided budgets) {row : OutboxRow} (hrow : v.row = some row)
    (hstatus : row.status ≠ .dlq) : GoesOn budgets v.recorders := by
  cases h with
  | absent hnone => rw [hrow] at hnone; cases hnone
  | goesOn _ _ _ hws => exact hws
  | givenUp row' hrow' hdlq =>
    obtain rfl := Option.some_inj.1 (hrow.symm.trans hrow')
    exact absurd hdlq hstatus

/-- Only the row and the failures matter. -/
theorem Decided.of_eq (h : v.Decided budgets) (hrow : v'.row = v.row)
    (hws : v'.recorders = v.recorders) : v'.Decided budgets := by
  cases h with
  | absent hr hn => exact .absent (hrow.trans hr) (hws.trans hn)
  | goesOn row hr hst hgo => exact .goesOn row (hrow.trans hr) hst (hws ▸ hgo)
  | givenUp row hr hst ws w hl hgo hspent =>
    exact .givenUp row (hrow.trans hr) hst ws w (hws.trans hl) hgo hspent

theorem recorders_append {obs : List Observation} (h : ∀ o ∈ obs, o.recorder = none) :
    (v.log ++ obs).filterMap Observation.recorder = v.recorders := by
  rw [List.filterMap_append, List.filterMap_eq_nil_iff.2 h, List.append_nil]
  rfl

/-- An event somebody holds has not been given up. -/
theorem row_of_holder (h : (v.lenient bus).Phase bus.patient) {w : ℕ} {pc : Pc}
    (hpc : v.holders w = some pc) : ∃ row, v.row = some row ∧ row.status = .inProgress := by
  obtain ⟨row', -, hrow', hstatus, -⟩ := h.of_holder hpc
  obtain ⟨row, hrow, rfl⟩ := Option.map_eq_some_iff.1 hrow'
  refine ⟨row, hrow, ?_⟩
  by_cases hdlq : row.status = .dlq
  · rcases OutboxRow.status_lenient_of_dlq bus hdlq with hst | hst
    · rw [hst] at hstatus
      cases hstatus
    · rw [hst] at hstatus
      cases hstatus
  · rwa [OutboxRow.lenient_of_ne hdlq] at hstatus

theorem length_recorders : v.recorders.length = (Tally.of v.log).recorded := by
  rw [recorders, List.length_filterMap_eq_countP]
  refine List.countP_congr fun o _ ↦ ?_
  cases o <;> simp [Observation.recorder, Observation.isRecorded]

/-- The worker that writes down a failure has read how many there were.  It still holds the event,
so the number has not changed since. -/
theorem attempts_of_writing (h : (v.lenient bus).Phase bus.patient) {w : ℕ} {error : String}
    {now : Instant} {attempts : Int64} (hpc : v.holders w = some (.writing id error now attempts)) :
    (attempts + 1).toInt = (v.recorders.length + 1 : ℕ) := by
  obtain ⟨row, n, hrow, -, hn, hlt, -, -, hread, htally⟩ := h.of_holder hpc
  obtain rfl := hread id error now attempts rfl
  have hlength : v.recorders.length = n := by
    rw [length_recorders]
    exact congrArg Tally.recorded htally
  rw [hlength]
  exact (bus.patient.failureStatus_cases hn hlt).1

/-- **The worker that writes down a failure decides by its own budget.**  It compares the number it
has read, plus one, and nobody has written down a failure since it has read it. -/
theorem Decided.updateFailed (h : v.Decided budgets) (hphase : (v.lenient bus).Phase bus.patient)
    {w : ℕ} {error : String} {now : Instant} {attempts : Int64}
    (hpc : v.holders w = some (.writing id error now attempts)) :
    { v with
      row := v.row.map (OutboxRow.failed
        ((bus.withMaxRetries (budgets w)).failureStatus (attempts + 1)) (attempts + 1) error now)
      holders := Function.update v.holders w none
      log := v.log ++ [Observation.recorded w id] }.Decided budgets := by
  obtain ⟨row, hrow, hstatus⟩ := row_of_holder hphase hpc
  have hnext := attempts_of_writing hphase hpc
  have hgo : GoesOn budgets v.recorders := h.goesOn_of_ne hrow (by rw [hstatus]; decide)
  have hws : EventView.recorders { v with
      row := v.row.map (OutboxRow.failed
        ((bus.withMaxRetries (budgets w)).failureStatus (attempts + 1)) (attempts + 1) error now)
      holders := Function.update v.holders w none
      log := v.log ++ [Observation.recorded w id] } = v.recorders ++ [w] := List.filterMap_append ..
  by_cases hspent : attempts + 1 ≥ budgets w
  · have hle := Int64.le_iff_toInt_le.1 hspent
    refine .givenUp _ (by rw [hrow]; rfl) (if_pos hspent) v.recorders w hws hgo ?_
    omega
  · have hlt := mt Int64.le_iff_toInt_le.2 hspent
    refine .goesOn _ (by rw [hrow]; rfl) ?_ ?_
    · show (if attempts + 1 ≥ budgets w then Status.dlq else Status.retrying) ≠ .dlq
      rw [if_neg hspent]
      decide
    · rw [hws]
      exact hgo.concat (by omega)

theorem Step.decided (hs : v.Step bus' id v') (h : v.Decided budgets)
    (hphase : (v.lenient bus).Phase bus.patient)
    (hbus : ∀ w, v'.recorders = v.recorders ++ [w] → bus' = bus.withMaxRetries (budgets w)) :
    v'.Decided budgets := by
  have hsame : ∀ o : Observation, o.recorder = none →
      (v.log ++ [o]).filterMap Observation.recorder = v.recorders :=
    fun o ho ↦ recorders_append fun o' ho' ↦ List.mem_singleton.1 ho' ▸ ho
  cases hs with
  | publish envelope now text hid hvalid htext =>
    cases hrow : v.row with
    | none =>
      refine .goesOn (.new id text now) rfl (by simp [OutboxRow.new]) ?_
      show GoesOn budgets ((v.log ++ [_]).filterMap Observation.recorder)
      rw [hsame _ rfl, h.recorders_eq_nil hrow]
      exact fun k w hk ↦ by cases hk
    | some row => exact h.of_eq (by rw [hrow]; rfl) (hsame _ rfl)
  | claim w row envelope now hid hrow hclaim =>
    refine .goesOn (row.claimed now) rfl (by simp [OutboxRow.claimed]) ?_
    have hgo := h.goesOn_of_ne hrow (status_ne_dlq_of_claimable hclaim)
    rwa [← hsame (.claimed w id) rfl] at hgo
  | markHandled w now hpc =>
    obtain ⟨row, hrow, hstatus⟩ := row_of_holder hphase hpc
    refine .goesOn (row.acked now) (by rw [hrow]; rfl) (by simp [OutboxRow.acked]) ?_
    exact h.goesOn_of_ne hrow (by rw [hstatus]; decide)
  | updateFailed w error now attempts hpc =>
    obtain rfl := hbus w (List.filterMap_append ..)
    exact h.updateFailed hphase hpc
  | reject | invoke | succeed | fail => exact h.of_eq rfl (hsame _ rfl)
  | handledBefore | notHandled | readAttempts | rowGone => exact h.of_eq rfl rfl

/-- Nobody holds an event that is acked or given up. -/
theorem Settled.not_held {row : OutboxRow} (hv : v.Settled row)
    (h : (v.lenient bus).Phase bus.patient) (w : ℕ) (pc : Pc) : v.holders w ≠ some pc := by
  intro hpc
  obtain ⟨row', hrow', hstatus⟩ := row_of_holder h hpc
  exact hv.not_inProgress hrow' hstatus

theorem Loss.decided (hs : v.Loss v') (h : v.Decided budgets) : v'.Decided budgets := by
  cases hs with
  | claimLost row now hrow hclaim =>
    exact .goesOn (row.claimed now) rfl (by simp [OutboxRow.claimed])
      (h.goesOn_of_ne hrow (status_ne_dlq_of_claimable hclaim))
  | release | releaseAll => exact h.of_eq rfl rfl

end EventView

/-! ## The system

A clone works with the budget of its own worker, and everything else it has in common with the rest.
So a step of the system is one of some bus with the same encoding, which is what the lemmas about a
single event are stated for. -/

/-- A worker writes down failures under its own name. -/
theorem WorkerMove.recorder_eq {bus : SqliteBus} {w u : ℕ} {db db' : Database} {pc pc' : Pc}
    {action : WorkerAction} {obs : List Observation} (h : WorkerMove bus w db pc action db' pc' obs)
    {o : Observation} (ho : o ∈ obs) (hu : o.recorder = some u) : u = w := by
  cases h with
  | updateFailed eventId error now attempts =>
    obtain rfl := List.mem_singleton.1 ho
    exact (Option.some_inj.1 hu).symm
  | claim | invoke | succeed | fail =>
    obtain rfl := List.mem_singleton.1 ho
    cases hu
  | _ => cases ho

namespace World

open EventView

variable {bus : SqliteBus} {budgets : ℕ → Int64} {s t : World} {id : Uuid} {action : Action}

theorem recorders_view {obs : List Observation} (h : t.history = s.history ++ obs) :
    (t.view id).recorders =
      (s.view id).recorders ++
        (obs.filter fun o ↦ o.eventId = id).filterMap Observation.recorder := by
  rw [recorders, recorders, view, view, h, List.filter_append, List.filterMap_append]

/-- Who writes down a failure makes the step. -/
theorem work_of_recorders {w : ℕ} (hstep : step bus s action = some t)
    (h : (t.view id).recorders = (s.view id).recorders ++ [w]) : ∃ a, action = .work w a := by
  have hnew : ∀ obs, t.history = s.history ++ obs → ∃ o ∈ obs, o.recorder = some w := by
    intro obs hobs
    rw [recorders_view hobs, List.append_cancel_left_eq] at h
    have hmem : w ∈ (obs.filter fun o ↦ o.eventId = id).filterMap Observation.recorder := by
      rw [h]
      exact List.mem_singleton_self w
    obtain ⟨o, ho, hrec⟩ := List.mem_filterMap.1 hmem
    exact ⟨o, (List.mem_filter.1 ho).1, hrec⟩
  have hno : ∀ {o o' : Observation}, o ∈ [o'] → o'.recorder = none → o.recorder ≠ some w := by
    rintro o o' ho hnone hsome
    obtain rfl := List.mem_singleton.1 ho
    rw [hnone] at hsome
    cases hsome
  cases WorldMove.of_step hstep with
  | accepted | rejected =>
    obtain ⟨o, ho, hrec⟩ := hnew _ rfl
    exact absurd hrec (hno ho rfl)
  | subscribe | abort | restart =>
    obtain ⟨o, ho, -⟩ := hnew [] (List.append_nil _).symm
    cases ho
  | work u pc pc' action db' obs hpc hmove =>
    obtain ⟨o, ho, hrec⟩ := hnew obs rfl
    obtain rfl := hmove.recorder_eq ho hrec
    exact ⟨action, rfl⟩

/-- The invariant: the event is in a phase of the most patient bus, and has been given up by whoever
had to.  The phase says who holds the event and what `attempts` is, and nothing about budgets. -/
structure SoundWith (bus : SqliteBus) (budgets : ℕ → Int64) (id : Uuid) (v : EventView) : Prop where
  encoded : v.Encoded bus id
  phase : (v.lenient bus).Phase bus.patient
  decided : v.Decided budgets

theorem soundWith_initial (bus : SqliteBus) (budgets : ℕ → Int64) (id : Uuid) :
    SoundWith bus budgets id (initial.view id) where
  encoded _ hrow := by cases hrow
  phase := phase_initial
  decided := .absent rfl rfl

theorem encoded_clone_iff {v : EventView} :
    v.Encoded (bus.clone budgets action) id ↔ v.Encoded bus id := by
  rw [Encoded, Encoded, SqliteBus.serde_clone]

theorem soundWith_step (hs : ∀ id, SoundWith bus budgets id (s.view id))
    (hstep : s.stepWith bus budgets action = some t) (id : Uuid) :
    SoundWith bus budgets id (t.view id) := by
  have hsees := (WorldMove.of_step hstep).sees (fun k ↦ encoded_clone_iff.2 (hs k).encoded) id
  obtain ⟨hencoded, hphase, hdecided⟩ := hs id
  have hbus : ∀ w, (t.view id).recorders = (s.view id).recorders ++ [w] →
      bus.clone budgets action = bus.withMaxRetries (budgets w) := by
    intro w hw
    obtain ⟨a, rfl⟩ := work_of_recorders hstep hw
    rfl
  generalize t.view id = v' at hsees hbus ⊢
  cases hsees with
  | same => exact ⟨hencoded, hphase, hdecided⟩
  | step h =>
    exact ⟨encoded_clone_iff.1 (h.encoded (encoded_clone_iff.2 hencoded)),
      (h.lenient (bus.serde_clone budgets action)).phase hphase, h.decided hdecided hphase hbus⟩
  | loss h => exact ⟨h.encoded hencoded, (h.lenient.stranded hphase).1, h.decided hdecided⟩

theorem soundWith_of_reachable (hs : Reachable (stepWith bus budgets) initial s) (id : Uuid) :
    SoundWith bus budgets id (s.view id) :=
  hs.invariant (I := fun s ↦ ∀ id, SoundWith bus budgets id (s.view id))
    (soundWith_initial bus budgets) (fun _ _ _ hs hstep ↦ soundWith_step hs hstep) id

theorem settled_stepWith {row : OutboxRow} (hs : ∀ id, SoundWith bus budgets id (s.view id))
    (hv : (s.view id).Settled row) (hstep : s.stepWith bus budgets action = some t) :
    (t.view id).Settled row := by
  have hsees := (WorldMove.of_step hstep).sees (fun k ↦ encoded_clone_iff.2 (hs k).encoded) id
  refine ⟨?_, hv.2⟩
  generalize t.view id = v' at hsees ⊢
  cases hsees with
  | same => exact hv.1
  | step h => exact h.settled hv (hv.not_held (hs id).phase)
  | loss h => exact absurd hv (h.not_settled (hv.not_held (hs id).phase))

/-- What is acked or given up stays so, whoever comes later and with however great a budget. -/
theorem settled_runWith {row : OutboxRow} {as : List Action}
    (hs : ∀ id, SoundWith bus budgets id (s.view id)) (hv : (s.view id).Settled row)
    (hrun : run (stepWith bus budgets) s as = some t) : (t.view id).Settled row :=
  (run_invariant (I := fun s ↦ (∀ id, SoundWith bus budgets id (s.view id)) ∧
    (s.view id).Settled row)
    (fun _ _ _ ⟨hs, hv⟩ hstep ↦ ⟨soundWith_step hs hstep, settled_stepWith hs hv hstep⟩) ⟨hs, hv⟩
    hrun).2

end World

namespace EventView

variable {bus : SqliteBus} {v : EventView} {budgets : ℕ → Int64} {row : OutboxRow}

/-- At most one call of the handler has succeeded, and that one is the last of an acked event. -/
theorem Phase.succeeded_le (h : v.Phase bus) : (Tally.of v.log).succeeded ≤ 1 := by
  cases h with
  | held r n w pc _ _ _ _ _ _ _ htally | stranded r n pc _ _ _ _ _ _ htally =>
    rw [htally]
    cases pc <;> simp [Pc.tally]
  | absent _ _ _ htally | waiting _ _ _ _ _ _ _ htally | acked _ _ _ _ _ _ _ _ htally
  | dlq _ _ _ _ _ _ _ _ htally =>
    simp [htally]

theorem Phase.succeeded_eq_zero (h : v.Phase bus) (hrow : v.row = some row)
    (hst : row.status = .dlq ∨ row.status = .retrying) : (Tally.of v.log).succeeded = 0 := by
  cases h with
  | absent _ _ _ htally | waiting _ _ _ _ _ _ _ htally | dlq _ _ _ _ _ _ _ _ htally => rw [htally]
  | held r n w pc hr hstatus | stranded r n pc hr hstatus | acked r n hr hstatus =>
    obtain rfl := Option.some_inj.1 (hrow.symm.trans hr)
    simp [hstatus] at hst

theorem attempts_eq_recorders (h : (v.lenient bus).Phase bus.patient) (hrow : v.row = some row) :
    row.attempts.toInt = v.recorders.length := by
  obtain ⟨n, hn, hrecorded, -⟩ := h.account (lenient_row hrow)
  rw [← row.attempts_lenient bus, hn, length_recorders]
  exact congrArg Nat.cast hrecorded.symm

theorem Decided.recorders_ne_nil (h : v.Decided budgets) (hrow : v.row = some row)
    (hdlq : row.status = .dlq) : v.recorders ≠ [] := by
  cases h with
  | absent hnone => rw [hrow] at hnone; cases hnone
  | goesOn row' hrow' hstatus =>
    obtain rfl := Option.some_inj.1 (hrow.symm.trans hrow')
    exact absurd hdlq hstatus
  | givenUp _ _ _ ws w hlast => simp [hlast]

/-- **Which failure gives an event up.**  It is the first one that exhausts the budget of whoever
has written it down, and it is the last one that is written down. -/
theorem Decided.spent_iff (h : v.Decided budgets) (hrow : v.row = some row) {k w : ℕ}
    (hk : v.recorders[k]? = some w) :
    (budgets w).toInt ≤ k + 1 ↔ row.status = .dlq ∧ k + 1 = v.recorders.length := by
  obtain ⟨hlt, hget⟩ := List.getElem?_eq_some_iff.1 hk
  cases h with
  | absent hnone => rw [hrow] at hnone; cases hnone
  | goesOn row' hrow' hstatus hws =>
    obtain rfl := Option.some_inj.1 (hrow.symm.trans hrow')
    have hgo := hws k w hk
    simp only [hstatus, false_and, iff_false]
    omega
  | givenUp row' hrow' hstatus ws u hlast hws hspent =>
    obtain rfl := Option.some_inj.1 (hrow.symm.trans hrow')
    rw [hlast, List.length_append, List.length_singleton] at hlt ⊢
    rw [hlast, List.getElem?_append] at hk
    split at hk
    · have hgo := hws k w hk
      simp only [hstatus, true_and]
      omega
    · obtain rfl : k = ws.length := by omega
      simp only [Nat.sub_self, List.getElem?_cons_zero, Option.some_inj] at hk
      subst hk
      simp [hstatus, hspent]

end EventView

/-- **Whoever writes down a failure decides, by the budget of its own clone.**  The `k`th failure
exhausts the budget of the worker that wrote it down exactly if the event was given up then; it
stays given up, and no handler has accepted it.  Whatever the budgets are, `attempts` counts the
failures written down, one worker at a time holds the event, and at most one call of a handler
succeeds. -/
theorem budgets_decide (bus : SqliteBus) (budgets : ℕ → Int64) (s : World) (id : Uuid)
    (row : OutboxRow) (hs : Reachable (World.stepWith bus budgets) .initial s)
    (hrow : s.db.outbox.lookup id = some row) :
    let ws := (s.view id).recorders
    row.attempts.toInt = ws.length ∧
      (∀ k w : ℕ, ws[k]? = some w →
        ((budgets w).toInt ≤ k + 1 ↔ row.status = .dlq ∧ k + 1 = ws.length)) ∧
      (row.status = .dlq → ws ≠ [] ∧ (s.tally id).succeeded = 0) ∧
      (∀ w u pc pc', s.workers w = some pc → pc.held = some id → s.workers u = some pc' →
        pc'.held = some id → u = w) ∧
      (s.tally id).succeeded ≤ 1 ∧
      (row.status = .acked ∨ row.status = .dlq → ∀ as t,
        run (World.stepWith bus budgets) s as = some t → t.db.outbox.lookup id = some row) := by
  intro ws
  have hsound := World.soundWith_of_reachable hs
  obtain ⟨-, hphase, hdecided⟩ := hsound id
  have hview : (s.view id).row = some row := hrow
  refine ⟨EventView.attempts_eq_recorders hphase hview, fun k w ↦ hdecided.spent_iff hview,
    fun hdlq ↦ ⟨?_, ?_⟩, fun w u pc pc' hw hheld hu hheld' ↦ ?_, hphase.succeeded_le,
    fun hst as t hrun ↦ (World.settled_runWith hsound ⟨hview, hst⟩ hrun).1⟩
  · exact hdecided.recorders_ne_nil hview hdlq
  · exact hphase.succeeded_eq_zero (EventView.lenient_row hview)
      (OutboxRow.status_lenient_of_dlq bus hdlq)
  · exact hphase.holder_unique (World.holders_view hw hheld) (World.holders_view hu hheld')

/-- The second worker is less patient than the first. -/
def unlikeBudgets (w : ℕ) : Int64 := if w = 0 then 5 else 2

/-- Both fail. -/
def unlikeRun : List Action :=
  handledRun (.error "no") ++
    [.work 0 .readAttempts, .work 0 .updateFailed, .subscribe 1, .work 1 (.poll (20 * 1000 * 1000)),
      .work 1 (.claim 0), .work 1 (.alreadyHandled 0), .work 1 (.lastSeen 0),
      .work 1 (.returned (.error "no") 0), .work 1 .readAttempts, .work 1 .updateFailed]

/-- The first failure leaves the event waiting, and the second gives it up, for good. -/
theorem unlikeRun_decided : ∃ s row,
    run (World.stepWith (oneEventBus 3) unlikeBudgets) .initial unlikeRun = some s ∧
      (s.view ⟨1⟩).recorders = [0, 1] ∧ s.db.outbox.lookup ⟨1⟩ = some row ∧ row.status = .dlq ∧
      row.attempts.toInt = 2 ∧
      ∀ as t, run (World.stepWith (oneEventBus 3) unlikeBudgets) s as = some t →
        t.db.outbox.lookup ⟨1⟩ = some row := by
  have hruns : (run (World.stepWith (oneEventBus 3) unlikeBudgets) .initial unlikeRun).map (fun s ↦
      ((s.view ⟨1⟩).recorders, (s.db.outbox.lookup ⟨1⟩).isSome)) = some ([0, 1], true) := by
    decide +kernel
  obtain ⟨s, hs, hend⟩ := Option.map_eq_some_iff.1 hruns
  obtain ⟨hws, hsome⟩ := Prod.mk.inj hend
  obtain ⟨row, hrow⟩ := Option.isSome_iff_exists.1 hsome
  obtain ⟨hattempts, hspent, -, -, -, hstays⟩ :=
    budgets_decide (oneEventBus 3) unlikeBudgets s ⟨1⟩ row ⟨_, hs⟩ hrow
  rw [hws] at hattempts hspent
  obtain ⟨hdlq, -⟩ := (hspent 1 1 rfl).1 (by decide)
  exact ⟨s, row, hs, hws, hrow, hdlq, hattempts, hstays (Or.inr hdlq)⟩

end PhenoEvents
