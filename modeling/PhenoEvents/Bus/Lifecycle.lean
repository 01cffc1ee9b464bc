import Mathlib.Algebra.Order.Group.Int
import PhenoEvents.Bus.Worker

/-!
# The life of one event

What the bus means for a single event: an abstract system whose state, `EventView`, is the event's
row, whether it has been handled, which workers hold it, and what has been observed of it.

* `EventView.Step` are the steps that are about the event, and `EventView.Loss` those that take a
  worker away from an event it holds.
* `EventView.Phase` is the invariant: it says for each status who can hold the event and how the
  attempts account for the calls of the handler.  The one phase the statuses do not name is
  `stranded`: in progress, and held by nobody.

`mark_handled` and `mark_failed` overwrite the row without looking at it.  They are safe because a
worker that holds the event is in the phase `held`, where it is the only one (`Phase.of_holder`).

## Why one event at a time

The statements of the bus are about one row, but for the query that chooses it.  So a run of the
system is, for each event, a run of this small system, with steps left out that are about the
others.  What is proved here once holds of every event in a table of any size; nothing here has to
mention a table.

## What is here

* `Tally`: four numbers that are read off a log.  All that is said about how often a handler was
  called goes through them.
* `Phase`, and that every step keeps it (`Step.phase`).
* `Settled`: the event is acked or given up, and its row is never written again (`Step.settled`).
* `Served`: the event is not stranded.  A step about the event keeps that, and a loss never does.
* `Published`: the event has a row exactly if a call of `publish` was answered with success.
-/

set_option autoImplicit false

namespace PhenoEvents

/-! ## Accounts

An account of an event is how often its handler was called, and with which results.  An account adds
up when logs are put together, so a step changes it by what the step has observed. -/

/-- A successful `publish`. -/
def Observation.isAccepted : Observation → Bool
  | .published _ (.ok _) => true
  | _ => false

/-- A successful `publish` that was not answered with `duplicate`. -/
def Observation.isFirst : Observation → Bool
  | .published _ (.ok ack) => !ack.duplicate
  | _ => false

/-- A call of the handler. -/
def Observation.isInvoked : Observation → Bool
  | .invoked _ _ _ => true
  | _ => false

/-- A handler that returned `Ok`. -/
def Observation.isSucceeded : Observation → Bool
  | .returned _ _ (.ok ()) => true
  | _ => false

/-- A handler that returned `Err`. -/
def Observation.isFailed : Observation → Bool
  | .returned _ _ (.error _) => true
  | _ => false

/-- A failure that was written down. -/
def Observation.isRecorded : Observation → Bool
  | .recorded _ _ => true
  | _ => false

/-- How often the handler was called, returned `Ok` and returned `Err`, and how many failures were
written down. -/
structure Tally where
  invoked : ℕ
  succeeded : ℕ
  failed : ℕ
  recorded : ℕ
  deriving DecidableEq

namespace Tally

/-- The tally of a log. -/
def of (log : List Observation) : Tally :=
  ⟨log.countP Observation.isInvoked, log.countP Observation.isSucceeded,
    log.countP Observation.isFailed, log.countP Observation.isRecorded⟩

/-- Two tallies together. -/
def add (a b : Tally) : Tally :=
  ⟨a.invoked + b.invoked, a.succeeded + b.succeeded, a.failed + b.failed, a.recorded + b.recorded⟩

theorem of_append (log log' : List Observation) : of (log ++ log') = (of log).add (of log') := by
  simp [of, add, List.countP_append]

end Tally

/-- What the calls of the handler amount to when a worker is at `pc`, after `n` recorded
failures. -/
def Pc.tally (n : ℕ) : Pc → Tally
  | .idle | .claiming _ | .checking _ | .querying _ => ⟨n, 0, n, n⟩
  | .handling _ _ => ⟨n + 1, 0, n, n⟩
  | .acking _ _ => ⟨n + 1, 1, n, n⟩
  | .reading _ _ _ | .writing _ _ _ _ => ⟨n + 1, 0, n + 1, n⟩

/-- How many calls of the handler an event can see: `max(1, max_retries)`. -/
def SqliteBus.budget (bus : SqliteBus) : ℤ := max 1 bus.maxRetries.toInt

theorem toInt_add_one {a : Int64} (h : a.toInt < 2 ^ 63 - 1) : (a + 1).toInt = a.toInt + 1 := by
  have hone : (1 : Int64).toInt = 1 := rfl
  have hle : -2 ^ 63 ≤ a.toInt := a.le_toInt
  rw [Int64.toInt_add, hone]
  exact Int.bmod_eq_of_le (by omega) (by omega)

theorem SqliteBus.budget_le (bus : SqliteBus) : bus.budget ≤ 2 ^ 63 - 1 := by
  have hlt : bus.maxRetries.toInt < 2 ^ 63 := bus.maxRetries.toInt_lt
  rw [budget]
  omega

theorem SqliteBus.failureStatus_eq (bus : SqliteBus) (attempts : Int64) :
    bus.failureStatus attempts = .dlq ∨ bus.failureStatus attempts = .retrying := by
  rw [failureStatus]
  exact ite_eq_or_eq ..

/-- `mark_failed` gives up exactly when the budget is spent. -/
theorem SqliteBus.failureStatus_cases (bus : SqliteBus) {attempts : Int64} {n : ℕ}
    (hn : attempts.toInt = n) (hlt : (n : ℤ) < bus.budget) :
    (attempts + 1).toInt = (n + 1 : ℕ) ∧
      (bus.failureStatus (attempts + 1) = .dlq ∧ ((n + 1 : ℕ) : ℤ) = bus.budget ∨
        bus.failureStatus (attempts + 1) = .retrying ∧
          ((n + 1 : ℕ) : ℤ) < bus.maxRetries.toInt) := by
  have hle := bus.budget_le
  have hnext : (attempts + 1).toInt = (n + 1 : ℕ) := by
    rw [toInt_add_one (by omega), hn]
    rfl
  refine ⟨hnext, ?_⟩
  rw [failureStatus]
  rw [budget] at hlt ⊢
  by_cases h : attempts + 1 ≥ bus.maxRetries
  · have hge := Int64.le_iff_toInt_le.1 h
    exact Or.inl ⟨if_pos h, by omega⟩
  · have hge := mt Int64.le_iff_toInt_le.2 h
    exact Or.inr ⟨if_neg h, by omega⟩

/-! ## One event

The abstract system.  Its steps have no free choice of a row any more: a claim is a claim of this
event.  What is left of `claim_next` is the condition that the event can be claimed, as the other
events decide whether it is. -/

/-- One event, as the bus sees it.  There is nothing in it about any other event, so its steps can
be said without a table. -/
structure EventView where
  /-- Its row in `outbox`. -/
  row : Option OutboxRow
  /-- It is in `handled_events`. -/
  handled : Bool
  /-- The workers that have claimed and not marked it, and where they are. -/
  holders : ℕ → Option Pc
  /-- What has been observed of it. -/
  log : List Observation

namespace EventView

/-- Before anything has happened. -/
def initial : EventView := ⟨none, false, fun _ ↦ none, []⟩

/-- The steps about the event `id`.  They are those of `process_once` and `publish`, as far as they
concern one event, with nobody lost. -/
inductive Step (bus : SqliteBus) (id : Uuid) (v : EventView) : EventView → Prop
  | publish (envelope : EventEnvelope) (now : Instant) (text : String) (hid : envelope.id = id)
      (hvalid : envelope.validate = .ok ()) (htext : bus.serde.toString envelope = .ok text) :
      Step bus id v
        { v with
          row := some (v.row.getD (.new id text now))
          log := v.log ++ [.published envelope (.ok ⟨id, v.row.isSome⟩)] }
  | reject (envelope : EventEnvelope) (error : PublishError) (hid : envelope.id = id) :
      Step bus id v { v with log := v.log ++ [.published envelope (.error error)] }
  | claim (w : ℕ) (row : OutboxRow) (envelope : EventEnvelope) (now : Instant)
      (hid : envelope.id = id) (hrow : v.row = some row) (hclaim : row.claimable = true) :
      Step bus id v
        { v with
          row := some (row.claimed now)
          holders := Function.update v.holders w (some (.checking envelope))
          log := v.log ++ [.claimed w id] }
  | handledBefore (w : ℕ) (envelope : EventEnvelope) (now : Instant)
      (hpc : v.holders w = some (.checking envelope)) (hdone : v.handled = true) :
      Step bus id v { v with holders := Function.update v.holders w (some (.acking id now)) }
  | notHandled (w : ℕ) (envelope : EventEnvelope) (hpc : v.holders w = some (.checking envelope)) :
      Step bus id v { v with holders := Function.update v.holders w (some (.querying envelope)) }
  | invoke (w : ℕ) (envelope : EventEnvelope) (seen : Option Uuid)
      (hpc : v.holders w = some (.querying envelope)) :
      Step bus id v
        { v with
          holders := Function.update v.holders w (some (.handling envelope seen))
          log := v.log ++ [.invoked w envelope seen] }
  | succeed (w : ℕ) (envelope : EventEnvelope) (seen : Option Uuid) (now : Instant)
      (hpc : v.holders w = some (.handling envelope seen)) :
      Step bus id v
        { v with
          holders := Function.update v.holders w (some (.acking id now))
          log := v.log ++ [.returned w envelope (.ok ())] }
  | fail (w : ℕ) (envelope : EventEnvelope) (seen : Option Uuid) (error : String) (now : Instant)
      (hpc : v.holders w = some (.handling envelope seen)) :
      Step bus id v
        { v with
          holders :=
            Function.update v.holders w (some (.reading id ("handler nack: " ++ error) now))
          log := v.log ++ [.returned w envelope (.error error)] }
  | markHandled (w : ℕ) (now : Instant) (hpc : v.holders w = some (.acking id now)) :
      Step bus id v
        { v with
          row := v.row.map (OutboxRow.acked now)
          handled := true
          holders := Function.update v.holders w none }
  | readAttempts (w : ℕ) (error : String) (now : Instant) (row : OutboxRow)
      (hpc : v.holders w = some (.reading id error now)) (hrow : v.row = some row) :
      Step bus id v
        { v with
          holders := Function.update v.holders w (some (.writing id error now row.attempts)) }
  | rowGone (w : ℕ) (pc : Pc) (hpc : v.holders w = some pc) (hrow : v.row = none) :
      Step bus id v { v with holders := Function.update v.holders w none }
  | updateFailed (w : ℕ) (error : String) (now : Instant) (attempts : Int64)
      (hpc : v.holders w = some (.writing id error now attempts)) :
      Step bus id v
        { v with
          row := v.row.map (OutboxRow.failed (bus.failureStatus (attempts + 1)) (attempts + 1) error
            now)
          holders := Function.update v.holders w none
          log := v.log ++ [.recorded w id] }

/-- The steps that leave the event in progress and nobody holding it: a claim whose text does not
decode, and a worker, or all of them at once, that no longer holds the event without having marked
it. -/
inductive Loss (v : EventView) : EventView → Prop
  | claimLost (row : OutboxRow) (now : Instant) (hrow : v.row = some row)
      (hclaim : row.claimable = true) : Loss v { v with row := some (row.claimed now) }
  | release (w : ℕ) (pc : Pc) (hpc : v.holders w = some pc) :
      Loss v { v with holders := Function.update v.holders w none }
  | releaseAll (w : ℕ) (pc : Pc) (hpc : v.holders w = some pc) :
      Loss v { v with holders := fun _ ↦ none }

/-! ## The phases

In each phase `n` is the number of failures that have been written down, and it is the column
`attempts`.  In `held` the account depends on where the worker is, as it may have called the handler
and not yet written down what came of it. -/

/-- Nobody holds the event. -/
def Free (v : EventView) : Prop := v.holders = fun _ ↦ none

/-- Worker `w` holds the event, and nobody else does. -/
def HeldBy (v : EventView) (w : ℕ) (pc : Pc) : Prop :=
  v.holders = Function.update (fun _ ↦ none) w (some pc)

/-- The phases of an event.  In each, `n` is the number of recorded failures. -/
inductive Phase (bus : SqliteBus) (v : EventView) : Prop
  | absent (hrow : v.row = none) (hfree : v.Free) (hdone : v.handled = false)
      (htally : Tally.of v.log = ⟨0, 0, 0, 0⟩)
  | waiting (row : OutboxRow) (n : ℕ) (hrow : v.row = some row)
      (hstatus : row.status = .pending ∧ n = 0 ∨
        row.status = .retrying ∧ 1 ≤ n ∧ (n : ℤ) < bus.maxRetries.toInt)
      (hn : row.attempts.toInt = n) (hfree : v.Free) (hdone : v.handled = false)
      (htally : Tally.of v.log = ⟨n, 0, n, n⟩)
  | held (row : OutboxRow) (n w : ℕ) (pc : Pc) (hrow : v.row = some row)
      (hstatus : row.status = .inProgress) (hn : row.attempts.toInt = n)
      (hlt : (n : ℤ) < bus.budget) (hheld : v.HeldBy w pc) (hdone : v.handled = false)
      (hread : ∀ id error now attempts, pc = .writing id error now attempts →
        attempts = row.attempts)
      (htally : Tally.of v.log = pc.tally n)
  | stranded (row : OutboxRow) (n : ℕ) (pc : Pc) (hrow : v.row = some row)
      (hstatus : row.status = .inProgress) (hn : row.attempts.toInt = n)
      (hlt : (n : ℤ) < bus.budget) (hfree : v.Free) (hdone : v.handled = false)
      (htally : Tally.of v.log = pc.tally n)
  | acked (row : OutboxRow) (n : ℕ) (hrow : v.row = some row) (hstatus : row.status = .acked)
      (hn : row.attempts.toInt = n) (hlt : (n : ℤ) < bus.budget) (hfree : v.Free)
      (hdone : v.handled = true) (htally : Tally.of v.log = ⟨n + 1, 1, n, n⟩)
  | dlq (row : OutboxRow) (n : ℕ) (hrow : v.row = some row) (hstatus : row.status = .dlq)
      (hn : row.attempts.toInt = n) (heq : (n : ℤ) = bus.budget) (hfree : v.Free)
      (hdone : v.handled = false) (htally : Tally.of v.log = ⟨n, 0, n, n⟩)

variable {bus : SqliteBus} {id : Uuid} {v v' : EventView}

theorem phase_initial : initial.Phase bus := .absent rfl rfl rfl rfl

/-- The phase sees of the log only its tally. -/
theorem Phase.of_log (h : v.Phase bus) (log : List Observation)
    (hlog : Tally.of log = Tally.of v.log) : { v with log := log }.Phase bus := by
  cases h with
  | absent hrow hfree hdone htally => exact .absent hrow hfree hdone (hlog.trans htally)
  | waiting row n hrow hstatus hn hfree hdone htally =>
    exact .waiting row n hrow hstatus hn hfree hdone (hlog.trans htally)
  | held row n w pc hrow hstatus hn hlt hheld hdone hread htally =>
    exact .held row n w pc hrow hstatus hn hlt hheld hdone hread (hlog.trans htally)
  | stranded row n pc hrow hstatus hn hlt hfree hdone htally =>
    exact .stranded row n pc hrow hstatus hn hlt hfree hdone (hlog.trans htally)
  | acked row n hrow hstatus hn hlt hfree hdone htally =>
    exact .acked row n hrow hstatus hn hlt hfree hdone (hlog.trans htally)
  | dlq row n hrow hstatus hn heq hfree hdone htally =>
    exact .dlq row n hrow hstatus hn heq hfree hdone (hlog.trans htally)

theorem Free.holders_eq_none (h : v.Free) (w : ℕ) : v.holders w = none := congrFun h w

/-- **Who holds an event is its only holder**, and the event is in progress.  So nobody has written
the row since it was claimed, and what the worker is about to write is written over what it has
read. -/
theorem Phase.of_holder (h : v.Phase bus) {w : ℕ} {pc : Pc} (hpc : v.holders w = some pc) :
    ∃ (row : OutboxRow) (n : ℕ), v.row = some row ∧ row.status = .inProgress ∧
    row.attempts.toInt = ↑n ∧
      (n : ℤ) < bus.budget ∧ v.HeldBy w pc ∧ v.handled = false ∧
      (∀ id error now attempts, pc = .writing id error now attempts → attempts = row.attempts) ∧
      Tally.of v.log = pc.tally n := by
  have hfree : ¬v.Free := fun hf ↦ by
    rw [hf.holders_eq_none] at hpc
    cases hpc
  cases h with
  | held row n u pc' hrow hstatus hn hlt hheld hdone hread htally =>
    have hu : w = u ∧ pc = pc' := by
      rw [hheld, Function.update_apply] at hpc
      split at hpc
      · exact ⟨by assumption, (Option.some_inj.1 hpc).symm⟩
      · cases hpc
    obtain ⟨rfl, rfl⟩ := hu
    exact ⟨row, n, hrow, hstatus, hn, hlt, hheld, hdone, hread, htally⟩
  | _ => exact absurd (by assumption) hfree

theorem Phase.holder_unique (h : v.Phase bus) {w u : ℕ} {pc pc' : Pc} (hpc : v.holders w = some pc)
    (hpc' : v.holders u = some pc') : u = w := by
  obtain ⟨-, -, -, -, -, -, hby, -⟩ := h.of_holder hpc
  by_contra hne
  have hnone : v.holders u = none := (congrFun hby u).trans (Function.update_of_ne hne ..)
  cases hpc'.symm.trans hnone

/-- An event that can be claimed is waiting. -/
theorem Phase.of_claimable (h : v.Phase bus) {row : OutboxRow} (hrow : v.row = some row)
    (hclaim : row.claimable = true) :
    ∃ n : ℕ, row.attempts.toInt = ↑n ∧ (n : ℤ) < bus.budget ∧ v.Free ∧ v.handled = false ∧
      Tally.of v.log = ⟨n, 0, n, n⟩ := by
  rw [OutboxRow.claimable, decide_eq_true_eq] at hclaim
  cases h with
  | absent hnone => rw [hnone] at hrow; cases hrow
  | waiting r n hr hstatus hn hfree hdone htally =>
    obtain rfl := Option.some_inj.1 (hrow.symm.trans hr)
    refine ⟨n, hn, ?_, hfree, hdone, htally⟩
    rw [SqliteBus.budget]
    omega
  | held r n w pc hr hstatus | stranded r n pc hr hstatus | acked r n hr hstatus
  | dlq r n hr hstatus =>
    obtain rfl := Option.some_inj.1 (hrow.symm.trans hr)
    simp [hstatus] at hclaim

/-! ## Every step keeps the phases

A worker that holds the event goes on, lets go of it, or writes down a failure; everybody else can
only find out that the event is not to be had. -/

theorem HeldBy.update {w : ℕ} {pc : Pc} (h : v.HeldBy w pc) (o : Option Pc) :
    Function.update v.holders w o = Function.update (fun _ ↦ none) w o := by
  rw [h, Function.update_idem]

theorem HeldBy.release {w : ℕ} {pc : Pc} (h : v.HeldBy w pc) :
    Function.update v.holders w none = fun _ ↦ none := by
  rw [h.update, Function.update_eq_self]

/-- A worker that holds the event goes on. -/
theorem Phase.move (h : v.Phase bus) {w : ℕ} {pc : Pc} (hpc : v.holders w = some pc) (pc' : Pc)
    (log : List Observation) (hread : ∀ row, v.row = some row → ∀ id error now attempts,
      pc' = .writing id error now attempts → attempts = row.attempts)
    (htally : ∀ n, Tally.of v.log = pc.tally n → Tally.of log = pc'.tally n) :
    { v with holders := Function.update v.holders w (some pc'), log := log }.Phase bus := by
  obtain ⟨row, n, hrow, hstatus, hn, hlt, hheld, hdone, -, ht⟩ := h.of_holder hpc
  exact .held row n w pc' hrow hstatus hn hlt (hheld.update _) hdone (hread row hrow) (htally n ht)

theorem Phase.publish (h : v.Phase bus) (envelope : EventEnvelope) (now : Instant) (text : String) :
    { v with
      row := some (v.row.getD (OutboxRow.new id text now))
      log := v.log ++ [Observation.published envelope (.ok ⟨id, v.row.isSome⟩)] }.Phase bus := by
  have hlog : Tally.of (v.log ++ [Observation.published envelope (.ok ⟨id, v.row.isSome⟩)]) =
      Tally.of v.log := by
    rw [Tally.of_append]
    rfl
  cases hrow : v.row with
  | some row =>
    rw [hrow] at hlog
    have hsame : { v with row := some row } = v := by rw [← hrow]
    have hv : { v with row := some row }.Phase bus := hsame ▸ h
    exact hv.of_log _ hlog
  | none =>
    rw [hrow] at hlog
    cases h with
    | absent _ hfree hdone htally =>
      exact .waiting (.new id text now) 0 rfl (Or.inl ⟨rfl, rfl⟩) rfl hfree hdone
        (hlog.trans htally)
    | waiting r n hr | held r n w pc hr | stranded r n pc hr | acked r n hr | dlq r n hr =>
      rw [hrow] at hr
      cases hr

theorem Phase.updateFailed (h : v.Phase bus) {w : ℕ} {error : String} {now : Instant}
    {attempts : Int64} (hpc : v.holders w = some (.writing id error now attempts)) :
    { v with
      row := v.row.map
        (OutboxRow.failed (bus.failureStatus (attempts + 1)) (attempts + 1) error now)
      holders := Function.update v.holders w none
      log := v.log ++ [Observation.recorded w id] }.Phase bus := by
  obtain ⟨row, n, hrow, hstatus, hn, hlt, hheld, hdone, hread, ht⟩ := h.of_holder hpc
  obtain rfl := hread id error now attempts rfl
  have htally : Tally.of (v.log ++ [Observation.recorded w id]) = ⟨n + 1, 0, n + 1, n + 1⟩ := by
    rw [Tally.of_append, ht]
    rfl
  rw [hrow, Option.map_some]
  rcases bus.failureStatus_cases hn hlt with ⟨hnext, ⟨hs, hbudget⟩ | ⟨hs, hbudget⟩⟩
  · exact .dlq (row.failed (bus.failureStatus (row.attempts + 1)) (row.attempts + 1) error now)
      (n + 1) rfl hs hnext hbudget hheld.release hdone htally
  · exact .waiting (row.failed (bus.failureStatus (row.attempts + 1)) (row.attempts + 1) error now)
      (n + 1) rfl (Or.inr ⟨hs, by omega, hbudget⟩) hnext hheld.release hdone htally

/-- **Every step about the event keeps it in a phase.**  The account follows the worker: a call of
the handler counts when it is made, and a failure when it is written down. -/
theorem Step.phase (hs : v.Step bus id v') (h : v.Phase bus) : v'.Phase bus := by
  cases hs with
  | publish envelope now text => exact h.publish envelope now text
  | reject envelope error =>
    exact h.of_log _ (by rw [Tally.of_append]; rfl)
  | claim w row envelope now _ hrow hclaim =>
    obtain ⟨n, hn, hlt, hfree, hdone, ht⟩ := h.of_claimable hrow hclaim
    refine .held (row.claimed now) n w (.checking envelope) rfl rfl hn hlt ?_ hdone ?_ ?_
    · rw [HeldBy, hfree]
    · exact fun _ _ _ _ hw ↦ by cases hw
    · rw [Tally.of_append, ht]
      rfl
  | handledBefore w envelope now hpc hdone =>
    -- not handled is part of the phase `held`, so the worker never finds it handled
    obtain ⟨-, -, -, -, -, -, -, hnot, -⟩ := h.of_holder hpc
    rw [hdone] at hnot
    cases hnot
  | notHandled w envelope hpc =>
    exact h.move hpc _ v.log (fun _ _ _ _ _ _ hw ↦ by cases hw) fun n hn ↦ hn
  | invoke w envelope seen hpc =>
    refine h.move hpc _ _ (fun _ _ _ _ _ _ hw ↦ by cases hw) fun n hn ↦ ?_
    rw [Tally.of_append, hn]
    rfl
  | succeed w envelope seen now hpc =>
    refine h.move hpc _ _ (fun _ _ _ _ _ _ hw ↦ by cases hw) fun n hn ↦ ?_
    rw [Tally.of_append, hn]
    rfl
  | fail w envelope seen error now hpc =>
    refine h.move hpc _ _ (fun _ _ _ _ _ _ hw ↦ by cases hw) fun n hn ↦ ?_
    rw [Tally.of_append, hn]
    rfl
  | markHandled w now hpc =>
    obtain ⟨row, n, hrow, hstatus, hn, hlt, hheld, hdone, -, ht⟩ := h.of_holder hpc
    exact .acked (row.acked now) n (by rw [hrow, Option.map_some]) rfl hn hlt hheld.release rfl ht
  | readAttempts w error now row hpc hrow =>
    -- what was read is what is there, and stays so until it is written
    refine h.move hpc _ v.log (fun r hr _ _ _ _ hw ↦ ?_) fun n hn ↦ hn
    obtain rfl := Option.some_inj.1 (hrow.symm.trans hr)
    cases hw
    rfl
  | rowGone w pc hpc hnone =>
    obtain ⟨row, n, hrow, -⟩ := h.of_holder hpc
    rw [hnone] at hrow
    cases hrow
  | updateFailed w error now attempts hpc => exact h.updateFailed hpc

/-- A step that takes a worker away strands the event: the account stays as it is, and there is no
phase that follows. -/
theorem Loss.stranded (hs : v.Loss v') (h : v.Phase bus) :
    v'.Phase bus ∧ v'.Free ∧ ∃ row, v'.row = some row ∧ row.status = .inProgress := by
  cases hs with
  | claimLost row now hrow hclaim =>
    obtain ⟨n, hn, hlt, hfree, hdone, ht⟩ := h.of_claimable hrow hclaim
    exact ⟨.stranded (row.claimed now) n .idle rfl rfl hn hlt hfree hdone ht, hfree, _, rfl, rfl⟩
  | release w pc hpc =>
    obtain ⟨row, n, hrow, hstatus, hn, hlt, hheld, hdone, -, ht⟩ := h.of_holder hpc
    have hfree := hheld.release
    exact ⟨.stranded row n pc hrow hstatus hn hlt hfree hdone ht, hfree, row, hrow, hstatus⟩
  | releaseAll w pc hpc =>
    obtain ⟨row, n, hrow, hstatus, hn, hlt, hheld, hdone, -, ht⟩ := h.of_holder hpc
    exact ⟨.stranded row n pc hrow hstatus hn hlt rfl hdone ht, rfl, row, hrow, hstatus⟩

/-! ## Accounts by status

What the phases say, for somebody who looks at the row and not at the workers. -/

/-- The account of an event with a row. -/
theorem Phase.account (h : v.Phase bus) {row : OutboxRow} (hrow : v.row = some row) :
    ∃ n : ℕ, row.attempts.toInt = ↑n ∧ (Tally.of v.log).recorded = n ∧
      (Tally.of v.log).invoked ≤ bus.budget ∧
      match row.status with
      | .pending => n = 0
      | .retrying => 1 ≤ n ∧ (n : ℤ) < bus.maxRetries.toInt
      | .inProgress => (n : ℤ) < bus.budget
      | .acked => (n : ℤ) < bus.budget ∧ (Tally.of v.log).succeeded = 1
      | .dlq => (n : ℤ) = bus.budget := by
  have hbudget : (1 : ℤ) ≤ bus.budget ∧ bus.maxRetries.toInt ≤ bus.budget :=
    ⟨Int.le_max_left .., Int.le_max_right ..⟩
  cases h with
  | absent hnone => rw [hnone] at hrow; cases hrow
  | waiting r n hr hstatus hn hfree hdone htally =>
    obtain rfl := Option.some_inj.1 (hrow.symm.trans hr)
    rcases hstatus with ⟨hst, hzero⟩ | ⟨hst, hpos, hlt⟩
    · exact ⟨n, hn, by rw [htally], by rw [htally]; show (n : ℤ) ≤ _; omega,
        by rw [hst]; exact hzero⟩
    · exact ⟨n, hn, by rw [htally], by rw [htally]; show (n : ℤ) ≤ _; omega,
        by rw [hst]; exact ⟨hpos, hlt⟩⟩
  | held r n w pc hr hst hn hlt _ _ _ htally | stranded r n pc hr hst hn hlt _ _ htally =>
    obtain rfl := Option.some_inj.1 (hrow.symm.trans hr)
    have hpc : (pc.tally n).recorded = n ∧ (pc.tally n).invoked ≤ n + 1 := by
      cases pc <;> exact ⟨rfl, by simp [Pc.tally]⟩
    refine ⟨n, hn, by rw [htally]; exact hpc.1, ?_, by rw [hst]; exact hlt⟩
    rw [htally]
    omega
  | acked r n hr hst hn hlt _ _ htally =>
    obtain rfl := Option.some_inj.1 (hrow.symm.trans hr)
    refine ⟨n, hn, by rw [htally], ?_, by rw [hst, htally]; exact ⟨hlt, rfl⟩⟩
    rw [htally]
    show ((n + 1 : ℕ) : ℤ) ≤ _
    omega
  | dlq r n hr hst hn heq _ _ htally =>
    obtain rfl := Option.some_inj.1 (hrow.symm.trans hr)
    exact ⟨n, hn, by rw [htally], by rw [htally]; exact heq.le, by rw [hst]; exact heq⟩

/-- An event has been handled exactly if it is acked. -/
theorem Phase.handled_iff (h : v.Phase bus) :
    v.handled = true ↔ ∃ row, v.row = some row ∧ row.status = .acked := by
  cases h with
  | acked row n hrow hstatus hn hlt hfree hdone =>
    exact ⟨fun _ ↦ ⟨row, hrow, hstatus⟩, fun _ ↦ hdone⟩
  | absent hrow hfree hdone =>
    rw [hdone, hrow]
    simp
  | waiting row n hrow hstatus hn hfree hdone =>
    rw [hdone, hrow]
    rcases hstatus with ⟨hst, -⟩ | ⟨hst, -⟩ <;> simp [hst]
  | held row n w pc hrow hst hn hlt hheld hdone | stranded row n pc hrow hst hn hlt hfree hdone
  | dlq row n hrow hst hn heq hfree hdone =>
    rw [hdone, hrow]
    simp [hst]

theorem Phase.tally_of_absent (h : v.Phase bus) (hrow : v.row = none) :
    Tally.of v.log = ⟨0, 0, 0, 0⟩ := by
  cases h with
  | absent _ _ _ htally => exact htally
  | waiting r n hr | held r n w pc hr | stranded r n pc hr | acked r n hr | dlq r n hr =>
    rw [hrow] at hr
    cases hr

theorem Phase.recorded_le_failed (h : v.Phase bus) :
    (Tally.of v.log).recorded ≤ (Tally.of v.log).failed := by
  cases h with
  | held r n w pc _ _ _ _ _ _ _ htally | stranded r n pc _ _ _ _ _ _ htally =>
    rw [htally]
    cases pc <;> simp [Pc.tally]
  | absent _ _ _ htally | waiting _ _ _ _ _ _ _ htally | acked _ _ _ _ _ _ _ _ htally
  | dlq _ _ _ _ _ _ _ _ htally =>
    rw [htally]

/-! ## Settled events

There are two statuses the code never leaves: `acked` and `dlq`.  No statement says so.  It holds
because whoever writes the row of an event holds it, and nobody can hold one that is not in
progress. -/

/-- The event will not be delivered again: its row is `row`, which is acked or given up. -/
def Settled (v : EventView) (row : OutboxRow) : Prop :=
  v.row = some row ∧ (row.status = .acked ∨ row.status = .dlq)

/-- It is not in progress. -/
theorem Settled.not_inProgress {row row' : OutboxRow} (hv : v.Settled row)
    (hrow : v.row = some row') :
    row'.status ≠ .inProgress := by
  intro hstatus
  obtain rfl := Option.some_inj.1 (hv.1.symm.trans hrow)
  rcases hv.2 with hs | hs
  · rw [hstatus] at hs
    cases hs
  · rw [hstatus] at hs
    cases hs

/-- Nobody holds it. -/
theorem Settled.not_holder {row : OutboxRow} (hv : v.Settled row) (h : v.Phase bus) {w : ℕ}
    {pc : Pc} : v.holders w ≠ some pc := by
  intro hpc
  obtain ⟨row', n, hrow, hstatus, -⟩ := h.of_holder hpc
  exact hv.not_inProgress hrow hstatus

theorem Settled.not_claimable {row : OutboxRow} (hv : v.Settled row) : row.claimable = false := by
  rcases hv.2 with hs | hs <;> simp [OutboxRow.claimable, hs]

/-- **Nothing changes the row of a settled event.**  A worker would have to hold the event to write
it, and to hold it would have to claim it. -/
theorem Step.settled {row : OutboxRow} (hs : v.Step bus id v') (hv : v.Settled row)
    (hfree : ∀ w pc, v.holders w ≠ some pc) : v'.row = some row := by
  cases hs with
  | publish envelope now text => simp [hv.1]
  | claim w row' envelope now _ hrow hclaim =>
    obtain rfl := Option.some_inj.1 (hv.1.symm.trans hrow)
    rw [hv.not_claimable] at hclaim
    cases hclaim
  | markHandled w now hpc | updateFailed w error now attempts hpc => exact absurd hpc (hfree w _)
  | _ => exact hv.1

/-- A settled event has no worker to lose. -/
theorem Loss.not_settled {row : OutboxRow} (hs : v.Loss v')
    (hfree : ∀ w pc, v.holders w ≠ some pc) :
    ¬v.Settled row := by
  intro hv
  cases hs with
  | claimLost row' now hrow hclaim =>
    obtain rfl := Option.some_inj.1 (hv.1.symm.trans hrow)
    rw [hv.not_claimable] at hclaim
    cases hclaim
  | release w pc hpc | releaseAll w pc hpc => exact absurd hpc (hfree w pc)

/-- **After a success the handler is not called again.**  The worker that has had the success is
still the only holder until the event is acked, and then nobody can claim it. -/
theorem Step.succeeded (hs : v.Step bus id v') (h : v.Phase bus)
    (hv : 0 < (Tally.of v.log).succeeded) :
    (Tally.of v'.log).invoked = (Tally.of v.log).invoked ∧ 0 < (Tally.of v'.log).succeeded := by
  cases hs with
  | invoke w envelope seen hpc =>
    obtain ⟨row, n, -, -, -, -, -, -, -, ht⟩ := h.of_holder hpc
    rw [ht] at hv
    exact absurd hv (Nat.lt_irrefl 0)
  | publish envelope now text | reject envelope error | claim w row envelope now
  | succeed w envelope seen now hpc | fail w envelope seen error now hpc
  | updateFailed w error now attempts hpc =>
    rw [Tally.of_append]
    exact ⟨Nat.add_zero _, Nat.add_pos_left hv _⟩
  | _ => exact ⟨rfl, hv⟩

/-! ## Served events

A step about an event never strands it.  That is a loss, and every loss does.  So whether an event
is served is decided by the losses alone, and there is nothing else to look for. -/

/-- If the event is in progress, somebody holds it.  An event for which this fails is lost to the
bus. -/
def Served (v : EventView) : Prop :=
  ∀ row, v.row = some row → row.status = .inProgress → ∃ w pc, v.holders w = some pc

/-- **A step about the event never strands it.** -/
theorem Step.served (hs : v.Step bus id v') (hv : v.Served) : v'.Served := by
  have hself : ∀ (holders : ℕ → Option Pc) (w : ℕ) (pc : Pc),
      ∃ u pc', Function.update holders w (some pc) u = some pc' :=
    fun holders w pc ↦ ⟨w, pc, Function.update_self ..⟩
  cases hs with
  | publish envelope now text =>
    intro row hrow hst
    cases hr : v.row with
    | none =>
      rw [hr] at hrow
      cases hrow
      cases hst
    | some r =>
      rw [hr] at hrow
      cases hrow
      exact hv r hr hst
  | reject envelope error => exact hv
  | markHandled w now hpc =>
    intro row hrow hst
    obtain ⟨r, -, rfl⟩ := Option.map_eq_some_iff.1 hrow
    cases hst
  | rowGone w pc hpc hnone =>
    intro row hrow
    rw [show v.row = some row from hrow] at hnone
    cases hnone
  | updateFailed w error now attempts hpc =>
    intro row hrow hst
    obtain ⟨r, -, rfl⟩ := Option.map_eq_some_iff.1 hrow
    rcases bus.failureStatus_eq (attempts + 1) with h | h
    · exact absurd (h.symm.trans hst) (by decide)
    · exact absurd (h.symm.trans hst) (by decide)
  | _ => exact fun _ _ _ ↦ hself _ _ _

theorem Loss.not_served (hs : v.Loss v') (h : v.Phase bus) : ¬v'.Served := by
  intro hv
  obtain ⟨-, hfree, row, hrow, hst⟩ := hs.stranded h
  obtain ⟨w, pc, hpc⟩ := hv row hrow hst
  rw [hfree.holders_eq_none] at hpc
  cases hpc

/-! ## Published events

The first call that succeeds inserts the row, and every later one finds it there. -/

/-- The event has a row exactly if it has been accepted, and exactly one of the calls that accepted
it was not answered with `duplicate`. -/
structure Published (v : EventView) : Prop where
  accepted : v.row.isSome ↔ 0 < v.log.countP Observation.isAccepted
  first : v.log.countP Observation.isFirst = if v.row.isSome then 1 else 0

theorem published_initial : initial.Published := ⟨by decide, by decide⟩

theorem Published.of_append (h : v.Published) {obs : List Observation}
    (hrow : v'.row.isSome = v.row.isSome) (hlog : v'.log = v.log ++ obs)
    (hobs : ∀ o ∈ obs, o.isAccepted = false ∧ o.isFirst = false) : v'.Published := by
  have haccepted : obs.countP Observation.isAccepted = 0 :=
    List.countP_eq_zero.2 fun o ho ↦ by simp [(hobs o ho).1]
  have hfirst : obs.countP Observation.isFirst = 0 :=
    List.countP_eq_zero.2 fun o ho ↦ by simp [(hobs o ho).2]
  constructor
  · rw [hrow, hlog, List.countP_append, haccepted]
    exact h.accepted
  · rw [hrow, hlog, List.countP_append, hfirst]
    exact h.first

theorem Published.of_log_eq (h : v.Published) (hrow : v'.row.isSome = v.row.isSome)
    (hlog : v'.log = v.log) : v'.Published :=
  h.of_append hrow (hlog.trans (List.append_nil _).symm) fun _ ho ↦ absurd ho List.not_mem_nil

theorem Step.published (hs : v.Step bus id v') (h : v.Published) : v'.Published := by
  cases hs with
  | publish envelope now text =>
    have hlast : ∀ (p : Observation → Bool) (o : Observation),
        (v.log ++ [o]).countP p = v.log.countP p + if p o then 1 else 0 := fun p o ↦ by
      rw [List.countP_append, List.countP_singleton]
    refine ⟨⟨fun _ ↦ ?_, fun _ ↦ rfl⟩, ?_⟩
    · rw [hlast]
      exact Nat.succ_pos _
    · rw [hlast, h.first]
      cases v.row <;> rfl
  | reject envelope error | invoke w envelope seen | succeed w envelope seen now
  | fail w envelope seen error now =>
    exact h.of_append rfl rfl fun o ho ↦ by obtain rfl := List.mem_singleton.1 ho; exact ⟨rfl, rfl⟩
  | claim w row envelope now _ hrow =>
    refine h.of_append (by rw [hrow]; rfl) rfl fun o ho ↦ ?_
    obtain rfl := List.mem_singleton.1 ho
    exact ⟨rfl, rfl⟩
  | updateFailed w error now attempts =>
    refine h.of_append Option.isSome_map rfl fun o ho ↦ ?_
    obtain rfl := List.mem_singleton.1 ho
    exact ⟨rfl, rfl⟩
  | markHandled w now => exact h.of_log_eq Option.isSome_map rfl
  | _ => exact h.of_log_eq rfl rfl

theorem Loss.published (hs : v.Loss v') (h : v.Published) : v'.Published := by
  cases hs with
  | claimLost row now hrow => exact h.of_log_eq (by rw [hrow]; rfl) rfl
  | release | releaseAll => exact h.of_log_eq rfl rfl

end EventView

end PhenoEvents
