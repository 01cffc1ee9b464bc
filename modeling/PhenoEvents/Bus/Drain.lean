import PhenoEvents.Bus.Conservation
import PhenoEvents.Bus.Interchange

/-!
# The loop of `subscribe`

`process_once` as a function, and what a worker gets done that calls it again and again while nobody
else is there.  Nothing in the code says that it ever gets to the end of the outbox: a row may be
due later, or be tried again and again.

## What is here

* `run_processOnce`: the function is a run of the steps of the worker.
* `Turned` says once what a call can do to the rows, and `OutboxRow.left` how often a row can still
  be tried.  A call that returns `Ok(true)` uses up one attempt.
* A call that returns `Ok(false)` is followed by the poll interval, which is longer than the time a
  failed event has to wait.  So there are never two such calls in a row while an event waits
  (`settled_of_timely`).
* `worker_drains`: whatever the handler does, the loop gets to the end, and in how many calls.
* `poison_goes_to_dlq`: which events end where.

## What is assumed

The worker is alone: nobody publishes, no other worker claims anything, and it is not aborted.
SQLite reports no error.  The envelopes that were accepted decode; one that does not is claimed and
stays in progress, and the loop goes on without ever coming back to it.  Of the clock only what
`Timely` says is assumed: that it advances, and that the loop sleeps where the code says it does.
-/

set_option autoImplicit false

namespace PhenoEvents

open Transition

/-! ## `process_once`

The steps of `process_once` in a row, with all that the world answers in one record.  The worker
looks for an event, finds out whether it has been handled, calls the handler, and writes down what
comes of it.  The only error that is left is that of an envelope which does not decode. -/

/-- What one call of `process_once` is told by the world. -/
structure Turn where
  /-- The reading of the clock in `claim_next`. -/
  claimedAt : Instant
  /-- Which of several rows with the same `created_at` is selected. -/
  tie : ℕ
  /-- Which of several rows with the same `handled_at` is selected. -/
  seenTie : ℕ
  handler : EventEnvelope → Option Uuid → Except String Unit
  /-- The reading of the clock in `mark_handled` or `mark_failed`. -/
  markedAt : Instant

namespace SqliteBus

/-- The part of `process_once` behind `claim_next`. -/
def processClaimed (bus : SqliteBus) (turn : Turn) (envelope : EventEnvelope) (db : Database) :
    Database :=
  if db.alreadyHandled envelope.id then db.markHandled envelope.id turn.markedAt
  else
    match turn.handler envelope (db.lastSeen turn.seenTie) with
    | .ok () => db.markHandled envelope.id turn.markedAt
    | .error error =>
      match db.attempts envelope.id with
      | none => db
      | some attempts =>
        bus.recordFailure envelope.id attempts ("handler nack: " ++ error) turn.markedAt db

/-- `SqliteBus::process_once`, without errors of SQLite. -/
def processOnce (bus : SqliteBus) (turn : Turn) (db : Database) : Database × Except String Bool :=
  match bus.claimNext turn.claimedAt turn.tie db with
  | (db, .error error) => (db, .error error)
  | (db, .ok none) => (db, .ok false)
  | (db, .ok (some envelope)) => (bus.processClaimed turn envelope db, .ok true)

/-- The loop of `subscribe`, for so many calls. -/
def work (bus : SqliteBus) (db : Database) (turns : List Turn) : Database :=
  turns.foldl (fun db turn ↦ (bus.processOnce turn db).1) db

end SqliteBus

/-- `poll_interval`: 25 milliseconds. -/
def pollInterval : Instant := 25 * 1000 * 1000

/-- The time a failed event has to wait: 10 milliseconds. -/
def backoff : Instant := 10 * 1000 * 1000

/-- The clock advances, and the loop sleeps after a call that did not return `Ok(true)`.  The next
call does not begin before `start`, and the two readings of a call are in their order. -/
def Timely (bus : SqliteBus) (start : Instant) (db : Database) : List Turn → Prop
  | [] => True
  | turn :: turns =>
    start ≤ turn.claimedAt ∧ turn.claimedAt ≤ turn.markedAt ∧
      Timely bus
        (match (bus.processOnce turn db).2 with
        | .ok true => turn.markedAt
        | _ => turn.claimedAt + pollInterval)
        (bus.processOnce turn db).1 turns

/-- Whether the clock advances can be computed. -/
instance decidableTimely (bus : SqliteBus) :
    ∀ (start : Instant) (db : Database) (turns : List Turn), Decidable (Timely bus start db turns)
  | _, _, [] => isTrue trivial
  | _, db, turn :: turns =>
    have := decidableTimely bus
      (match (bus.processOnce turn db).2 with
      | .ok true => turn.markedAt
      | _ => turn.claimedAt + pollInterval) (bus.processOnce turn db).1 turns
    inferInstanceAs (Decidable (_ ∧ _ ∧ _))

/-! ## The function and the steps

A worker that is alone makes the steps of the system, and the function is what they come to.  So
what is proved below about the function is a statement about a run. -/

namespace SqliteBus

variable {bus : SqliteBus} {w : ℕ}

/-- One step of a worker that has the database to itself. -/
def stepAlone (bus : SqliteBus) (w : ℕ) (r : Database × Pc) (action : WorkerAction) :
    Option (Database × Pc) :=
  (bus.workerStep w r.1 r.2 action).map fun r ↦ (r.1, r.2.1)

/-- What a worker does alone, it does in a world where nobody else moves. -/
theorem run_world_of_stepAlone {actions : List WorkerAction} {db' : Database}
    {pc pc' : Pc} {s : World}
    (hpc : s.workers w = some pc) (h : run (bus.stepAlone w) (s.db, pc) actions = some (db', pc')) :
    ∃ t, run (World.step bus) s (actions.map (.work w)) = some t ∧ t.db = db' ∧
      t.workers = Function.update s.workers w (some pc') := by
  induction actions generalizing s pc with
  | nil =>
    obtain ⟨rfl, rfl⟩ := Prod.mk.inj (Option.some_inj.1 h)
    exact ⟨s, rfl, rfl, by rw [← hpc, Function.update_eq_self]⟩
  | cons action actions ih =>
    obtain ⟨⟨db, pc₁⟩, hstep, hrest⟩ := run_cons_eq_some.1 h
    obtain ⟨⟨db₁, pc₂, obs⟩, hmove, hsame⟩ := Option.map_eq_some_iff.1 hstep
    obtain ⟨rfl, rfl⟩ := Prod.mk.inj hsame
    obtain ⟨t, ht, hdb, hworkers⟩ := ih
      (s := ⟨db₁, Function.update s.workers w (some pc₂), s.history ++ obs⟩)
      (Function.update_self ..) hrest
    refine ⟨t, run_cons_eq_some.2 ⟨_, ?_, ht⟩, hdb, ?_⟩
    · rw [World.step, hpc, Option.bind_some, hmove, Option.map_some]
    · rw [hworkers, Function.update_idem]

/-- The steps of a call that has claimed an event. -/
theorem exists_run_processClaimed (bus : SqliteBus) (w : ℕ) (turn : Turn) (db : Database)
    (e : EventEnvelope) :
    ∃ actions, run (bus.stepAlone w) (db, .checking e) actions =
      some (bus.processClaimed turn e db, .idle) := by
  rw [processClaimed]
  by_cases hdone : db.alreadyHandled e.id = true
  · refine ⟨[.alreadyHandled turn.markedAt, .markHandled], ?_⟩
    simp [run, stepAlone, workerStep, hdone]
  · cases hresult : turn.handler e (db.lastSeen turn.seenTie) with
    | ok =>
      refine ⟨[.alreadyHandled turn.markedAt, .lastSeen turn.seenTie,
        .returned (.ok ()) turn.markedAt,
        .markHandled], ?_⟩
      simp [run, stepAlone, workerStep, hdone]
    | error error =>
      cases hattempts : db.attempts e.id with
      | none =>
        refine ⟨[.alreadyHandled turn.markedAt, .lastSeen turn.seenTie,
          .returned (.error error) turn.markedAt, .readAttempts], ?_⟩
        simp [run, stepAlone, workerStep, hdone, hattempts]
      | some attempts =>
        refine ⟨[.alreadyHandled turn.markedAt, .lastSeen turn.seenTie,
          .returned (.error error) turn.markedAt, .readAttempts, .updateFailed], ?_⟩
        simp [run, stepAlone, workerStep, hdone, hattempts]

/-- **A call of `process_once` is a run of the worker.** -/
theorem exists_run_processOnce (bus : SqliteBus) (w : ℕ) (turn : Turn) (db : Database) :
    ∃ actions, run (bus.stepAlone w) (db, .idle) actions =
      some ((bus.processOnce turn db).1, .idle) := by
  rw [processOnce]
  rcases bus.claimNext_cases db turn.claimedAt turn.tie with ⟨hnone, hclaim⟩ | ⟨row, hrow, hclaim⟩
  · refine ⟨[.poll turn.claimedAt, .claim turn.tie], ?_⟩
    simp [run, stepAlone, workerStep, hclaim]
  · cases hdecode : bus.serde.fromStr row.envelope with
    | error error =>
      refine ⟨[.poll turn.claimedAt, .claim turn.tie], ?_⟩
      simp [run, stepAlone, workerStep, hclaim, hdecode, Except.map]
    | ok e =>
      obtain ⟨actions, hactions⟩ := bus.exists_run_processClaimed w turn
        (db.updateClaimed row.eventId turn.claimedAt) e
      refine ⟨[.poll turn.claimedAt, .claim turn.tie] ++ actions, run_append_eq_some
        (m := (db.updateClaimed row.eventId turn.claimedAt, .checking e)) ?_ ?_⟩
      · simp [run, stepAlone, workerStep, hclaim, hdecode, Except.map]
      · rw [hclaim, hdecode]
        exact hactions

/-- The loop of `subscribe` is a run of the worker. -/
theorem exists_run_work (bus : SqliteBus) (w : ℕ) (turns : List Turn) (db : Database) :
    ∃ actions, run (bus.stepAlone w) (db, .idle) actions = some (bus.work db turns, .idle) := by
  induction turns generalizing db with
  | nil => exact ⟨[], rfl⟩
  | cons turn turns ih =>
    obtain ⟨first, hfirst⟩ := bus.exists_run_processOnce w turn db
    obtain ⟨rest, hrest⟩ := ih (bus.processOnce turn db).1
    exact ⟨first ++ rest, run_append_eq_some hfirst hrest⟩

end SqliteBus

/-! ## One call

A call either finds nothing that is due and changes nothing, or it turns exactly one row into a row
that has been tried once more.  The measure of the loop is the number of attempts that are left,
summed up over all rows. -/

/-- How often the row can still be tried.  It is the budget less the attempts while the event waits,
and nothing afterwards. -/
def OutboxRow.left (bus : SqliteBus) (r : OutboxRow) : ℕ :=
  if r.claimable then (bus.budget - r.attempts.toInt).toNat else 0

/-- How often rows can still be tried. -/
def Database.left (bus : SqliteBus) (db : Database) : ℕ :=
  (db.outbox.rows.map (OutboxRow.left bus)).sum

/-- No event is being worked on, and all can be. -/
structure Workable (bus : SqliteBus) (db : Database) : Prop where
  quiet : ∀ r ∈ db.outbox.rows, r.status ≠ .inProgress
  decodes : ∀ r ∈ db.outbox.rows, ∃ e, bus.serde.fromStr r.envelope = .ok e ∧ e.id = r.eventId
  fresh : ∀ r ∈ db.outbox.rows, r.claimable = true → db.alreadyHandled r.eventId = false
  attempts : ∀ r ∈ db.outbox.rows, r.claimable = true →
    ∃ n : ℕ, r.attempts.toInt = n ∧ (n : ℤ) < bus.budget

/-- What becomes of the row of an event that was tried. -/
inductive Tried (bus : SqliteBus) (turn : Turn) (r : OutboxRow) (e : EventEnvelope)
    (seen : Option Uuid) : OutboxRow → Prop
  | acked (hresult : turn.handler e seen = .ok ()) :
      Tried bus turn r e seen ((r.claimed turn.claimedAt).acked turn.markedAt)
  | failed (error : String) (hresult : turn.handler e seen = .error error) :
      Tried bus turn r e seen ((r.claimed turn.claimedAt).failed
        (bus.failureStatus (r.attempts + 1))
        (r.attempts + 1) ("handler nack: " ++ error) turn.markedAt)

/-- What a call does: it finds nothing, or it has tried one row, which was one of those that are due
and has stayed in its place. -/
inductive Turned (bus : SqliteBus) (turn : Turn) (db : Database) :
    Database × Except String Bool → Prop
  | nothing (hnone : ∀ r ∈ db.outbox.rows, r.due turn.claimedAt = false) :
      Turned bus turn db (db, .ok false)
  | tried (before behind : List OutboxRow) (r r' : OutboxRow) (e : EventEnvelope)
      (seen : Option Uuid)
      (db' : Database) (hrows : db.outbox.rows = before ++ r :: behind)
      (hdue : r.due turn.claimedAt = true) (hdecode : bus.serde.fromStr r.envelope = .ok e)
      (htried : Tried bus turn r e seen r') (hrows' : db'.outbox.rows = before ++ r' :: behind)
      (hfresh : r'.claimable = true → db'.alreadyHandled r.eventId = false)
      (hothers : ∀ id, id ≠ r.eventId → db'.alreadyHandled id = db.alreadyHandled id) :
      Turned bus turn db (db', .ok true)

namespace Workable

variable {bus : SqliteBus} {db : Database} {turn : Turn}

/-- **Every call is one of these.**  The row that is tried decodes, it has not been handled yet, and
its attempts are still below the budget. -/
theorem turned (h : Workable bus db) (turn : Turn) :
    Turned bus turn db (bus.processOnce turn db) := by
  rw [SqliteBus.processOnce]
  rcases bus.claimNext_cases db turn.claimedAt turn.tie with ⟨hnone, hclaim⟩ | ⟨r, hr, hclaim⟩
  · rw [hclaim]
    exact .nothing (Database.nextDue_eq_none_iff.1 hnone)
  obtain ⟨hlookup, hclaimable, hdue, -⟩ := Database.nextDue_eq_some hr
  have hmem := KeyedTable.mem_of_lookup hlookup
  obtain ⟨before, behind, hrows⟩ := List.append_of_mem hmem
  obtain ⟨e, hdecode, hid⟩ := h.decodes r hmem
  have hdue' : r.due turn.claimedAt = true := by simp [OutboxRow.due, hclaimable, hdue]
  rw [hclaim, hdecode]
  show Turned bus turn db
    (bus.processClaimed turn e (db.updateClaimed r.eventId turn.claimedAt), .ok true)
  have hclaimed : (db.updateClaimed r.eventId turn.claimedAt).outbox.rows =
      before ++ r.claimed turn.claimedAt :: behind :=
    KeyedTable.rows_updateWhere_of_split (fun r _ ↦ r.eventId_claimed turn.claimedAt) hrows
      (by simp [hclaimable]) fun s hs ↦ (of_decide_eq_true hs).1
  have hfresh : (db.updateClaimed r.eventId turn.claimedAt).alreadyHandled e.id = false :=
    hid ▸ h.fresh r hmem hclaimable
  rw [SqliteBus.processClaimed, if_neg (by rw [hfresh]; decide)]
  -- the row is claimed and held; now the handler decides
  cases hresult : turn.handler e
    ((db.updateClaimed r.eventId turn.claimedAt).lastSeen turn.seenTie) with
  | ok =>
    refine .tried before behind r _ e _ _ hrows hdue' hdecode (.acked hresult) ?_
      (fun hc ↦ by cases hc)
      fun id hne ↦ ?_
    · exact KeyedTable.rows_updateWhere_of_split (fun r _ ↦ r.eventId_acked turn.markedAt) hclaimed
        (by simp [OutboxRow.claimed, hid]) fun s hs ↦ (of_decide_eq_true hs).trans hid
    · exact Database.alreadyHandled_markHandled_of_ne turn.markedAt (hid ▸ hne)
  | error error =>
    have hattempts : (db.updateClaimed r.eventId turn.claimedAt).attempts e.id =
      some r.attempts := by
      rw [Database.attempts, hid, Database.lookup_updateClaimed_self hlookup hclaimable]
      rfl
    rw [hattempts]
    refine .tried before behind r _ e _ _ hrows hdue' hdecode (.failed error hresult) ?_
      (fun _ ↦ h.fresh r hmem hclaimable) fun _ _ ↦ rfl
    exact KeyedTable.rows_updateWhere_of_split (fun r _ ↦ r.eventId_failed _ _ _ turn.markedAt)
      hclaimed
      (by simp [OutboxRow.claimed, hid]) fun s hs ↦ (of_decide_eq_true hs).trans hid

end Workable

namespace Tried

variable {bus : SqliteBus} {turn : Turn} {r r' : OutboxRow} {e : EventEnvelope} {seen : Option Uuid}
  {n : ℕ}

theorem eventId_eq (h : Tried bus turn r e seen r') : r'.eventId = r.eventId := by
  cases h <;> rfl

theorem envelope_eq (h : Tried bus turn r e seen r') : r'.envelope = r.envelope := by
  cases h <;> rfl

/-- The event is acked, or given up, or it waits for another attempt. -/
theorem cases_status (h : Tried bus turn r e seen r') (hn : r.attempts.toInt = n)
    (hlt : (n : ℤ) < bus.budget) :
    (r'.status = .acked ∧ turn.handler e seen = .ok ()) ∨
      (∃ error, turn.handler e seen = .error error) ∧
        (r'.status = .dlq ∨ r'.status = .retrying ∧ r'.attempts.toInt = (n + 1 : ℕ) ∧
          ((n + 1 : ℕ) : ℤ) < bus.budget) := by
  cases h with
  | acked hresult => exact Or.inl ⟨rfl, hresult⟩
  | failed error hresult =>
    refine Or.inr ⟨⟨error, hresult⟩, ?_⟩
    obtain ⟨hnext, ⟨hstatus, -⟩ | ⟨hstatus, hless⟩⟩ := bus.failureStatus_cases hn hlt
    · exact Or.inl hstatus
    · exact Or.inr ⟨hstatus, hnext, hless.trans_le (Int.le_max_right ..)⟩

/-- **A call uses up an attempt.**  The event is acked or given up, and then none are left, or
`attempts` has gone up by one. -/
theorem left_lt (h : Tried bus turn r e seen r') (hclaimable : r.claimable = true)
    (hn : r.attempts.toInt = n) (hlt : (n : ℤ) < bus.budget) : r'.left bus < r.left bus := by
  rw [OutboxRow.left, OutboxRow.left, if_pos hclaimable, hn]
  rcases h.cases_status hn hlt with ⟨hstatus, -⟩ | ⟨-, hstatus | ⟨hstatus, hnext, hless⟩⟩
  · rw [if_neg (by simp [OutboxRow.claimable, hstatus])]
    omega
  · rw [if_neg (by simp [OutboxRow.claimable, hstatus])]
    omega
  · rw [if_pos (by simp [OutboxRow.claimable, hstatus]), hnext]
    push_cast at hless ⊢
    omega

/-- The next attempt is due before the poll interval has passed. -/
theorem nextAttemptAt_le (h : Tried bus turn r e seen r') {start : Instant}
    (hr : r.nextAttemptAt ≤ start + backoff) (hstart : start ≤ turn.markedAt) :
    r'.nextAttemptAt ≤ turn.markedAt + backoff := by
  cases h with
  | acked => exact hr.trans (Nat.add_le_add_right hstart _)
  | failed => exact le_rfl

end Tried

/-! ## One call after the other

What a call needs, it also leaves behind, so the loop can go on.  That every row is due before the
next call but one comes from the difference between the two waiting times of the code. -/

section Turned

variable {bus : SqliteBus} {turn : Turn} {db : Database} {call : Database × Except String Bool}

theorem left_split {before behind : List OutboxRow} {r : OutboxRow}
    (h : db.outbox.rows = before ++ r :: behind) :
    db.left bus = (before.map (OutboxRow.left bus)).sum +
      (r.left bus + (behind.map (OutboxRow.left bus)).sum) := by
  rw [Database.left, h, List.map_append, List.sum_append, List.map_cons, List.sum_cons]

/-- The rows stay workable, and a call that returns `Ok(true)` uses up an attempt. -/
theorem Turned.workable (h : Turned bus turn db call) (hdb : Workable bus db) :
    Workable bus call.1 ∧ (call.2 = .ok true → call.1.left bus < db.left bus) := by
  cases h with
  | nothing hnone => exact ⟨hdb, fun h ↦ by cases h⟩
  | tried before behind r r' e seen db' hrows hdue hdecode htried hrows' hfresh hothers =>
    have hmem : r ∈ db.outbox.rows := hrows ▸ List.mem_append_right _ List.mem_cons_self
    have hclaimable : r.claimable = true := (of_decide_eq_true hdue).1
    obtain ⟨n, hn, hlt⟩ := hdb.attempts r hmem hclaimable
    have hstatus := htried.cases_status hn hlt
    -- the other rows are rows of `db`, and they are not about the event
    have hother : ∀ q ∈ db'.outbox.rows, q = r' ∨ q ∈ db.outbox.rows ∧ q.eventId ≠ r.eventId := by
      intro q hq
      rw [hrows', List.mem_append, List.mem_cons] at hq
      have hne := KeyedTable.key_ne_of_split hrows q
      simp only [hrows, List.mem_append, List.mem_cons] at hne ⊢
      tauto
    refine ⟨⟨fun q hq ↦ ?_, fun q hq ↦ ?_, fun q hq hc ↦ ?_, fun q hq hc ↦ ?_⟩, fun _ ↦ ?_⟩
    · rcases hother q hq with rfl | ⟨hq, -⟩
      · rcases hstatus with ⟨hs, -⟩ | ⟨-, hs | ⟨hs, -⟩⟩ <;> simp [hs]
      · exact hdb.quiet q hq
    · rcases hother q hq with rfl | ⟨hq, -⟩
      · rw [htried.envelope_eq, htried.eventId_eq]
        exact hdb.decodes r hmem
      · exact hdb.decodes q hq
    · rcases hother q hq with rfl | ⟨hq, hne⟩
      · rw [htried.eventId_eq]
        exact hfresh hc
      · rw [hothers q.eventId hne]
        exact hdb.fresh q hq hc
    · rcases hother q hq with rfl | ⟨hq, -⟩
      · rcases hstatus with ⟨hs, -⟩ | ⟨-, hs | ⟨hs, hnext, hless⟩⟩
        · simp [OutboxRow.claimable, hs] at hc
        · simp [OutboxRow.claimable, hs] at hc
        · exact ⟨n + 1, hnext, hless⟩
      · exact hdb.attempts q hq hc
    · show db'.left bus < db.left bus
      rw [left_split hrows, left_split hrows']
      have hless := htried.left_lt hclaimable hn hlt
      omega

/-- A call returns `Ok(true)`, or it returns `Ok(false)` and changes nothing, as no row is due. -/
theorem Turned.result_cases (h : Turned bus turn db call) :
    call.2 = .ok true ∨
      call = (db, .ok false) ∧ ∀ r ∈ db.outbox.rows, r.due turn.claimedAt = false := by
  cases h with
  | nothing hnone => exact Or.inr ⟨rfl, hnone⟩
  | tried => exact Or.inl rfl

/-- Every row is due before the poll interval has passed. -/
theorem Turned.nextAttemptAt_le (h : Turned bus turn db call) {start : Instant}
    (hdb : ∀ r ∈ db.outbox.rows, r.nextAttemptAt ≤ start + backoff)
    (hstart : start ≤ turn.markedAt) :
    ∀ r ∈ call.1.outbox.rows, r.nextAttemptAt ≤ turn.markedAt + backoff := by
  have hold : ∀ r ∈ db.outbox.rows, r.nextAttemptAt ≤ turn.markedAt + backoff :=
    fun r hr ↦ (hdb r hr).trans (Nat.add_le_add_right hstart _)
  cases h with
  | nothing hnone => exact hold
  | tried before behind r r' e seen db' hrows hdue hdecode htried hrows' hfresh hothers =>
    intro q hq
    have hq' : q ∈ before ++ r' :: behind := hrows' ▸ hq
    rw [List.mem_append, List.mem_cons] at hq'
    rw [hrows] at hold hdb
    rcases hq' with hq | rfl | hq
    · exact hold q (List.mem_append_left _ hq)
    · exact htried.nextAttemptAt_le (hdb r (List.mem_append_right _ List.mem_cons_self)) hstart
    · exact hold q (List.mem_append_right _ (List.mem_cons_of_mem _ hq))

end Turned

/-! ## The loop

By induction on the calls.  The measure goes down at every call that finds something, and of two
calls at least one does. -/

/-- Every event has been acked or given up. -/
def Database.Settled (db : Database) : Prop :=
  ∀ r ∈ db.outbox.rows, r.status = .acked ∨ r.status = .dlq

namespace Workable

variable {bus : SqliteBus} {db : Database} {start delay : Instant} {turns : List Turn}

theorem left_eq_zero (hnone : ∀ r ∈ db.outbox.rows, r.claimable = false) : db.left bus = 0 := by
  refine List.sum_eq_zero_iff_forall_eq_nat.2 fun n hn ↦ ?_
  obtain ⟨r, hr, rfl⟩ := List.mem_map.1 hn
  rw [OutboxRow.left, if_neg (by simp [hnone r hr])]

/-- When no attempt is left, everything is settled. -/
theorem settled (h : Workable bus db) (hleft : db.left bus = 0) : db.Settled := by
  intro r hr
  have hzero : r.left bus = 0 :=
    List.sum_eq_zero_iff_forall_eq_nat.1 hleft _ (List.mem_map_of_mem hr)
  have hnot : r.claimable ≠ true := by
    intro hclaimable
    obtain ⟨n, hn, hlt⟩ := h.attempts r hr hclaimable
    rw [OutboxRow.left, if_pos hclaimable, hn] at hzero
    omega
  have hquiet := h.quiet r hr
  cases hstatus : r.status <;> simp [OutboxRow.claimable, hstatus] at hnot hquiet ⊢

/-- **The loop gets to the end.**  Every row is due when `delay` has passed, which is not longer
than a failed event waits.  As long as an attempt is left, of two calls at least one uses one up. -/
theorem settled_of_timely (h : Workable bus db)
    (hdue : ∀ r ∈ db.outbox.rows, r.nextAttemptAt ≤ start + delay) (hdelay : delay ≤ backoff)
    (htimely : Timely bus start db turns)
    (hturns : 2 * db.left bus + (if delay = 0 then 0 else 1) ≤ turns.length) :
    (bus.work db turns).Settled := by
  induction turns generalizing db start delay with
  | nil => exact h.settled (by rw [List.length_nil] at hturns; omega)
  | cons turn turns ih =>
    obtain ⟨hstart, hmarked, hrest⟩ := htimely
    rw [List.length_cons] at hturns
    have hturned : Turned bus turn db (bus.processOnce turn db) := h.turned turn
    show (bus.work (bus.processOnce turn db).1 turns).Settled
    generalize bus.processOnce turn db = call at hturned hrest ⊢
    obtain ⟨hworkable, hless⟩ := hturned.workable h
    rcases hturned.result_cases with hresult | ⟨hcall, hnone⟩
    -- an attempt is used up, and from now on a failed event waits `backoff`
    · rw [hresult] at hrest
      have hbackoff := hturned.nextAttemptAt_le
        (fun r hr ↦ (hdue r hr).trans (Nat.add_le_add_left hdelay _)) (hstart.trans hmarked)
      refine ih hworkable hbackoff le_rfl hrest ?_
      have hless' := hless hresult
      have hpositive : backoff ≠ 0 := by decide
      rw [if_neg hpositive]
      omega
    -- nothing was due; after the sleep everything is
    · subst hcall
      have hlong : backoff ≤ pollInterval := by decide
      have hslept : start + delay ≤ turn.claimedAt + pollInterval :=
        Nat.add_le_add hstart (hdelay.trans hlong)
      have hall : ∀ r ∈ db.outbox.rows, r.nextAttemptAt ≤ turn.claimedAt + pollInterval + 0 :=
        fun r hr ↦ (hdue r hr).trans hslept
      refine ih h hall (Nat.zero_le _) hrest ?_
      show 2 * db.left bus + 0 ≤ turns.length
      split at hturns
      · -- all rows were due, so none can be claimed
        rename_i hzero
        subst hzero
        have hleft : db.left bus = 0 := left_eq_zero fun r hr ↦ by
          have hnot := hnone r hr
          rw [OutboxRow.due, decide_eq_false_iff_not, not_and] at hnot
          exact Bool.eq_false_iff.2 fun hclaimable ↦ hnot hclaimable ((hdue r hr).trans hstart)
        omega
      · omega

end Workable

/-! ## Where an event ends

If a handler always answers an event in the same way, the attempts of one event are all alike, and
the order in which the events are tried makes no difference to where they end. -/

/-- The status the row of an event comes to, if the handler always answers the same. -/
def OutboxRow.verdict (bus : SqliteBus) (answer : EventEnvelope → Except String Unit)
    (r : OutboxRow) :
    Option Status :=
  (bus.serde.fromStr r.envelope).toOption.map fun e ↦ if (answer e).isOk then .acked else .dlq

/-- The row is as it was, or the event was waiting, and it still waits or it is where it ends. -/
structure Judged (bus : SqliteBus) (answer : EventEnvelope → Except String Unit)
    (r r' : OutboxRow) :
    Prop where
  eventId : r'.eventId = r.eventId
  envelope : r'.envelope = r.envelope
  outcome : r' = r ∨ r.claimable = true ∧
    (r'.claimable = true ∨ some r'.status = r.verdict bus answer)

section Judged

variable {bus : SqliteBus} {answer : EventEnvelope → Except String Unit} {r r' r'' : OutboxRow}

theorem Judged.refl (r : OutboxRow) : Judged bus answer r r := ⟨rfl, rfl, Or.inl rfl⟩

theorem Judged.trans (h : Judged bus answer r r') (h' : Judged bus answer r' r'') :
    Judged bus answer r r'' := by
  refine ⟨h'.eventId.trans h.eventId, h'.envelope.trans h.envelope, ?_⟩
  have hverdict : r'.verdict bus answer = r.verdict bus answer := by
    rw [OutboxRow.verdict, OutboxRow.verdict, h.envelope]
  rcases h.outcome with rfl | ⟨hclaimable, hr'⟩
  · exact h'.outcome
  · rcases h'.outcome with rfl | ⟨-, hr''⟩
    · exact Or.inr ⟨hclaimable, hr'⟩
    · exact Or.inr ⟨hclaimable, hverdict ▸ hr''⟩

theorem Tried.judged {turn : Turn} {e : EventEnvelope} {seen : Option Uuid} {n : ℕ}
    (h : Tried bus turn r e seen r') (hclaimable : r.claimable = true) (hn : r.attempts.toInt = n)
    (hlt : (n : ℤ) < bus.budget) (hdecode : bus.serde.fromStr r.envelope = .ok e)
    (hanswer : turn.handler e seen = answer e) : Judged bus answer r r' := by
  refine ⟨h.eventId_eq, h.envelope_eq, Or.inr ⟨hclaimable, ?_⟩⟩
  rw [OutboxRow.verdict, hdecode]
  show r'.claimable = true ∨ some r'.status = some (if (answer e).isOk then .acked else .dlq)
  rw [← hanswer]
  rcases h.cases_status hn hlt with ⟨hstatus, hresult⟩ | ⟨⟨error, hresult⟩, hstatus | ⟨hstatus, -⟩⟩
  · rw [hresult, hstatus]
    exact Or.inr rfl
  · rw [hresult, hstatus]
    exact Or.inr rfl
  · exact Or.inl (by simp [OutboxRow.claimable, hstatus])

theorem Turned.judged {turn : Turn} {db : Database} {call : Database × Except String Bool}
    (h : Turned bus turn db call) (hdb : Workable bus db)
    (hanswer : ∀ e seen, turn.handler e seen = answer e) :
    ∀ r ∈ db.outbox.rows, ∃ r' ∈ call.1.outbox.rows, Judged bus answer r r' := by
  cases h with
  | nothing => exact fun r hr ↦ ⟨r, hr, .refl r⟩
  | tried before behind r r' e seen db' hrows hdue hdecode htried hrows' hfresh hothers =>
    intro q hq
    show ∃ q' ∈ db'.outbox.rows, Judged bus answer q q'
    rw [hrows']
    have hq' : q ∈ before ++ r :: behind := hrows ▸ hq
    rw [List.mem_append, List.mem_cons] at hq'
    rcases hq' with hq' | rfl | hq'
    · exact ⟨q, List.mem_append_left _ hq', .refl q⟩
    · have hclaimable : q.claimable = true := (of_decide_eq_true hdue).1
      obtain ⟨n, hn, hlt⟩ := hdb.attempts q hq hclaimable
      exact ⟨r', List.mem_append_right _ List.mem_cons_self,
        htried.judged hclaimable hn hlt hdecode (hanswer e seen)⟩
    · exact ⟨q, List.mem_append_right _ (List.mem_cons_of_mem _ hq'), .refl q⟩

/-- **The loop judges every row.** -/
theorem Workable.judged {db : Database} {turns : List Turn} (h : Workable bus db)
    (hanswer : ∀ turn ∈ turns, ∀ e seen, turn.handler e seen = answer e) :
    ∀ r ∈ db.outbox.rows, ∃ r' ∈ (bus.work db turns).outbox.rows, Judged bus answer r r' := by
  induction turns generalizing db with
  | nil => exact fun r hr ↦ ⟨r, hr, .refl r⟩
  | cons turn turns ih =>
    rw [List.forall_mem_cons] at hanswer
    have hturned : Turned bus turn db (bus.processOnce turn db) := h.turned turn
    intro r hr
    obtain ⟨r', hr', hfirst⟩ := hturned.judged h hanswer.1 r hr
    obtain ⟨r'', hr'', hrest⟩ := ih (hturned.workable h).1 hanswer.2 r' hr'
    exact ⟨r'', hr'', hfirst.trans hrest⟩

end Judged

/-! ## In a world

The assumptions of the loop, for a database that a bus has reached in any way it likes: nothing is
in progress, and the envelopes that were accepted decode. -/

namespace World

variable {bus : SqliteBus} {s : World}

/-- A reachable database in which no event is in progress can be worked on. -/
theorem workable_of_reachable (hs : Reachable (step bus) initial s)
    (hdecodes : ∀ e ∈ s.acceptedEnvelopes, ∀ text, bus.serde.toString e = .ok text →
      ∃ e', bus.serde.fromStr text = .ok e')
    (hquiet : ∀ r ∈ s.db.outbox.rows, r.status ≠ .inProgress) : Workable bus s.db := by
  have hsound := sound_of_reachable hs
  have hview : ∀ r ∈ s.db.outbox.rows, (s.view r.eventId).row = some r :=
    fun r hr ↦ KeyedTable.lookup_of_mem hr
  refine ⟨hquiet, fun r hr ↦ ?_, fun r hr hclaimable ↦ ?_, fun r hr hclaimable ↦ ?_⟩
  · have hmem : r.stored ∈ (s.acceptedEnvelopes.firsts EventEnvelope.id).map bus.stored :=
      storesFirsts_of_reachable hs ▸ List.mem_map_of_mem hr
    obtain ⟨e, he, hstored⟩ := List.mem_map.1 hmem
    obtain ⟨-, htext⟩ := Prod.mk.inj hstored
    obtain ⟨e', hdecode⟩ := hdecodes e (List.mem_of_mem_firsts he) _ htext
    exact ⟨e', hdecode, (hsound r.eventId).encoded.id_eq (hview r hr) hdecode⟩
  · obtain ⟨-, -, -, -, hdone, -⟩ := (hsound r.eventId).phase.of_claimable (hview r hr) hclaimable
    exact hdone
  · obtain ⟨n, hn, hlt, -⟩ := (hsound r.eventId).phase.of_claimable (hview r hr) hclaimable
    exact ⟨n, hn, hlt⟩

end World

/-- **A worker that is alone drains the outbox.**  Whatever the handler answers, after twice as many
calls as there are attempts left, and one more, every event has been acked or given up.  The
accepted envelopes have to decode (a row that `claim_next` cannot decode stays `in_progress` for
good), and SQLite reports no error in these calls. -/
theorem worker_drains (bus : SqliteBus) (s : World) (w : ℕ) (start : Instant) (turns : List Turn)
    (hs : Reachable (World.step bus) .initial s)
    (hdecodes : ∀ e ∈ s.acceptedEnvelopes, ∀ text, bus.serde.toString e = .ok text →
      ∃ e', bus.serde.fromStr text = .ok e')
    (hquiet : ∀ r ∈ s.db.outbox.rows, r.status ≠ .inProgress) (hidle : s.workers w = some .idle)
    (hclock : ∀ r ∈ s.db.outbox.rows, r.nextAttemptAt ≤ start + backoff)
    (htimely : Timely bus start s.db turns) (hturns : 2 * s.db.left bus + 1 ≤ turns.length) :
    ∃ (actions : List WorkerAction) (t : World),
      run (World.step bus) s (actions.map (.work w)) = some t ∧ t.db = bus.work s.db turns ∧
      t.workers w = some .idle ∧
      (∀ r ∈ t.db.outbox.rows, r.status = .acked ∨ r.status = .dlq) ∧ t.db.pendingCount = 0 := by
  have hworkable := World.workable_of_reachable hs hdecodes hquiet
  obtain ⟨actions, hactions⟩ := bus.exists_run_work w turns s.db
  obtain ⟨t, ht, hdb, hworkers⟩ := SqliteBus.run_world_of_stepAlone hidle hactions
  have hsettled : (bus.work s.db turns).Settled :=
    hworkable.settled_of_timely hclock le_rfl htimely (by rwa [if_neg (by decide)])
  rw [← hdb] at hsettled
  refine ⟨actions, t, ht, hdb, by rw [hworkers, Function.update_self], hsettled, ?_⟩
  rw [Database.pendingCount, List.countP_eq_zero]
  intro r hr
  rcases hsettled r hr with hstatus | hstatus <;> simp [hstatus]

/-- A bus that tries every event once. -/
def onceBus : SqliteBus := { userEventsBus with maxRetries := 1 }

/-- A handler that refuses the second event. -/
def refusesSecond (e : EventEnvelope) : Except String Unit :=
  if e.id = ⟨2⟩ then .error "refused" else .ok ()

/-- A call every second. -/
def everySecond (n : ℕ) : Turn where
  claimedAt := n * 10 ^ 9
  tie := 0
  seenTie := 0
  handler := fun e _ ↦ refusesSecond e
  markedAt := n * 10 ^ 9

/-- Two events are published, and nobody has worked on them. -/
def twoEventsRun : List Action :=
  [.publish (InMemoryBus.userEvent ⟨1⟩) 1, .publish (InMemoryBus.userEvent ⟨2⟩) 2, .subscribe 0]

theorem decodes_onceBus (e : EventEnvelope) (text : String)
    (h : onceBus.serde.toString e = .ok text) :
    ∃ e', onceBus.serde.fromStr text = .ok e' :=
  ⟨e, Serde.fromStr_table (by decide) h⟩

/-- Five calls are enough. -/
theorem twoEventsRun_drained :
    ∃ s t : World, run (World.step onceBus) .initial twoEventsRun = some s ∧
    t.db = onceBus.work s.db ((List.range 5).map everySecond) ∧ t.workers 0 = some .idle ∧
    (∀ r ∈ t.db.outbox.rows, r.status = .acked ∨ r.status = .dlq) ∧ t.db.pendingCount = 0 := by
  have hruns : (run (World.step onceBus) .initial twoEventsRun).map (fun s ↦ (s.workers 0,
      s.db.outbox.rows.all fun r ↦ decide (r.status ≠ .inProgress ∧ r.nextAttemptAt ≤ 0 + backoff),
      decide (Timely onceBus 0 s.db ((List.range 5).map everySecond)), s.db.left onceBus)) =
      some (some .idle, true, true, 2) := by decide +kernel
  obtain ⟨s, hs, hend⟩ := Option.map_eq_some_iff.1 hruns
  obtain ⟨hidle, hend⟩ := Prod.mk.inj hend
  obtain ⟨hrows, hend⟩ := Prod.mk.inj hend
  obtain ⟨htimely, hleft⟩ := Prod.mk.inj hend
  have hrows' := fun r hr ↦ of_decide_eq_true (List.all_eq_true.1 hrows r hr)
  obtain ⟨actions, t, -, hdrained⟩ := worker_drains onceBus s 0 0 ((List.range 5).map everySecond)
    ⟨_, hs⟩ (fun e _ ↦ decodes_onceBus e) (fun r hr ↦ (hrows' r hr).1) hidle
    (fun r hr ↦ (hrows' r hr).2) (of_decide_eq_true htimely) (by rw [hleft]; decide)
  exact ⟨s, t, hs, hdrained⟩

/-- **Only the events the handler refuses end in the dead letter queue**, if it always answers the
same: the others are acked, and no event keeps another one from being tried.  As in `worker_drains`
the accepted envelopes decode and SQLite reports no error: an envelope that does not decode ends
neither acked nor in the dead letter queue. -/
theorem poison_goes_to_dlq (bus : SqliteBus) (s : World) (start : Instant) (turns : List Turn)
    (answer : EventEnvelope → Except String Unit) (hs : Reachable (World.step bus) .initial s)
    (hdecodes : ∀ e ∈ s.acceptedEnvelopes, ∀ text, bus.serde.toString e = .ok text →
      ∃ e', bus.serde.fromStr text = .ok e')
    (hquiet : ∀ r ∈ s.db.outbox.rows, r.status ≠ .inProgress)
    (hclock : ∀ r ∈ s.db.outbox.rows, r.nextAttemptAt ≤ start + backoff)
    (htimely : Timely bus start s.db turns) (hturns : 2 * s.db.left bus + 1 ≤ turns.length)
    (hanswer : ∀ turn ∈ turns, ∀ e seen, turn.handler e seen = answer e) (r : OutboxRow)
    (hr : r ∈ s.db.outbox.rows) (hclaimable : r.claimable = true) :
    ∃ e r', bus.serde.fromStr r.envelope = .ok e ∧
      (bus.work s.db turns).outbox.lookup r.eventId = some r' ∧
      r'.status = if (answer e).isOk then .acked else .dlq := by
  have hworkable := World.workable_of_reachable hs hdecodes hquiet
  have hsettled : (bus.work s.db turns).Settled :=
    hworkable.settled_of_timely hclock le_rfl htimely (by rwa [if_neg (by decide)])
  obtain ⟨e, hdecode, -⟩ := hworkable.decodes r hr
  obtain ⟨r', hr', hjudged⟩ := hworkable.judged hanswer r hr
  have hnot : r'.claimable = false := by
    rcases hsettled r' hr' with hstatus | hstatus <;> simp [OutboxRow.claimable, hstatus]
  refine ⟨e, r', hdecode, hjudged.eventId ▸ KeyedTable.lookup_of_mem hr', ?_⟩
  have hverdict : some r'.status = r.verdict bus answer := by
    rcases hjudged.outcome with rfl | ⟨-, hclaimable' | hverdict⟩
    · rw [hclaimable] at hnot
      cases hnot
    · rw [hclaimable'] at hnot
      cases hnot
    · exact hverdict
  rw [OutboxRow.verdict, hdecode] at hverdict
  exact Option.some_inj.1 hverdict

/-- The second event is given up, and the first one is not. -/
theorem twoEventsRun_judged : ∃ s, run (World.step onceBus) .initial twoEventsRun = some s ∧
    ∀ r ∈ s.db.outbox.rows, ∃ e r', onceBus.serde.fromStr r.envelope = .ok e ∧
      (onceBus.work s.db ((List.range 5).map everySecond)).outbox.lookup r.eventId = some r' ∧
      r'.status = if (refusesSecond e).isOk then .acked else .dlq := by
  have hruns : (run (World.step onceBus) .initial twoEventsRun).map (fun s ↦
      (s.db.outbox.rows.all fun r ↦ decide (r.status ≠ .inProgress ∧ r.nextAttemptAt ≤ 0 + backoff ∧
        r.claimable = true),
      decide (Timely onceBus 0 s.db ((List.range 5).map everySecond)), s.db.left onceBus)) =
      some (true, true, 2) := by decide +kernel
  obtain ⟨s, hs, hend⟩ := Option.map_eq_some_iff.1 hruns
  obtain ⟨hrows, hend⟩ := Prod.mk.inj hend
  obtain ⟨htimely, hleft⟩ := Prod.mk.inj hend
  have hrows' := fun r hr ↦ of_decide_eq_true (List.all_eq_true.1 hrows r hr)
  exact ⟨s, hs, fun r hr ↦
    poison_goes_to_dlq onceBus s 0 ((List.range 5).map everySecond) refusesSecond ⟨_, hs⟩
      (fun e _ ↦ decodes_onceBus e) (fun r hr ↦ (hrows' r hr).1) (fun r hr ↦ (hrows' r hr).2.1)
      (of_decide_eq_true htimely) (by rw [hleft]; decide) (by simp [everySecond]) r hr
      (hrows' r hr).2.2⟩

end PhenoEvents
