import Mathlib.Order.OrderDual
import PhenoEvents.Envelope
import PhenoEvents.Library.KeyedTable

/-!
# The tables of the bus

The two tables of `SqliteBus` and the statements its methods send to them.  Each statement and each
transaction is a function from a `Database` to a `Database`: SQLite runs them one at a time.
`mark_failed` is two statements, `attempts` and `updateFailed`, with an await between them.

The value of the clock is always an argument, and nothing relates the readings of two operations.
Where a query orders by a column, the choice between rows that tie is an argument as well.

## What is here

* `OutboxRow` and `HandledRow`, with the columns the methods read or write, and `Database`, which
  has a table of each.  The primary key of both tables is `event_id`.
* `OutboxRow.new`, `claimed`, `acked` and `failed`: the row an `INSERT` or an `UPDATE` leaves
  behind, each with exactly the columns the statement sets.  No statement sets the key or the text.
* The statements, from `insertEvent` to `updateFailed`, and the queries, from `nextDue` to
  `alreadyHandled`.
* `SqliteBus.publish`, `claimNext` and `recordFailure`, the methods that are put together from them.
* For each `UPDATE` there are two lemmas: what it does to the row it is about, and that it leaves
  every other row alone.
* `claimNext_cases`, all that a caller of `claim_next` has to know.

`recordFailure` writes the number of attempts it is given, which is the one that was read before the
await.  That nobody else has written the row in between is a theorem about the workers, and nothing
this file could say.
-/

set_option autoImplicit false

namespace PhenoEvents

open Except

/-- The `status` column. -/
inductive Status
  | pending
  | retrying
  | inProgress
  | acked
  | dlq
  deriving DecidableEq

/-- A row of `outbox`. -/
structure OutboxRow where
  eventId : Uuid
  envelope : String
  status : Status
  attempts : Int64
  nextAttemptAt : Instant
  lastError : Option String
  createdAt : Instant
  updatedAt : Instant
  deriving DecidableEq

/-- A row of `handled_events`. -/
structure HandledRow where
  eventId : Uuid
  handledAt : Instant
  deriving DecidableEq

/-- The tables `migrate` creates. -/
structure Database where
  outbox : KeyedTable OutboxRow.eventId
  handledEvents : KeyedTable HandledRow.eventId

/-- The tables as `migrate` creates them. -/
def Database.empty : Database := ⟨.empty, .empty⟩

/-- `SqliteBus`: what a bus and its clones share, besides the database. -/
structure SqliteBus where
  serde : Serde
  maxRetries : Int64 := 3

/-- `Ack`. -/
structure Ack where
  eventId : Uuid
  duplicate : Bool
  deriving DecidableEq

/-- `PublishError`, apart from the errors SQLite raises. -/
inductive PublishError
  | invalidEnvelope (error : EnvelopeError)
  | encode (message : String)
  deriving DecidableEq

/-- `status IN ('pending', 'retrying')`. -/
def OutboxRow.claimable (r : OutboxRow) : Bool := r.status = .pending ∨ r.status = .retrying

/-- The rows `claim_next` selects: they can be claimed, and the time of their next attempt has come.
-/
def OutboxRow.due (now : Instant) (r : OutboxRow) : Bool := r.claimable ∧ r.nextAttemptAt ≤ now

/-- The row `publish` inserts. -/
def OutboxRow.new (eventId : Uuid) (envelope : String) (now : Instant) : OutboxRow where
  eventId := eventId
  envelope := envelope
  status := .pending
  attempts := 0
  nextAttemptAt := now
  lastError := none
  createdAt := now
  updatedAt := now

/-- A claimed row. -/
def OutboxRow.claimed (now : Instant) (r : OutboxRow) : OutboxRow :=
  { r with status := .inProgress, updatedAt := now }

/-- An acked row. -/
def OutboxRow.acked (now : Instant) (r : OutboxRow) : OutboxRow :=
  { r with status := .acked, updatedAt := now }

/-- A row after a nack: ten milliseconds until the next attempt, by the reading of the clock that
`mark_failed` has made. -/
def OutboxRow.failed (status : Status) (attempts : Int64) (error : String) (now : Instant)
    (r : OutboxRow) : OutboxRow :=
  { r with
    status := status
    attempts := attempts
    nextAttemptAt := now + 10 * 1000 * 1000
    lastError := some error
    updatedAt := now }

theorem OutboxRow.eventId_claimed (now : Instant) (r : OutboxRow) :
    (r.claimed now).eventId = r.eventId := rfl

theorem OutboxRow.eventId_acked (now : Instant) (r : OutboxRow) :
    (r.acked now).eventId = r.eventId := rfl

theorem OutboxRow.eventId_failed (status : Status) (attempts : Int64) (error : String)
    (now : Instant) (r : OutboxRow) : (r.failed status attempts error now).eventId = r.eventId :=
  rfl

namespace Database

/-! ## Statements

Each is named after what it does to the table, and has the text of the statement in the method it is
part of.  A statement that finds no row does nothing, as in SQL. -/

/-- The `INSERT OR IGNORE` of `publish`. -/
def insertEvent (eventId : Uuid) (envelope : String) (now : Instant) (db : Database) : Database :=
  { db with outbox := db.outbox.insertOrIgnore (.new eventId envelope now) }

/-- The `SELECT` of `claim_next`. -/
def nextDue (now : Instant) (tie : ℕ) (db : Database) : Option OutboxRow :=
  db.outbox.firstBy (OutboxRow.due now) OutboxRow.createdAt tie

/-- The `UPDATE` of `claim_next`. -/
def updateClaimed (eventId : Uuid) (now : Instant) (db : Database) : Database :=
  { db with
    outbox := db.outbox.updateWhere (fun r ↦ r.eventId = eventId ∧ r.claimable)
      (OutboxRow.claimed now) fun r _ ↦ r.eventId_claimed now }

/-- The rows that `UPDATE` affects. -/
def countClaimable (eventId : Uuid) (db : Database) : ℕ :=
  db.outbox.rows.countP fun r : OutboxRow ↦ r.eventId = eventId ∧ r.claimable

/-- The second `UPDATE` of `mark_handled`. -/
def updateAcked (eventId : Uuid) (now : Instant) (db : Database) : Database :=
  { db with
    outbox := db.outbox.updateWhere (fun r ↦ r.eventId = eventId) (OutboxRow.acked now)
      fun r _ ↦ r.eventId_acked now }

/-- The `UPDATE` of `mark_failed`. -/
def updateFailed (eventId : Uuid) (status : Status) (attempts : Int64) (error : String)
    (now : Instant) (db : Database) : Database :=
  { db with
    outbox := db.outbox.updateWhere (fun r ↦ r.eventId = eventId)
      (OutboxRow.failed status attempts error now)
      fun r _ ↦ r.eventId_failed status attempts error now }

/-- `SqliteBus::status`. -/
def status (eventId : Uuid) (db : Database) : Option Status :=
  (db.outbox.lookup eventId).map OutboxRow.status

/-- `SqliteBus::attempts`, which is also the `SELECT` of `mark_failed`. -/
def attempts (eventId : Uuid) (db : Database) : Option Int64 :=
  (db.outbox.lookup eventId).map OutboxRow.attempts

/-- `SqliteBus::last_error`. -/
def lastError (eventId : Uuid) (db : Database) : Option String :=
  (db.outbox.lookup eventId).bind OutboxRow.lastError

/-- `SqliteBus::pending_count`. -/
def pendingCount (db : Database) : ℕ :=
  db.outbox.rows.countP fun r : OutboxRow ↦
    r.status = .pending ∨ r.status = .retrying ∨ r.status = .inProgress

/-- `SqliteBus::dlq_count`. -/
def dlqCount (db : Database) : ℕ := db.outbox.rows.countP fun r : OutboxRow ↦ r.status = .dlq

/-- `SqliteBus::last_seen`: the event handled last. -/
def lastSeen (tie : ℕ) (db : Database) : Option Uuid :=
  (db.handledEvents.firstBy (fun _ ↦ true) (fun r ↦ OrderDual.toDual r.handledAt) tie).map
    HandledRow.eventId

/-- `SqliteBus::already_handled`. -/
def alreadyHandled (eventId : Uuid) (db : Database) : Bool :=
  0 < db.handledEvents.rows.countP fun r : HandledRow ↦ r.eventId = eventId

/-- `SqliteBus::mark_handled`. -/
def markHandled (eventId : Uuid) (now : Instant) (db : Database) : Database :=
  updateAcked eventId now
    { db with handledEvents := db.handledEvents.insertOrIgnore ⟨eventId, now⟩ }

end Database

namespace SqliteBus

/-! ## Methods

`publish` checks the envelope before it asks for its text, so an invalid envelope is rejected even
where it could not be written down.  `claimNext` is one transaction: the `SELECT`, the `UPDATE` of
the row that was selected, the count of the rows the `UPDATE` has changed, and the commit.  Only
then is the text decoded, so a row that does not decode stays claimed. -/

/-- `SqliteBus::publish`. -/
def publish (bus : SqliteBus) (envelope : EventEnvelope) (now : Instant) (db : Database) :
    Except PublishError (Database × Ack) := do
  envelope.validate.mapError .invalidEnvelope
  let envelopeJson ← (bus.serde.toString envelope).mapError .encode
  return (db.insertEvent envelope.id envelopeJson now,
    ⟨envelope.id, (db.outbox.lookup envelope.id).isSome⟩)

/-- `SqliteBus::claim_next`.  The transaction is committed before the envelope is decoded. -/
def claimNext (bus : SqliteBus) (now : Instant) (tie : ℕ) (db : Database) :
    Database × Except String (Option EventEnvelope) :=
  match db.nextDue now tie with
  | none => (db, .ok none)
  | some row =>
    if db.countClaimable row.eventId = 0 then (db.updateClaimed row.eventId now, .ok none)
    else (db.updateClaimed row.eventId now, (bus.serde.fromStr row.envelope).map some)

/-- The status `mark_failed` writes. -/
def failureStatus (bus : SqliteBus) (nextAttempts : Int64) : Status :=
  if nextAttempts ≥ bus.maxRetries then .dlq else .retrying

/-- What `mark_failed` does once it has read `attempts`: it writes the next number, and a status
that depends on that number. -/
def recordFailure (bus : SqliteBus) (eventId : Uuid) (attempts : Int64) (error : String)
    (now : Instant) (db : Database) : Database :=
  let nextAttempts := attempts + 1
  db.updateFailed eventId (bus.failureStatus nextAttempts) nextAttempts error now

end SqliteBus

/-! ## What the statements do to one row

The lemmas by which everything else is proved.  A statement about one event is a lookup that changes
for its id (`…_self`) and for no other (`…_of_ne`). -/

namespace Database

variable {db : Database} {id k : Uuid} {r : OutboxRow}

theorem lookup_insertEvent_self (text : String) (now : Instant) :
    (db.insertEvent id text now).outbox.lookup id =
      some ((db.outbox.lookup id).getD (.new id text now)) :=
  db.outbox.lookup_insertOrIgnore_self (.new id text now)

theorem lookup_insertEvent_of_ne (text : String) (now : Instant) (h : k ≠ id) :
    (db.insertEvent id text now).outbox.lookup k = db.outbox.lookup k :=
  db.outbox.lookup_insertOrIgnore_of_ne (r := .new id text now) h.symm

theorem nextDue_eq_some {now : Instant} {tie : ℕ} (h : db.nextDue now tie = some r) :
    db.outbox.lookup r.eventId = some r ∧ r.claimable = true ∧ r.nextAttemptAt ≤ now ∧
      ∀ s ∈ db.outbox.rows, s.due now = true → r.createdAt ≤ s.createdAt := by
  obtain ⟨hr, hdue, hle⟩ := KeyedTable.firstBy_eq_some h
  rw [OutboxRow.due, decide_eq_true_eq] at hdue
  exact ⟨KeyedTable.lookup_of_mem hr, hdue.1, hdue.2, hle⟩

/-- The query comes back empty only if nothing is due. -/
theorem nextDue_eq_none_iff {now : Instant} {tie : ℕ} :
    db.nextDue now tie = none ↔ ∀ r ∈ db.outbox.rows, r.due now = false :=
  KeyedTable.firstBy_eq_none_iff

theorem countClaimable_ne_zero (h : db.outbox.lookup id = some r) (hr : r.claimable = true) :
    db.countClaimable id ≠ 0 := by
  rw [countClaimable, Ne, List.countP_eq_zero]
  push Not
  exact ⟨r, KeyedTable.mem_of_lookup h, by simp [KeyedTable.key_of_lookup h, hr]⟩

theorem lookup_updateClaimed_self {now : Instant} (h : db.outbox.lookup id = some r)
    (hr : r.claimable = true) :
    (db.updateClaimed id now).outbox.lookup id = some (r.claimed now) :=
  KeyedTable.lookup_updateWhere_of_true (fun r _ ↦ r.eventId_claimed now) h
    (by simp [KeyedTable.key_of_lookup h, hr])

theorem lookup_updateClaimed_of_ne (now : Instant) (h : k ≠ id) :
    (db.updateClaimed id now).outbox.lookup k = db.outbox.lookup k :=
  KeyedTable.lookup_updateWhere_of_false (fun r _ ↦ r.eventId_claimed now)
    fun s hs ↦ by simp [hs, h]

theorem lookup_markHandled_self (now : Instant) :
    (db.markHandled id now).outbox.lookup id = (db.outbox.lookup id).map (OutboxRow.acked now) :=
  KeyedTable.lookup_updateWhere_key (fun r _ ↦ r.eventId_acked now) fun s hs ↦ by simp [hs]

theorem lookup_markHandled_of_ne (now : Instant) (h : k ≠ id) :
    (db.markHandled id now).outbox.lookup k = db.outbox.lookup k :=
  KeyedTable.lookup_updateWhere_of_false (fun r _ ↦ r.eventId_acked now)
    fun s hs ↦ by simp [hs, h]

theorem lookup_updateFailed_self (status : Status) (attempts : Int64) (error : String)
    (now : Instant) :
    (db.updateFailed id status attempts error now).outbox.lookup id =
      (db.outbox.lookup id).map (OutboxRow.failed status attempts error now) :=
  KeyedTable.lookup_updateWhere_key (fun r _ ↦ r.eventId_failed status attempts error now)
    fun s hs ↦ by simp [hs]

theorem lookup_updateFailed_of_ne (status : Status) (attempts : Int64) (error : String)
    (now : Instant) (h : k ≠ id) :
    (db.updateFailed id status attempts error now).outbox.lookup k = db.outbox.lookup k :=
  KeyedTable.lookup_updateWhere_of_false (fun r _ ↦ r.eventId_failed status attempts error now)
    fun s hs ↦ by simp [hs, h]

theorem alreadyHandled_eq_isSome : db.alreadyHandled id = (db.handledEvents.lookup id).isSome := by
  rw [alreadyHandled, Bool.eq_iff_iff, decide_eq_true_eq, List.countP_pos_iff,
    Option.isSome_iff_exists]
  exact exists_congr fun r ↦ by rw [KeyedTable.lookup_eq_some_iff, decide_eq_true_eq]

theorem alreadyHandled_markHandled_self (now : Instant) :
    (db.markHandled id now).alreadyHandled id = true := by
  rw [alreadyHandled_eq_isSome]
  show ((db.handledEvents.insertOrIgnore ⟨id, now⟩).lookup id).isSome = true
  rw [KeyedTable.lookup_insertOrIgnore_self (r := (⟨id, now⟩ : HandledRow)) db.handledEvents]
  rfl

theorem alreadyHandled_markHandled_of_ne (now : Instant) (h : k ≠ id) :
    (db.markHandled id now).alreadyHandled k = db.alreadyHandled k := by
  rw [alreadyHandled_eq_isSome, alreadyHandled_eq_isSome]
  show ((db.handledEvents.insertOrIgnore ⟨id, now⟩).lookup k).isSome = _
  rw [KeyedTable.lookup_insertOrIgnore_of_ne (r := (⟨id, now⟩ : HandledRow)) db.handledEvents
    h.symm]

end Database

namespace SqliteBus

variable {bus : SqliteBus} {db : Database}

theorem publish_eq_ok_iff {e : EventEnvelope} {now : Instant} {db' : Database} {ack : Ack} :
    bus.publish e now db = .ok (db', ack) ↔ e.validate = .ok () ∧ ∃ text,
      bus.serde.toString e = .ok text ∧ db' = db.insertEvent e.id text now ∧
        ack = ⟨e.id, (db.outbox.lookup e.id).isSome⟩ := by
  rw [publish, check_bind_eq_ok_iff, bind_eq_ok_iff, mapError_eq_ok_iff]
  refine and_congr_right fun _ ↦ exists_congr fun text ↦ ?_
  rw [mapError_eq_ok_iff]
  refine and_congr_right fun _ ↦ ?_
  simp [pure, Except.pure, eq_comm]

/-- **What `claim_next` does**: nothing when no row is due; otherwise it claims a due row with the
least `created_at`, and then decodes it. -/
theorem claimNext_cases (db : Database) (now : Instant) (tie : ℕ) :
    (db.nextDue now tie = none ∧ bus.claimNext now tie db = (db, .ok none)) ∨
      ∃ row, db.nextDue now tie = some row ∧ bus.claimNext now tie db =
        (db.updateClaimed row.eventId now, (bus.serde.fromStr row.envelope).map some) := by
  rw [claimNext]
  cases h : db.nextDue now tie with
  | none => exact Or.inl ⟨rfl, rfl⟩
  | some row =>
    obtain ⟨hrow, hclaim, -⟩ := Database.nextDue_eq_some h
    exact Or.inr ⟨row, rfl, if_neg (Database.countClaimable_ne_zero hrow hclaim)⟩

end SqliteBus

end PhenoEvents
