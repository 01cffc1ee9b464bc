import Mathlib.Logic.Function.Basic
import PhenoEvents.Bus.Outbox
import PhenoEvents.Library.Transition

/-!
# Workers over one database

`process_once`, cut at its awaits, and the system of any number of workers, publishers, crashes and
restarts over one database.

A worker is somewhere in `process_once` (`Pc`), with the variables it will still read.  It advances
when the world answers what it waits for: the clock, SQLite, or the handler.  Everything outside the
program's control is in the action: clock readings, which of several tied rows a query returns, the
handler's result, whether SQLite fails, and who moves next.

* A clock reading is taken when the code takes it, which may be long before the statement it is
  written by.
* An error from SQLite, and an envelope that does not decode, end `process_once`; the worker goes on
  with the next call.
* A transaction takes effect at once or not at all, so being aborted inside one is being aborted
  before it or after it.
* `abort` is the drop of a `Subscription`, or a handler that panics.  `restart` is a crash of the
  process: every worker is gone and the tables stay.

`WorkerMove` and `WorldMove` say once what a step can do.  Everything else is derived from them.

## What is observed

The program keeps no log.  A `World` has one, `history`, that no step reads: which calls of
`publish` were answered, which events were claimed, which handlers were called with what and what
they returned, and which failures were written down.  It is there to speak of the past of a run, and
it is the reason why a property of runs can be a property of states.

## What is left open

A worker that is idle polls when it likes: between two polls the code sleeps for `poll_interval`,
and nothing here depends on for how long.  Two workers may be told the same time, or times in any
order.  A handler may return whatever it likes, may never return, and may be called again with an
event it has refused.
-/

set_option autoImplicit false

namespace PhenoEvents

/-- Where a worker is in `process_once`, with the variables it will still read.  There is one
constructor for each await, and one for a worker that is between two calls. -/
inductive Pc
  /-- Between two calls. -/
  | idle
  /-- In `claim_next`. -/
  | claiming (now : Instant)
  /-- In `already_handled`. -/
  | checking (envelope : EventEnvelope)
  /-- In `last_seen`. -/
  | querying (envelope : EventEnvelope)
  /-- In the handler. -/
  | handling (envelope : EventEnvelope) (lastSeen : Option Uuid)
  /-- In `mark_handled`. -/
  | acking (eventId : Uuid) (now : Instant)
  /-- In the `SELECT` of `mark_failed`. -/
  | reading (eventId : Uuid) (error : String) (now : Instant)
  /-- In the `UPDATE` of `mark_failed`. -/
  | writing (eventId : Uuid) (error : String) (now : Instant) (attempts : Int64)
  deriving DecidableEq

/-- The event the worker has claimed and not marked.  A worker that is still looking for one holds
none, as it does not know yet which event it will find. -/
def Pc.held : Pc → Option Uuid
  | .idle | .claiming _ => none
  | .checking envelope | .querying envelope | .handling envelope _ => some envelope.id
  | .acking eventId _ | .reading eventId _ _ | .writing eventId _ _ _ => some eventId

/-- The worker waits for SQLite. -/
def Pc.awaitsSqlite : Pc → Bool
  | .idle | .handling _ _ => false
  | _ => true

/-- What an observer of the bus sees. -/
inductive Observation
  /-- A call to `publish` returned. -/
  | published (envelope : EventEnvelope) (result : Except PublishError Ack)
  /-- `claim_next` returned an event. -/
  | claimed (worker : ℕ) (eventId : Uuid)
  /-- The handler was called. -/
  | invoked (worker : ℕ) (envelope : EventEnvelope) (lastSeen : Option Uuid)
  /-- The handler returned. -/
  | returned (worker : ℕ) (envelope : EventEnvelope) (result : Except String Unit)
  /-- The `UPDATE` of `mark_failed` took effect. -/
  | recorded (worker : ℕ) (eventId : Uuid)

/-- The event an observation is about. -/
def Observation.eventId : Observation → Uuid
  | .published envelope _ | .invoked _ envelope _ | .returned _ envelope _ => envelope.id
  | .claimed _ eventId | .recorded _ eventId => eventId

/-- What a worker waits for. -/
inductive WorkerAction
  | poll (now : Instant)
  | claim (tie : ℕ)
  | alreadyHandled (now : Instant)
  | lastSeen (tie : ℕ)
  | returned (result : Except String Unit) (now : Instant)
  | markHandled
  | readAttempts
  | updateFailed
  | sqliteError

/-- One step of `process_once`. -/
def SqliteBus.workerStep (bus : SqliteBus) (w : ℕ) (db : Database) :
    Pc → WorkerAction → Option (Database × Pc × List Observation)
  | .idle, .poll now => some (db, .claiming now, [])
  | .claiming now, .claim tie =>
    match bus.claimNext now tie db with
    | (db, .ok none) => some (db, .idle, [])
    | (db, .ok (some envelope)) => some (db, .checking envelope, [.claimed w envelope.id])
    | (db, .error _) => some (db, .idle, [])
  | .checking envelope, .alreadyHandled now =>
    if db.alreadyHandled envelope.id then some (db, .acking envelope.id now, [])
    else some (db, .querying envelope, [])
  | .querying envelope, .lastSeen tie =>
    let lastSeen := db.lastSeen tie
    some (db, .handling envelope lastSeen, [.invoked w envelope lastSeen])
  | .handling envelope _, .returned (.ok ()) now =>
    some (db, .acking envelope.id now, [.returned w envelope (.ok ())])
  | .handling envelope _, .returned (.error error) now =>
    some (db, .reading envelope.id ("handler nack: " ++ error) now,
      [.returned w envelope (.error error)])
  | .acking eventId now, .markHandled => some (db.markHandled eventId now, .idle, [])
  | .reading eventId error now, .readAttempts =>
    match db.attempts eventId with
    | some attempts => some (db, .writing eventId error now attempts, [])
    | none => some (db, .idle, [])
  | .writing eventId error now attempts, .updateFailed =>
    some (bus.recordFailure eventId attempts error now db, .idle, [.recorded w eventId])
  | pc, .sqliteError => if pc.awaitsSqlite then some (db, .idle, []) else none
  | _, _ => none

/-- A database, the workers over it, and what has been observed. -/
structure World where
  db : Database
  workers : ℕ → Option Pc
  history : List Observation

/-- What can happen next. -/
inductive Action
  | publish (envelope : EventEnvelope) (now : Instant)
  | subscribe (worker : ℕ)
  | work (worker : ℕ) (action : WorkerAction)
  | abort (worker : ℕ)
  | restart

namespace World

/-- A fresh database and no worker. -/
def initial : World := ⟨.empty, fun _ ↦ none, []⟩

/-- A call to `publish`. -/
def publish (s : World) (bus : SqliteBus) (envelope : EventEnvelope) (now : Instant) : World :=
  match bus.publish envelope now s.db with
  | .ok (db, ack) => { s with db := db, history := s.history ++ [.published envelope (.ok ack)] }
  | .error error => { s with history := s.history ++ [.published envelope (.error error)] }

/-- One step of the system, if the action is enabled. -/
def step (bus : SqliteBus) (s : World) : Action → Option World
  | .publish envelope now => some (s.publish bus envelope now)
  | .subscribe w =>
    match s.workers w with
    | none => some { s with workers := Function.update s.workers w (some .idle) }
    | some _ => none
  | .work w action =>
    (s.workers w).bind fun pc ↦ (bus.workerStep w s.db pc action).map fun r ↦
      ⟨r.1, Function.update s.workers w (some r.2.1), s.history ++ r.2.2⟩
  | .abort w =>
    match s.workers w with
    | some _ => some { s with workers := Function.update s.workers w none }
    | none => none
  | .restart => some { s with workers := fun _ ↦ none }

end World

/-! ## What a step can do

`step` computes, and is what a run is made of.  The two relations below are what a proof about a
step begins with.  They have one constructor for each thing that can happen, with all that is known
of it, and the new state in terms of the old one. -/

/-- The steps of `process_once`. -/
inductive WorkerMove (bus : SqliteBus) (w : ℕ) (db : Database) :
    Pc → WorkerAction → Database → Pc → List Observation → Prop
  | poll (now : Instant) : WorkerMove bus w db .idle (.poll now) db (.claiming now) []
  | claimNothing (now : Instant) (tie : ℕ) (hnone : db.nextDue now tie = none) :
      WorkerMove bus w db (.claiming now) (.claim tie) db .idle []
  | claim (now : Instant) (tie : ℕ) (row : OutboxRow) (envelope : EventEnvelope)
      (hrow : db.nextDue now tie = some row)
      (hdecode : bus.serde.fromStr row.envelope = .ok envelope) :
      WorkerMove bus w db (.claiming now) (.claim tie) (db.updateClaimed row.eventId now)
        (.checking envelope) [.claimed w envelope.id]
  | claimLost (now : Instant) (tie : ℕ) (row : OutboxRow) (error : String)
      (hrow : db.nextDue now tie = some row)
      (hdecode : bus.serde.fromStr row.envelope = .error error) :
      WorkerMove bus w db (.claiming now) (.claim tie) (db.updateClaimed row.eventId now) .idle []
  | handledBefore (envelope : EventEnvelope) (now : Instant)
      (hdone : db.alreadyHandled envelope.id = true) :
      WorkerMove bus w db (.checking envelope) (.alreadyHandled now) db (.acking envelope.id now) []
  | notHandled (envelope : EventEnvelope) (now : Instant)
      (hdone : db.alreadyHandled envelope.id = false) :
      WorkerMove bus w db (.checking envelope) (.alreadyHandled now) db (.querying envelope) []
  | invoke (envelope : EventEnvelope) (tie : ℕ) :
      WorkerMove bus w db (.querying envelope) (.lastSeen tie) db
        (.handling envelope (db.lastSeen tie)) [.invoked w envelope (db.lastSeen tie)]
  | succeed (envelope : EventEnvelope) (seen : Option Uuid) (now : Instant) :
      WorkerMove bus w db (.handling envelope seen) (.returned (.ok ()) now) db
        (.acking envelope.id now) [.returned w envelope (.ok ())]
  | fail (envelope : EventEnvelope) (seen : Option Uuid) (error : String) (now : Instant) :
      WorkerMove bus w db (.handling envelope seen) (.returned (.error error) now) db
        (.reading envelope.id ("handler nack: " ++ error) now) [.returned w envelope (.error error)]
  | markHandled (eventId : Uuid) (now : Instant) :
      WorkerMove bus w db (.acking eventId now) .markHandled (db.markHandled eventId now) .idle []
  | readAttempts (eventId : Uuid) (error : String) (now : Instant) (attempts : Int64)
      (hrow : db.attempts eventId = some attempts) :
      WorkerMove bus w db (.reading eventId error now) .readAttempts db
        (.writing eventId error now attempts) []
  | rowGone (eventId : Uuid) (error : String) (now : Instant) (hrow : db.attempts eventId = none) :
      WorkerMove bus w db (.reading eventId error now) .readAttempts db .idle []
  | updateFailed (eventId : Uuid) (error : String) (now : Instant) (attempts : Int64) :
      WorkerMove bus w db (.writing eventId error now attempts) .updateFailed
        (bus.recordFailure eventId attempts error now db) .idle [.recorded w eventId]
  | sqliteError (pc : Pc) (hpc : pc.awaitsSqlite = true) :
      WorkerMove bus w db pc .sqliteError db .idle []

theorem WorkerMove.of_claim {bus : SqliteBus} {w : ℕ} {db db' : Database} {now : Instant} {tie : ℕ}
    {pc' : Pc} {obs : List Observation}
    (h : bus.workerStep w db (.claiming now) (.claim tie) = some (db', pc', obs)) :
    WorkerMove bus w db (.claiming now) (.claim tie) db' pc' obs := by
  rcases bus.claimNext_cases db now tie with ⟨hnone, hc⟩ | ⟨row, hrow, hc⟩
  · simp only [SqliteBus.workerStep, hc, Option.some.injEq, Prod.mk.injEq] at h
    obtain ⟨rfl, rfl, rfl⟩ := h
    exact .claimNothing now tie hnone
  · cases hd : bus.serde.fromStr row.envelope with
    | ok envelope =>
      simp only [SqliteBus.workerStep, hc, hd, Except.map, Option.some.injEq, Prod.mk.injEq] at h
      obtain ⟨rfl, rfl, rfl⟩ := h
      exact .claim now tie row envelope hrow hd
    | error error =>
      simp only [SqliteBus.workerStep, hc, hd, Except.map, Option.some.injEq, Prod.mk.injEq] at h
      obtain ⟨rfl, rfl, rfl⟩ := h
      exact .claimLost now tie row error hrow hd

/-- **Every step of a worker is one of the moves.**  A proof about a step of a worker goes through
these and does not look at the function. -/
theorem WorkerMove.of_workerStep {bus : SqliteBus} {w : ℕ} {db db' : Database} {pc pc' : Pc}
    {action : WorkerAction} {obs : List Observation}
    (h : bus.workerStep w db pc action = some (db', pc', obs)) :
    WorkerMove bus w db pc action db' pc' obs := by
  unfold SqliteBus.workerStep at h
  split at h
  · cases h; exact .poll _
  · exact .of_claim h
  · split at h
    · rename_i hdone; cases h; exact .handledBefore _ _ hdone
    · rename_i hdone; cases h; exact .notHandled _ _ (Bool.eq_false_iff.2 hdone)
  · cases h; exact .invoke _ _
  · cases h; exact .succeed _ _ _
  · cases h; exact .fail _ _ _ _
  · cases h; exact .markHandled _ _
  · split at h
    · rename_i hrow; cases h; exact .readAttempts _ _ _ _ hrow
    · rename_i hrow; cases h; exact .rowGone _ _ _ hrow
  · cases h; exact .updateFailed _ _ _ _
  · split at h
    · rename_i hpc; cases h; exact .sqliteError _ hpc
    · cases h
  · cases h

/-- The steps of the system. -/
inductive WorldMove (bus : SqliteBus) (s : World) : Action → World → Prop
  | accepted (envelope : EventEnvelope) (now : Instant) (text : String)
      (hvalid : envelope.validate = .ok ()) (htext : bus.serde.toString envelope = .ok text) :
      WorldMove bus s (.publish envelope now)
        { s with
          db := s.db.insertEvent envelope.id text now
          history := s.history ++ [.published envelope
            (.ok ⟨envelope.id, (s.db.outbox.lookup envelope.id).isSome⟩)] }
  | rejected (envelope : EventEnvelope) (now : Instant) (error : PublishError)
      (herror : bus.publish envelope now s.db = .error error) :
      WorldMove bus s (.publish envelope now)
        { s with history := s.history ++ [.published envelope (.error error)] }
  | subscribe (w : ℕ) (hfree : s.workers w = none) :
      WorldMove bus s (.subscribe w)
        { s with workers := Function.update s.workers w (some .idle) }
  | work (w : ℕ) (pc pc' : Pc) (action : WorkerAction) (db' : Database) (obs : List Observation)
      (hpc : s.workers w = some pc) (hmove : WorkerMove bus w s.db pc action db' pc' obs) :
      WorldMove bus s (.work w action)
        ⟨db', Function.update s.workers w (some pc'), s.history ++ obs⟩
  | abort (w : ℕ) (pc : Pc) (hpc : s.workers w = some pc) :
      WorldMove bus s (.abort w) { s with workers := Function.update s.workers w none }
  | restart : WorldMove bus s .restart { s with workers := fun _ ↦ none }

/-- **Every step of the system is one of the moves.**  The moves of a worker are one of its cases;
the others are the publishers, and workers that come and go. -/
theorem WorldMove.of_step {bus : SqliteBus} {s t : World} {action : Action}
    (h : World.step bus s action = some t) : WorldMove bus s action t := by
  cases action with
  | publish envelope now =>
    rw [World.step, Option.some_inj] at h
    subst h
    rw [World.publish]
    cases hp : bus.publish envelope now s.db with
    | error error => exact .rejected envelope now error hp
    | ok r =>
      obtain ⟨hvalid, text, htext, hdb, hack⟩ := SqliteBus.publish_eq_ok_iff.1 hp
      simp only [hdb, hack]
      exact .accepted envelope now text hvalid htext
  | subscribe w =>
    rw [World.step] at h
    split at h
    · rename_i hfree; cases h; exact .subscribe w hfree
    · cases h
  | work w action =>
    rw [World.step, Option.bind_eq_some_iff] at h
    obtain ⟨pc, hpc, h⟩ := h
    rw [Option.map_eq_some_iff] at h
    obtain ⟨⟨db', pc', obs⟩, hstep, rfl⟩ := h
    exact .work w pc pc' action db' obs hpc (.of_workerStep hstep)
  | abort w =>
    rw [World.step] at h
    split at h
    · rename_i pc hpc; cases h; exact .abort w pc hpc
    · cases h
  | restart =>
    cases h
    exact .restart

end PhenoEvents
