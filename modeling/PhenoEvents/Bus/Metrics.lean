import PhenoEvents.Bus.Conservation

/-!
# The counters of the process

`observability::metrics` hands out three counters, which live as long as the process: the events
that were published, processed and failed.  The bus increments them when a statement has returned. A
worker that is aborted while it waits for SQLite does not get there, though the statement may have
taken effect; so a counter can fall behind the tables, and never runs ahead of them.

`metrics_account` says by how much.  `processed` counts the rows of `handled_events`, and `failed`
the column `attempts`, each from when the process was started on, and apart from what nobody has
lived to count.

The process that is meant runs a `SqliteBus` and nothing else that counts.  `OrderProjection` and
`InMemoryBus` increment the same three counters, and a process that uses them as well counts their
events on top of those of the tables.

## What is here

* `Counters`, three `u64`s that wrap around, and `Metered`, a world with its counters.
* `Metered.step`: a step of the world, and next to it what it counts.  `abortAfter` is the step at
  which the two part: the statement takes effect and the worker is gone.
* `WorkerMove.booked`: a step of a worker adds at most one row to `handled_events` or one attempt to
  `outbox`, and `marks` and `records` say which.
* `Metered.Balanced`: the counters next to the tables, with natural numbers for what was counted.
  Only the counters are taken modulo `2 ^ 64`.
* `balanced_step` for one step, and `metrics_account` for a run.

That `mark_handled` adds a row each time it is called, and `mark_failed` an attempt, is due to the
ownership of an event by one worker; so the argument rests on `World.Sound`.
-/

set_option autoImplicit false

namespace PhenoEvents

open Transition

/-- The counters `metrics` returns.  They are `AtomicU64`s, and wrap around. -/
structure Counters where
  published : UInt64
  processed : UInt64
  failed : UInt64
  deriving DecidableEq

namespace Counters

/-- The counters of a process that has just been started. -/
def zero : Counters := ⟨0, 0, 0⟩

/-- `events_published.increment()`. -/
def incrementPublished (c : Counters) : Counters := { c with published := c.published + 1 }

/-- `events_processed.increment()`. -/
def incrementProcessed (c : Counters) : Counters := { c with processed := c.processed + 1 }

/-- `events_failed.increment()`. -/
def incrementFailed (c : Counters) : Counters := { c with failed := c.failed + 1 }

end Counters

/-- The sum of the column `attempts`, over all rows, whatever their status.  It is an integer, since
nothing about the column itself keeps it from being negative. -/
def Database.totalAttempts (db : Database) : ℤ :=
  (db.outbox.rows.map fun r : OutboxRow ↦ r.attempts.toInt).sum

/-- The rows a step of `process_once` adds to `handled_events`. -/
def WorkerAction.marks : WorkerAction → ℕ
  | .markHandled => 1
  | _ => 0

/-- What a step of `process_once` adds to the column `attempts`. -/
def WorkerAction.records : WorkerAction → ℕ
  | .updateFailed => 1
  | _ => 0

/-- A process with a `SqliteBus` and nothing else that counts: the tables and workers, and the
counters. -/
structure Metered where
  world : World
  counters : Counters

namespace Metered

/-- The process is started. -/
def start (s : World) : Metered := ⟨s, .zero⟩

/-- What can happen next, while the process goes on. -/
inductive Action
  | publish (envelope : EventEnvelope) (now : Instant)
  | subscribe (worker : ℕ)
  | work (worker : ℕ) (action : WorkerAction)
  | abort (worker : ℕ)
  /-- The worker is aborted while it waits for SQLite, which does what it was asked to. -/
  | abortAfter (worker : ℕ) (action : WorkerAction)

/-- The rows that are added to `handled_events` and not counted. -/
def Action.uncountedMarks : Action → ℕ
  | .abortAfter _ action => action.marks
  | _ => 0

/-- What is added to the column `attempts` and not counted. -/
def Action.uncountedRecords : Action → ℕ
  | .abortAfter _ action => action.records
  | _ => 0

/-- What a call of `publish` counts. -/
def countPublished (bus : SqliteBus) (s : World) (envelope : EventEnvelope) (now : Instant)
    (c : Counters) : Counters :=
  match bus.publish envelope now s.db with
  | .ok _ => c.incrementPublished
  | .error _ => c

/-- What a step of `process_once` counts: `mark_handled` has returned, or `mark_failed` has.  The
last has two ways to return, and the one without an `UPDATE` never comes up in a run. -/
def countWork (s : World) (w : ℕ) (c : Counters) : WorkerAction → Counters
  | .markHandled => c.incrementProcessed
  | .updateFailed => c.incrementFailed
  | .readAttempts =>
    match s.workers w with
    -- without a row, `mark_failed` has nothing to do and returns
    | some (.reading eventId _ _) => if s.db.attempts eventId = none then c.incrementFailed else c
    | _ => c
  | _ => c

/-- One step. -/
def step (bus : SqliteBus) (m : Metered) : Action → Option Metered
  | .publish envelope now => (World.step bus m.world (.publish envelope now)).map fun world ↦
      ⟨world, countPublished bus m.world envelope now m.counters⟩
  | .subscribe w => (World.step bus m.world (.subscribe w)).map fun world ↦ ⟨world, m.counters⟩
  | .work w action => (World.step bus m.world (.work w action)).map fun world ↦
      ⟨world, countWork m.world w m.counters action⟩
  | .abort w => (World.step bus m.world (.abort w)).map fun world ↦ ⟨world, m.counters⟩
  | .abortAfter w action =>
    ((World.step bus m.world (.work w action)).bind fun world ↦ World.step bus world (.abort w)).map
      fun world ↦ ⟨world, m.counters⟩

end Metered

/-! ## What one step writes

`processed` and `failed` are compared with two numbers of the tables: the rows of `handled_events`,
and the sum of the column `attempts`.  Two statements change them, and each by one. -/

section Books

variable {bus : SqliteBus} {w : ℕ} {db db' : Database} {pc pc' : Pc} {action : WorkerAction}
  {obs : List Observation}

theorem totalAttempts_updateWhere {p : OutboxRow → Bool} {f : OutboxRow → OutboxRow}
    (hf : ∀ r, p r = true → (f r).eventId = r.eventId)
    (hattempts : ∀ r, (f r).attempts = r.attempts)
    (handled : KeyedTable HandledRow.eventId) :
    Database.totalAttempts ⟨db.outbox.updateWhere p f hf, handled⟩ = db.totalAttempts :=
  congrArg List.sum
    (db.outbox.map_rows_updateWhere hf fun r _ ↦ congrArg Int64.toInt (hattempts r))

theorem totalAttempts_insertEvent (id : Uuid) (text : String) (now : Instant) :
    (db.insertEvent id text now).totalAttempts = db.totalAttempts := by
  cases hrow : db.outbox.lookup id with
  | some row =>
    have hsame : db.outbox.insertOrIgnore (.new id text now) = db.outbox :=
      KeyedTable.insertOrIgnore_of_some hrow
    rw [Database.insertEvent, hsame]
  | none =>
    have hrows : (db.outbox.insertOrIgnore (.new id text now)).rows =
        db.outbox.rows ++ [.new id text now] := KeyedTable.rows_insertOrIgnore_of_none hrow
    rw [Database.totalAttempts, Database.insertEvent, hrows, List.map_append, List.sum_append]
    exact add_zero _

/-- The `UPDATE` of `mark_failed` adds one, if the number it adds to is the one that is there. -/
theorem totalAttempts_recordFailure {id : Uuid} {row : OutboxRow} (error : String) (now : Instant)
    (hrow : db.outbox.lookup id = some row) (hlt : row.attempts.toInt < 2 ^ 63 - 1) :
    (bus.recordFailure id row.attempts error now db).totalAttempts = db.totalAttempts + 1 := by
  have hkey := KeyedTable.key_of_lookup hrow
  have hsum := db.outbox.sum_rows_updateWhere
    (fun r _ ↦ r.eventId_failed (bus.failureStatus (row.attempts + 1)) (row.attempts + 1) error now)
    (KeyedTable.mem_of_lookup hrow) (p := fun r : OutboxRow ↦ r.eventId = id) (decide_eq_true hkey)
    (fun s hs ↦ (of_decide_eq_true hs).trans hkey.symm) fun r : OutboxRow ↦ r.attempts.toInt
  have hsum' : (bus.recordFailure id row.attempts error now db).totalAttempts + row.attempts.toInt =
      db.totalAttempts + (row.attempts + 1).toInt := hsum
  rw [toInt_add_one hlt] at hsum'
  omega

theorem length_handledEvents_markHandled {id : Uuid} (now : Instant)
    (hdone : db.alreadyHandled id = false) :
    (db.markHandled id now).handledEvents.rows.length = db.handledEvents.rows.length + 1 := by
  rw [Database.alreadyHandled_eq_isSome, Option.isSome_eq_false_iff,
    Option.isNone_iff_eq_none] at hdone
  show (db.handledEvents.insertOrIgnore ⟨id, now⟩).rows.length = _
  rw [KeyedTable.rows_insertOrIgnore_of_none (r := (⟨id, now⟩ : HandledRow)) hdone,
    List.length_append,
    List.length_singleton]

/-- **A worker that holds its event books one row or one failure at a time.** -/
theorem WorkerMove.booked (h : WorkerMove bus w db pc action db' pc' obs)
    (hdone : ∀ id now, pc = .acking id now → db.alreadyHandled id = false)
    (hread : ∀ id error now attempts, pc = .writing id error now attempts →
      ∃ row, db.outbox.lookup id = some row ∧ attempts = row.attempts ∧
        row.attempts.toInt < 2 ^ 63 - 1) :
    db'.handledEvents.rows.length = db.handledEvents.rows.length + action.marks ∧
      db'.totalAttempts = db.totalAttempts + action.records := by
  cases h with
  | claim now tie row envelope hrow hdecode | claimLost now tie row error hrow hdecode =>
    exact ⟨rfl, (totalAttempts_updateWhere (fun r _ ↦ r.eventId_claimed now) (fun _ ↦ rfl) _).trans
      (add_zero _).symm⟩
  | markHandled eventId now =>
    exact ⟨length_handledEvents_markHandled now (hdone eventId now rfl),
      (totalAttempts_updateWhere (fun r _ ↦ r.eventId_acked now) (fun _ ↦ rfl) _).trans
        (add_zero _).symm⟩
  | updateFailed eventId error now attempts =>
    obtain ⟨row, hrow, rfl, hlt⟩ := hread eventId error now attempts rfl
    exact ⟨rfl, totalAttempts_recordFailure error now hrow hlt⟩
  | _ => exact ⟨rfl, (add_zero _).symm⟩

end Books

namespace World

variable {bus : SqliteBus} {s t : World}

/-- A step of a worker accepts no envelope, and books what its action says. -/
theorem booked_of_work (h : s.Sound bus) {w : ℕ} {action : WorkerAction}
    (hstep : step bus s (.work w action) = some t) :
    t.acceptedEnvelopes = s.acceptedEnvelopes ∧
      t.db.handledEvents.rows.length = s.db.handledEvents.rows.length + action.marks ∧
      t.db.totalAttempts = s.db.totalAttempts + action.records := by
  cases WorldMove.of_step hstep with
  | work w pc pc' action db' obs hpc hmove =>
    refine ⟨acceptedEnvelopes_of_work hstep,
      hmove.booked (fun id now hacking ↦ ?_) fun id error now attempts hwriting ↦ ?_⟩
    · subst hacking
      obtain ⟨-, -, -, -, -, -, -, hdone, -⟩ := (h id).phase.of_holder (holders_view hpc rfl)
      exact hdone
    · subst hwriting
      obtain ⟨row, n, hrow, -, hn, hlt, -, -, hread, -⟩ :=
        (h id).phase.of_holder (holders_view hpc rfl)
      have hle := bus.budget_le
      exact ⟨row, hrow, hread id error now attempts rfl, by omega⟩

/-- The row a worker looks for is there. -/
theorem attempts_ne_none_of_reading (h : s.Sound bus) {w : ℕ} {id : Uuid} {error : String}
    {now : Instant} (hpc : s.workers w = some (.reading id error now)) :
    s.db.attempts id ≠ none := by
  obtain ⟨row, -, hrow, -⟩ := (h id).phase.of_holder (holders_view hpc rfl)
  have hlookup : s.db.outbox.lookup id = some row := hrow
  simp [Database.attempts, hlookup]

end World

/-! ## What a process counts

The counters wrap around, so the invariant is about the natural numbers they stand for. -/

namespace Metered

variable {bus : SqliteBus} {s : World} {m m' : Metered} {as : List Action}

theorem countWork_eq (h : m.world.Sound bus) (w : ℕ) (action : WorkerAction) (p k j : ℕ) :
    countWork m.world w ⟨.ofNat p, .ofNat k, .ofNat j⟩ action =
      ⟨.ofNat p, .ofNat (k + action.marks), .ofNat (j + action.records)⟩ := by
  cases action with
  | readAttempts =>
    show (match m.world.workers w with
      | some (.reading eventId _ _) => _
      | _ => _ : Counters) = _
    split
    · rename_i id _ _ hpc
      exact if_neg (World.attempts_ne_none_of_reading h hpc)
    · rfl
  | markHandled =>
    simp [countWork, Counters.incrementProcessed, WorkerAction.marks, WorkerAction.records]
  | updateFailed =>
    simp [countWork, Counters.incrementFailed, WorkerAction.marks, WorkerAction.records]
  | _ => rfl

/-- What the process has counted since `s`, next to what the tables say.  The three numbers are what
the counters would be if they did not wrap around. -/
def Balanced (s : World) (as : List Action) (m : Metered) : Prop :=
  ∃ p k j : ℕ, m.counters = ⟨.ofNat p, .ofNat k, .ofNat j⟩ ∧
    m.world.acceptedEnvelopes.length = s.acceptedEnvelopes.length + p ∧
    m.world.db.handledEvents.rows.length =
      s.db.handledEvents.rows.length + k + (as.map Action.uncountedMarks).sum ∧
    m.world.db.totalAttempts = s.db.totalAttempts + j + (as.map Action.uncountedRecords).sum

theorem balanced_start (s : World) : (start s).Balanced s [] := ⟨0, 0, 0, rfl, by simp [start]⟩

/-- A step that writes nothing. -/
theorem Balanced.quiet (h : m.Balanced s as) {t : World} {action : Action}
    (haccepted : t.acceptedEnvelopes = m.world.acceptedEnvelopes) (hdb : t.db = m.world.db)
    (hmarks : action.uncountedMarks = 0) (hrecords : action.uncountedRecords = 0) :
    Balanced s (as ++ [action]) ⟨t, m.counters⟩ := by
  obtain ⟨p, k, j, hcounters, hpublished, hprocessed, hfailed⟩ := h
  refine ⟨p, k, j, hcounters, by rw [haccepted, hpublished], ?_, ?_⟩
  · rw [hdb, hprocessed]
    simp [hmarks]
  · rw [hdb, hfailed]
    simp [hrecords]

theorem Balanced.publish (h : m.Balanced s as) {envelope : EventEnvelope}
    {now : Instant} {t : World} (hstep : World.step bus m.world (.publish envelope now) = some t) :
    Balanced s (as ++ [.publish envelope now])
      ⟨t, countPublished bus m.world envelope now m.counters⟩ := by
  cases WorldMove.of_step hstep with
  | accepted _ _ text hvalid htext =>
    obtain ⟨p, k, j, hcounters, hpublished, hprocessed, hfailed⟩ := h
    have hok : bus.publish envelope now m.world.db =
      .ok (m.world.db.insertEvent envelope.id text now,
        ⟨envelope.id, (m.world.db.outbox.lookup envelope.id).isSome⟩) :=
      SqliteBus.publish_eq_ok_iff.2 ⟨hvalid, text, htext, rfl, rfl⟩
    refine ⟨p + 1, k, j, ?_, ?_, ?_, ?_⟩
    · simp [countPublished, hok, hcounters, Counters.incrementPublished]
    · rw [World.acceptedEnvelopes, List.filterMap_append, List.length_append,
        ← World.acceptedEnvelopes, hpublished]
      rfl
    · rw [show (m.world.db.insertEvent envelope.id text now).handledEvents =
        m.world.db.handledEvents from rfl, hprocessed]
      simp [Action.uncountedMarks]
    · rw [totalAttempts_insertEvent, hfailed]
      simp [Action.uncountedRecords]
  | rejected _ _ error herror =>
    have hsame : countPublished bus m.world envelope now m.counters = m.counters := by
      simp [countPublished, herror]
    rw [hsame]
    refine h.quiet ?_ rfl rfl rfl
    rw [World.acceptedEnvelopes, List.filterMap_append]
    exact List.append_nil _

theorem Balanced.work (h : m.Balanced s as) (hsound : m.world.Sound bus) {w : ℕ}
    {action : WorkerAction} {t : World} (hstep : World.step bus m.world (.work w action) = some t) :
    Balanced s (as ++ [.work w action]) ⟨t, countWork m.world w m.counters action⟩ := by
  obtain ⟨p, k, j, hcounters, hpublished, hprocessed, hfailed⟩ := h
  obtain ⟨haccepted, hhandled, hattempts⟩ := World.booked_of_work hsound hstep
  refine ⟨p, k + action.marks, j + action.records, ?_, by rw [haccepted, hpublished], ?_, ?_⟩
  · rw [hcounters, countWork_eq hsound]
  · rw [hhandled, hprocessed]
    simp [Action.uncountedMarks]
    omega
  · rw [hattempts, hfailed]
    simp [Action.uncountedRecords]
    omega

/-- The counters are not told of a worker that is gone.  What it has booked is on the other side of
the balance, among what was not counted. -/
theorem Balanced.abortAfter (h : m.Balanced s as) (hsound : m.world.Sound bus) {w : ℕ}
    {action : WorkerAction} {t t' : World}
    (hwork : World.step bus m.world (.work w action) = some t)
    (habort : World.step bus t (.abort w) = some t') :
    Balanced s (as ++ [.abortAfter w action]) ⟨t', m.counters⟩ := by
  obtain ⟨p, k, j, hcounters, hpublished, hprocessed, hfailed⟩ := h
  obtain ⟨haccepted, hhandled, hattempts⟩ := World.booked_of_work hsound hwork
  cases WorldMove.of_step habort with
  | abort _ pc hpc =>
    refine ⟨p, k, j, hcounters, ?_, ?_, ?_⟩
    · rw [← hpublished, ← haccepted]
      rfl
    · rw [hhandled, hprocessed]
      simp [Action.uncountedMarks]
      omega
    · rw [hattempts, hfailed]
      simp [Action.uncountedRecords]
      omega

/-- **Every step keeps the counters and the tables in balance.** -/
theorem balanced_step (h : m.Balanced s as) (hsound : m.world.Sound bus) {action : Action}
    (hstep : step bus m action = some m') :
    m'.Balanced s (as ++ [action]) ∧ m'.world.Sound bus := by
  cases action with
  | publish envelope now =>
    rw [step, Option.map_eq_some_iff] at hstep
    obtain ⟨t, ht, rfl⟩ := hstep
    exact ⟨h.publish ht, World.sound_step hsound ht⟩
  | subscribe w =>
    rw [step, Option.map_eq_some_iff] at hstep
    obtain ⟨t, ht, rfl⟩ := hstep
    refine ⟨?_, World.sound_step hsound ht⟩
    cases WorldMove.of_step ht
    exact h.quiet rfl rfl rfl rfl
  | work w action =>
    rw [step, Option.map_eq_some_iff] at hstep
    obtain ⟨t, ht, rfl⟩ := hstep
    exact ⟨h.work hsound ht, World.sound_step hsound ht⟩
  | abort w =>
    rw [step, Option.map_eq_some_iff] at hstep
    obtain ⟨t, ht, rfl⟩ := hstep
    refine ⟨?_, World.sound_step hsound ht⟩
    cases WorldMove.of_step ht
    exact h.quiet rfl rfl rfl rfl
  | abortAfter w action =>
    rw [step, Option.map_eq_some_iff] at hstep
    obtain ⟨t', ht', rfl⟩ := hstep
    obtain ⟨t, ht, ht'⟩ := Option.bind_eq_some_iff.1 ht'
    exact ⟨h.abortAfter hsound ht ht', World.sound_step (World.sound_step hsound ht) ht'⟩

/-- **The counters tell what the tables have gained** since the process was started: `published` the
envelopes that were accepted, `processed` the rows of `handled_events`, and `failed` the attempts,
up to the events and the failures whose worker was aborted before it could count them.  Handlers
that fail again and again count again and again, as `attempts` does. -/
theorem metrics_account (bus : SqliteBus) (s : World) (hs : Reachable (World.step bus) .initial s)
    (as : List Action) (m : Metered) (hrun : run (step bus) (start s) as = some m) :
    ∃ p k j : ℕ, m.counters = ⟨.ofNat p, .ofNat k, .ofNat j⟩ ∧
      m.world.acceptedEnvelopes.length = s.acceptedEnvelopes.length + p ∧
      m.world.db.handledEvents.rows.length =
        s.db.handledEvents.rows.length + k + (as.map Action.uncountedMarks).sum ∧
      m.world.db.totalAttempts =
        s.db.totalAttempts + j + (as.map Action.uncountedRecords).sum := by
  have hI : m.Balanced s as ∧ m.world.Sound bus :=
    run_invariant_of_trace (I := fun as m ↦ m.Balanced s as ∧ m.world.Sound bus)
      ⟨balanced_start s, World.sound_of_reachable hs⟩
      (fun _ _ _ _ h hstep ↦ balanced_step h.1 h.2 hstep) hrun
  exact hI.1

/-- The handler refuses the event, then takes it, and the worker is aborted in `mark_handled`. -/
def uncountedRun : List Action :=
  [.publish userCreated 0, .subscribe 0, .work 0 (.poll 1), .work 0 (.claim 0),
    .work 0 (.alreadyHandled 2), .work 0 (.lastSeen 0), .work 0 (.returned (.error "no") 3),
    .work 0 .readAttempts, .work 0 .updateFailed, .work 0 (.poll (20 * 1000 * 1000)),
    .work 0 (.claim 0), .work 0 (.alreadyHandled 4), .work 0 (.lastSeen 0),
    .work 0 (.returned (.ok ()) 5), .abortAfter 0 .markHandled]

/-- One refusal was counted, and one success was not. -/
theorem uncountedRun_accounted : ∃ (m : Metered) (p k j : ℕ),
    run (step (oneEventBus 3)) (start .initial) uncountedRun = some m ∧
      m.counters = ⟨1, 0, 1⟩ ∧ m.counters = ⟨.ofNat p, .ofNat k, .ofNat j⟩ ∧
      m.world.db.handledEvents.rows.length = k + 1 ∧ m.world.db.totalAttempts = j := by
  have hrun : ((run (step (oneEventBus 3)) (start .initial) uncountedRun).map Metered.counters) =
      some ⟨1, 0, 1⟩ := by
    decide +kernel
  obtain ⟨m, hm, hcounters⟩ := Option.map_eq_some_iff.1 hrun
  obtain ⟨p, k, j, hkj, -, hprocessed, hfailed⟩ :=
    metrics_account (oneEventBus 3) .initial ⟨[], rfl⟩ uncountedRun m hm
  have hmarks : (uncountedRun.map Action.uncountedMarks).sum = 1 := rfl
  have hrecords : (uncountedRun.map Action.uncountedRecords).sum = 0 := rfl
  have hzero : World.initial.db.totalAttempts = 0 := rfl
  have hnone : World.initial.db.handledEvents.rows.length = 0 := rfl
  exact ⟨m, p, k, j, hm, hcounters, hkj, by omega, by omega⟩

end Metered

end PhenoEvents
