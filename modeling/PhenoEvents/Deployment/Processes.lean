import PhenoEvents.Bus.Conservation
import PhenoEvents.Projection.History
import PhenoEvents.Projection.Offsets

/-!
# One database, many processes

The bus and the projections meet in one database.  Some processes publish and work on the outbox
(`World`), others own an `OrderProjection`, and each of these has its own offset and its own call,
while the outbox, the read model and the checkpoints belong to all of them.  So a step of a process
is the step its projection takes on the tables as they are now (`projector`), and what it leaves is
what the next process finds (`absorb`).

Neither side waits for the other.  The bus steps do not see the read model, and of all they do to
the outbox the projections see only that the log grows (`log_of_move`).

## What is here

* `Deployment`: the tables, the processes of the bus as one `World`, and the processes with a
  projection by their numbers.
* `Action`: a step of the bus, a process that starts, or a step of a process, which may also be that
  another one takes its place.  A process that starts reads the stored checkpoint, as
  `OrderProjection::new` does.
* `Move` and `move_of_step`: what a step can do.
* `run_world`: what the projections do is invisible to the bus.
* `log_of_move`: what the bus does is to the projections a log that grows.

The commits of SQLite are the steps.  Between two of them any other process may come in, and a
process may be killed.
-/

set_option autoImplicit false

namespace PhenoEvents

open Except Resume Transition

/-- A process with an `OrderProjection`, without the tables. -/
structure Process where
  offset : ℤ
  call : OrderProjection.Call
  deriving DecidableEq

/-- The tables, the processes of the bus, and those with a projection. -/
structure Deployment where
  world : World
  readModel : ReadModel
  checkpoints : KeyedTable CheckpointRow.name
  /-- The envelopes that have been applied to the read model, the newest first. -/
  applied : List EventEnvelope
  processes : ℕ → Option Process

/-- The step is one the process takes itself. -/
def OrderProjection.Action.own : OrderProjection.Action → Bool
  | .publish _ _ => false
  | _ => true

namespace Deployment

/-- What can happen next. -/
inductive Action
  /-- A step of the bus. -/
  | bus (action : PhenoEvents.Action)
  /-- A new process calls `OrderProjection::new`. -/
  | start (process : ℕ)
  /-- A process with a projection takes a step.  It may also be replaced by another one. -/
  | project (process : ℕ) (action : OrderProjection.Action)

/-- Empty tables and no process. -/
def initial : Deployment := ⟨.initial, .empty, .empty, [], fun _ ↦ none⟩

/-- The tables. -/
def tables (s : Deployment) : Tables := ⟨s.world.db, s.readModel, s.checkpoints⟩

/-- The outbox, by its rowids. -/
def log (s : Deployment) : List (ℤ × String) := s.tables.log

/-- The stored checkpoint. -/
def stored (s : Deployment) : ℤ := s.tables.checkpoint "orders"

/-- What a process works with: its own offset and call, and everybody's tables.  It is a state of
the projection as it would be alone. -/
def projector (s : Deployment) (p : Process) : OrderProjection.World :=
  ⟨⟨s.tables, p.offset⟩, p.call, s.applied⟩

/-- What a process leaves behind: its own offset and call in its own place, and the tables for
everybody. -/
def absorb (s : Deployment) (i : ℕ) (w : OrderProjection.World) : Deployment :=
  { s with
    readModel := w.projection.pool.readModel
    checkpoints := w.projection.pool.checkpoints
    applied := w.applied
    processes := Function.update s.processes i (some ⟨w.projection.offset, w.call⟩) }

/-- One step of one of the processes, if the action is enabled. -/
def step (bus : SqliteBus) (engine : SqlEngine) (s : Deployment) : Action → Option Deployment
  | .bus action => (World.step bus s.world action).map fun world ↦ { s with world := world }
  | .start i =>
    match s.processes i with
    | none => some { s with
        processes := Function.update s.processes i (some ⟨s.stored, .idle none⟩) }
    | some _ => none
  | .project i action =>
    if action.own then
      (s.processes i).bind fun p ↦ ((s.projector p).step bus engine action).map (s.absorb i)
    else none

@[simp] theorem processes_absorb_self (s : Deployment) (i : ℕ) (w : OrderProjection.World) :
    (s.absorb i w).processes i = some ⟨w.projection.offset, w.call⟩ :=
  Function.update_self ..

theorem processes_absorb_of_ne (s : Deployment) {i j : ℕ} (h : j ≠ i) (w : OrderProjection.World) :
    (s.absorb i w).processes j = s.processes j :=
  Function.update_of_ne h ..

/-! ## What a step can do

A step of a process changes its own entry and the tables, and leaves all other processes where they
are. -/

/-- The ways a step can go. -/
inductive Move (bus : SqliteBus) (engine : SqlEngine) (s : Deployment) : Action → Deployment → Prop
  | bus (action : PhenoEvents.Action) (world : World)
      (hmove : World.step bus s.world action = some world) :
      Move bus engine s (.bus action) { s with world := world }
  | started (i : ℕ) (hfree : s.processes i = none) :
      Move bus engine s (.start i)
        { s with processes := Function.update s.processes i (some ⟨s.stored, .idle none⟩) }
  | projected (i : ℕ) (p : Process) (action : OrderProjection.Action) (w : OrderProjection.World)
      (hp : s.processes i = some p) (hown : action.own = true)
      (hmove : (s.projector p).step bus engine action = some w) :
      Move bus engine s (.project i action) (s.absorb i w)

variable {bus : SqliteBus} {engine : SqlEngine} {s t : Deployment} {action : Action}

/-- **Every step is one of the moves.** -/
theorem move_of_step (h : s.step bus engine action = some t) : Move bus engine s action t := by
  cases action with
  | bus action =>
    obtain ⟨world, hmove, rfl⟩ := Option.map_eq_some_iff.1 h
    exact .bus action world hmove
  | start i =>
    rw [step] at h
    split at h
    · rename_i hfree
      obtain rfl := Option.some_inj.1 h
      exact .started i hfree
    · cases h
  | project i action =>
    rw [step] at h
    split at h
    · rename_i hown
      obtain ⟨p, hp, h⟩ := Option.bind_eq_some_iff.1 h
      obtain ⟨w, hmove, rfl⟩ := Option.map_eq_some_iff.1 h
      exact .projected i p action w hp hown hmove
    · cases h

/-! ## The bus

What is known of runs of the bus alone is known of the bus in a deployment. -/

/-- The steps of the bus. -/
def Action.ofBus : Action → Option PhenoEvents.Action
  | .bus action => some action
  | _ => none

/-- **The projections are invisible to the bus.**  Whatever they do, the bus runs as it would alone.
None of their statements writes a table of the bus. -/
theorem run_world {as : List Action} (h : run (step bus engine) s as = some t) :
    run (World.step bus) s.world (as.filterMap Action.ofBus) = some t.world := by
  induction as generalizing s with
  | nil => exact congrArg (Option.map world) h
  | cons a as ih =>
    obtain ⟨m, hm, h⟩ := run_cons_eq_some.1 h
    have hrest := ih h
    cases move_of_step hm with
    | bus action world hmove => exact run_cons_eq_some.2 ⟨world, hmove, hrest⟩
    | started i hfree => exact hrest
    | projected i p action w hp hown hmove => exact hrest

/-! ## The log

The projections read the rowid and the text of the rows, in the order of the rowids.  Only `publish`
adds one, at the end, and nobody changes any. -/

theorem log_eq_numbered (s : Deployment) :
    s.log = numbered 0 (s.world.db.outbox.rows.map OutboxRow.envelope) :=
  s.tables.log_eq_numbered

/-- A worker never changes a text. -/
theorem envelopes_of_workerMove {w : ℕ} {db db' : Database} {pc pc' : Pc} {action : WorkerAction}
    {obs : List Observation} (h : WorkerMove bus w db pc action db' pc' obs) :
    db'.outbox.rows.map OutboxRow.envelope = db.outbox.rows.map OutboxRow.envelope := by
  cases h with
  | claim now tie row envelope hrow hdecode | claimLost now tie row error hrow hdecode =>
    exact db.outbox.map_rows_updateWhere (fun r _ ↦ r.eventId_claimed now) fun _ _ ↦ rfl
  | markHandled eventId now =>
    exact db.outbox.map_rows_updateWhere (fun r _ ↦ r.eventId_acked now) fun _ _ ↦ rfl
  | updateFailed eventId error now attempts =>
    exact db.outbox.map_rows_updateWhere (fun r _ ↦ r.eventId_failed _ _ _ now) fun _ _ ↦ rfl
  | _ => rfl

/-- **All the projections see of the bus is that the log grows.** -/
theorem log_of_move (h : Move bus engine s action t) :
    t.log = s.log ∨ ∃ text, t.log = s.log ++ [((s.log.length : ℤ) + 1, text)] := by
  cases h with
  | started i hfree => exact Or.inl rfl
  | projected i p action w hp hown hmove => exact Or.inl rfl
  | bus action world hmove =>
    cases WorldMove.of_step hmove with
    | accepted envelope now text hvalid htext =>
      cases hrow : s.world.db.outbox.lookup envelope.id with
      | some row => exact Or.inl (Tables.log_insertEvent_of_some (t := s.tables) hrow)
      | none => exact Or.inr ⟨text, Tables.log_insertEvent_of_none (t := s.tables) hrow⟩
    | work w pc pc' action db' obs hpc hwork =>
      refine Or.inl ?_
      rw [log_eq_numbered, log_eq_numbered, envelopes_of_workerMove hwork]
    | _ => exact Or.inl rfl

theorem log_isPrefix (h : Move bus engine s action t) : s.log <+: t.log := by
  rcases log_of_move h with hlog | ⟨text, hlog⟩
  · rw [hlog]
  · rw [hlog]
    exact List.prefix_append _ _

end Deployment

end PhenoEvents
