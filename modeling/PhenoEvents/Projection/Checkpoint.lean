import PhenoEvents.Bus.Outbox
import PhenoEvents.Library.Resume
import PhenoEvents.Projection.Orders

/-!
# The projection and its checkpoint

`OrderProjection`: the read model, the checkpoint next to it, and the two ways of moving both,
`apply` and `rebuild_from_offset`.  Here a call runs from its start to its end; `Projection.Runs`
takes the same calls apart.

A rowid of `outbox` is the position of the row, counted from one, because no row is ever deleted.
Offsets are integers: they are counted up one by one and never get near the end of `i64`.

## What is here

* `Tables`: the outbox, the read model and the checkpoints, which are all in one database.
* `Tables.log`: the rows of the outbox as a rebuild selects them, with rowid and text, in the order
  of the rowids.
* `SqlProjection` and `OrderProjection`: a name, which is a constant of the source, and an offset in
  memory.  `checkpoint` writes the offset it is given and keeps it.
* `applyAtOffset`, which is used by both ways of moving: the event first, and then its checkpoint.
* `apply` passes the offset in memory plus one; `rebuildFromOffset` passes the rowid of the row.

The offset in memory and the stored one may differ: another process may have stored another one.
-/

set_option autoImplicit false

namespace PhenoEvents

open Resume

/-- A row of `projection_checkpoints`. -/
structure CheckpointRow where
  name : String
  offset : ℤ
  updatedAt : Instant
  deriving DecidableEq

/-- The checkpoint after another `checkpoint_projection`. -/
def CheckpointRow.moved (now : Instant) (offset : ℤ) (r : CheckpointRow) : CheckpointRow :=
  { r with offset := offset, updatedAt := now }

theorem CheckpointRow.name_moved (now : Instant) (offset : ℤ) (r : CheckpointRow) :
    (r.moved now offset).name = r.name := rfl

/-- The tables a projection works on. -/
structure Tables where
  db : Database
  readModel : ReadModel
  checkpoints : KeyedTable CheckpointRow.name

namespace Tables

/-- The tables before anything happens. -/
def empty : Tables := ⟨.empty, .empty, .empty⟩

/-- `checkpoint`. -/
def checkpoint (name : String) (t : Tables) : ℤ :=
  ((t.checkpoints.lookup name).map CheckpointRow.offset).getD 0

/-- `checkpoint_projection`. -/
def checkpointProjection (now : Instant) (name : String) (offset : ℤ) (t : Tables) : Tables :=
  { t with
    checkpoints := t.checkpoints.upsert ⟨name, offset, now⟩ (CheckpointRow.moved now offset)
      fun r _ ↦ r.name_moved now offset }

/-! ## The log

The rows are selected once, at the beginning of a rebuild, with the rowids that SQLite gives them.
-/

/-- The rowids and the envelopes of `outbox`, in order. -/
def log (t : Tables) : List (ℤ × String) :=
  t.db.outbox.rows.mapIdx fun i (r : OutboxRow) ↦ ((i : ℤ) + 1, r.envelope)

theorem checkpoint_checkpointProjection (now : Instant) (name : String) (offset : ℤ)
    (t : Tables) : (t.checkpointProjection now name offset).checkpoint name = offset := by
  have hlookup := t.checkpoints.lookup_upsert_self ⟨name, offset, now⟩
    (CheckpointRow.moved now offset) fun r _ ↦ r.name_moved now offset
  rw [checkpoint, checkpointProjection]
  cases h : t.checkpoints.lookup name with
  | none => rw [hlookup, h]; rfl
  | some r => rw [hlookup, h]; rfl

/-- Rowids increase. -/
theorem log_sorted (t : Tables) : t.log.Pairwise fun a b ↦ a.1 < b.1 := by
  rw [log, List.pairwise_iff_getElem]
  intro i j hi hj hij
  rw [List.getElem_mapIdx, List.getElem_mapIdx]
  show (i : ℤ) + 1 < (j : ℤ) + 1
  omega

theorem le_length_of_mem_log {t : Tables} {offset : ℤ} {text : String}
    (h : (offset, text) ∈ t.log) : offset ≤ t.log.length := by
  obtain ⟨i, hi, heq⟩ := List.mem_mapIdx.1 h
  obtain ⟨rfl, -⟩ := Prod.mk.inj heq
  rw [log, List.length_mapIdx]
  omega

/-- There is one row for each rowid. -/
theorem text_unique_of_mem_log {t : Tables} {offset : ℤ} {text text' : String}
    (h : (offset, text) ∈ t.log) (h' : (offset, text') ∈ t.log) : text = text' := by
  obtain ⟨i, hi, heq⟩ := List.mem_mapIdx.1 h
  obtain ⟨j, hj, heq'⟩ := List.mem_mapIdx.1 h'
  obtain ⟨hoffset, rfl⟩ := Prod.mk.inj heq
  obtain ⟨hoffset', rfl⟩ := Prod.mk.inj heq'
  obtain rfl : i = j := by omega
  rfl

/-- Rowids are counted up one by one. -/
theorem log_eq_numbered (t : Tables) :
    t.log = numbered 0 (t.db.outbox.rows.map OutboxRow.envelope) := by
  rw [← mapIdx_eq_numbered, log]
  refine congrArg (List.mapIdx · _) (funext fun i ↦ funext fun r ↦ ?_)
  rw [Int.zero_add]

/-- Every rowid is positive. -/
theorem after_zero_log (t : Tables) : after 0 t.log = t.log := by
  refine List.filter_eq_self.2 fun row hrow ↦ decide_eq_true ?_
  obtain ⟨i, hi, rfl⟩ := List.mem_mapIdx.1 hrow
  show (0 : ℤ) < (i : ℤ) + 1
  omega

end Tables

/-- `SqlProjection`, by its name. -/
structure SqlProjection (name : String) where
  pool : Tables
  offset : ℤ

namespace SqlProjection

variable {name : String}

/-- `SqlProjection::new`, which migrates nothing that is there. -/
def new (name : String) (pool : Tables) : SqlProjection name := ⟨pool, pool.checkpoint name⟩

/-- `SqlProjection::checkpoint`. -/
def checkpoint (now : Instant) (offset : ℤ) (p : SqlProjection name) : SqlProjection name :=
  ⟨p.pool.checkpointProjection now name offset, offset⟩

/-- The projection with another read model. -/
def withReadModel (rm : ReadModel) (p : SqlProjection name) : SqlProjection name :=
  { p with pool := { p.pool with readModel := rm } }

/-- The projection with other tables of the bus. -/
def withDb (db : Database) (p : SqlProjection name) : SqlProjection name :=
  { p with pool := { p.pool with db := db } }

theorem checkpoint_checkpoint (p : SqlProjection name) (now : Instant) (offset : ℤ) :
    (p.checkpoint now offset).pool.checkpoint name = offset :=
  p.pool.checkpoint_checkpointProjection now name offset

end SqlProjection

/-! ## The two ways of moving

`apply` counts deliveries, and `rebuild_from_offset` takes the rowid of the row. -/

/-- `OrderProjection`. -/
abbrev OrderProjection := SqlProjection "orders"

namespace OrderProjection

/-- `OrderProjection::new`. -/
def new (pool : Tables) : OrderProjection := SqlProjection.new "orders" pool

/-- `OrderProjection::apply_at_offset`.  The clock is read for the event and for the checkpoint. -/
def applyAtOffset (engine : SqlEngine) (clock : Instant × Instant) (envelope : EventEnvelope)
    (offset : ℤ) (p : OrderProjection) : OrderProjection × Except ProjectionError Unit :=
  match p.pool.readModel.applyOrderEvent engine clock.1 envelope with
  | .error error => (p, .error error)
  | .ok rm => ((p.withReadModel rm).checkpoint clock.2 offset, .ok ())

/-- `OrderProjection::apply`. -/
def apply (engine : SqlEngine) (clock : Instant × Instant) (envelope : EventEnvelope)
    (p : OrderProjection) : OrderProjection × Except ProjectionError Unit :=
  applyAtOffset engine clock envelope (p.offset + 1) p

theorem readModel_apply (engine : SqlEngine) (clock : Instant × Instant) (envelope : EventEnvelope)
    (p : OrderProjection) : (apply engine clock envelope p).1.pool.readModel =
      p.pool.readModel.afterApply engine clock.1 envelope := by
  rw [apply, applyAtOffset]
  cases h : p.pool.readModel.applyOrderEvent engine clock.1 envelope with
  | error error => exact (ReadModel.afterApply_of_error h).symm
  | ok rm => exact (ReadModel.afterApply_of_ok h).symm

/-- Call `apply` on one envelope after the other, whatever it returns. -/
def applyEach (engine : SqlEngine) (envelopes : List ((Instant × Instant) × EventEnvelope))
    (p : OrderProjection) : OrderProjection :=
  envelopes.foldl (fun p e ↦ (apply engine e.1 e.2 p).1) p

/-- The loop of `rebuild_from_offset`.  No offset comes twice, so the clock is a function of it. -/
def rebuildRows (serde : Serde) (engine : SqlEngine) (clock : ℤ → Instant × Instant) :
    List (ℤ × String) → OrderProjection → OrderProjection × Except ProjectionError Unit
  | [], p => (p, .ok ())
  | (nextOffset, envelopeJson) :: rows, p =>
    match serde.fromStr envelopeJson with
    | .error message => (p, .error (.json message))
    | .ok envelope =>
      match applyAtOffset engine (clock nextOffset) envelope nextOffset p with
      | (p, .error error) => (p, .error error)
      | (p, .ok ()) => rebuildRows serde engine clock rows p

/-- `OrderProjection::rebuild_from_offset`. -/
def rebuildFromOffset (serde : Serde) (engine : SqlEngine) (clock : ℤ → Instant × Instant)
    (offset : ℤ) (p : OrderProjection) : OrderProjection × Except ProjectionError Unit :=
  rebuildRows serde engine clock (after offset p.pool.log) p

end OrderProjection

end PhenoEvents
