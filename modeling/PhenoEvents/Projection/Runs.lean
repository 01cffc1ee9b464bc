import PhenoEvents.Library.Transition
import PhenoEvents.Projection.Checkpoint

/-!
# The projection, commit by commit

`apply` and `rebuild_from_offset` are sequences of commits: an event is applied in one, its
checkpoint is written by the next.  Between any two of them the process may be replaced by another
one, a statement may fail, or someone may publish.  `World.step` takes one such step; what the
program does not control is in the action.

Nothing is assumed about the envelopes `apply` is given, their order, or how often each of them
comes.

`Move` says once what a step can do, and `Effect` what it does to the read model.  The lemmas
`run_…` say that the steps of a call add up to the call when nothing comes in between.

A `World` keeps the envelopes that have been applied to the read model, the newest first.  The
program does not; they are there so that one can say what the tables are made of.
-/

set_option autoImplicit false

namespace PhenoEvents

open Resume Transition

namespace OrderProjection

/-- How far the current call is. -/
inductive Call
  /-- There is none.  What the last one has returned. -/
  | idle (result : Option (Except ProjectionError Unit))
  /-- In `rebuild_from_offset`: the rows still to be applied. -/
  | replaying (rows : List (ℤ × String))
  /-- An event is committed, its checkpoint is not.  In `rebuild_from_offset` there may be more
  rows. -/
  | checkpointing (offset : ℤ) (rows : Option (List (ℤ × String)))
  deriving DecidableEq

/-- A process with a projection. -/
structure World where
  projection : OrderProjection
  call : Call
  /-- The envelopes that have been applied to the read model. -/
  applied : List EventEnvelope

/-- What happens next. -/
inductive Action
  /-- An envelope is published. -/
  | publish (envelope : EventEnvelope) (now : Instant)
  /-- The process ends, and another one calls `OrderProjection::new`. -/
  | restart
  /-- `apply` is called and commits the event. -/
  | apply (envelope : EventEnvelope) (now : Instant)
  /-- `rebuild_from_offset(offset())` is called and reads the rows. -/
  | rebuild
  /-- `rebuild_from_offset` commits the event of the next row, or returns. -/
  | next (now : Instant)
  /-- The checkpoint is committed. -/
  | save (now : Instant)
  /-- A statement fails, and the call returns. -/
  | fail (message : String)

namespace World

/-- A process that starts on these tables. -/
def start (pool : Tables) : World := ⟨.new pool, .idle none, []⟩

/-- The read model. -/
def readModel (s : World) : ReadModel := s.projection.pool.readModel

/-- The outbox. -/
def log (s : World) : List (ℤ × String) := s.projection.pool.log

theorem log_sorted (s : World) : s.log.Pairwise fun a b ↦ a.1 < b.1 := s.projection.pool.log_sorted

/-- The stored checkpoint. -/
def stored (s : World) : ℤ := s.projection.pool.checkpoint "orders"

theorem stored_checkpoint (p : OrderProjection) (now : Instant) (offset : ℤ) (call : Call)
    (applied : List EventEnvelope) :
    World.stored ⟨p.checkpoint now offset, call, applied⟩ = offset :=
  p.checkpoint_checkpoint now offset

/-- The call returns. -/
def returns (result : Except ProjectionError Unit) (s : World) : World :=
  { s with call := .idle (some result) }

/-- The first half of `apply_at_offset`. -/
def applyAtOffset (engine : SqlEngine) (now : Instant) (envelope : EventEnvelope) (offset : ℤ)
    (rows : Option (List (ℤ × String))) (s : World) : World :=
  match s.readModel.applyOrderEvent engine now envelope with
  | .error error => s.returns (.error error)
  | .ok rm => ⟨s.projection.withReadModel rm, .checkpointing offset rows, envelope :: s.applied⟩

/-- One step. -/
def step (bus : SqliteBus) (engine : SqlEngine) (s : World) : Action → Option World
  | .publish envelope now =>
    match bus.publish envelope now s.projection.pool.db with
    | .ok (db, _) => some { s with projection := s.projection.withDb db }
    | .error _ => some s
  | .restart => some { s with projection := .new s.projection.pool, call := .idle none }
  | .apply envelope now =>
    match s.call with
    | .idle _ => some (s.applyAtOffset engine now envelope (s.projection.offset + 1) none)
    | _ => none
  | .rebuild =>
    match s.call with
    | .idle _ => some { s with call := .replaying (after s.projection.offset s.log) }
    | _ => none
  | .next now =>
    match s.call with
    | .replaying [] => some (s.returns (.ok ()))
    | .replaying ((nextOffset, envelopeJson) :: rows) =>
      match bus.serde.fromStr envelopeJson with
      | .error message => some (s.returns (.error (.json message)))
      | .ok envelope => some (s.applyAtOffset engine now envelope nextOffset (some rows))
    | _ => none
  | .save now =>
    match s.call with
    | .checkpointing offset none =>
      some ⟨s.projection.checkpoint now offset, .idle (some (.ok ())), s.applied⟩
    | .checkpointing offset (some rows) =>
      some ⟨s.projection.checkpoint now offset, .replaying rows, s.applied⟩
    | _ => none
  | .fail message => some (s.returns (.error (.sqlite message)))

end World

/-! ## What a step can do

Each constructor has the guard of its step and the state after it, so that no later proof has to
look at the code of `step`. -/

/-- The ways a step can go.  The calls that fail are among them, and each of those returns its error
and leaves the tables alone. -/
inductive Move (bus : SqliteBus) (engine : SqlEngine) (s : World) : Action → World → Prop
  | published {envelope : EventEnvelope} {now : Instant} {db : Database} {ack : Ack}
      (hdb : bus.publish envelope now s.projection.pool.db = .ok (db, ack)) :
      Move bus engine s (.publish envelope now) { s with projection := s.projection.withDb db }
  | refused {envelope : EventEnvelope} {now : Instant} {error : PublishError}
      (hdb : bus.publish envelope now s.projection.pool.db = .error error) :
      Move bus engine s (.publish envelope now) s
  | restarted :
      Move bus engine s .restart { s with projection := .new s.projection.pool, call := .idle none }
  | applied {envelope : EventEnvelope} {now : Instant} {rm : ReadModel}
      {result : Option (Except ProjectionError Unit)} (hcall : s.call = .idle result)
      (hrm : s.readModel.applyOrderEvent engine now envelope = .ok rm) :
      Move bus engine s (.apply envelope now)
        ⟨s.projection.withReadModel rm, .checkpointing (s.projection.offset + 1) none,
          envelope :: s.applied⟩
  | rebuilding {result : Option (Except ProjectionError Unit)} (hcall : s.call = .idle result) :
      Move bus engine s .rebuild { s with call := .replaying (after s.projection.offset s.log) }
  | replayed {now : Instant} {offset : ℤ} {text : String} {rows : List (ℤ × String)}
      {envelope : EventEnvelope} {rm : ReadModel}
      (hcall : s.call = .replaying ((offset, text) :: rows))
      (hdecode : bus.serde.fromStr text = .ok envelope)
      (hrm : s.readModel.applyOrderEvent engine now envelope = .ok rm) :
      Move bus engine s (.next now)
        ⟨s.projection.withReadModel rm, .checkpointing offset (some rows), envelope :: s.applied⟩
  | rebuilt {now : Instant} (hcall : s.call = .replaying []) :
      Move bus engine s (.next now) (s.returns (.ok ()))
  | savedApply {now : Instant} {offset : ℤ} (hcall : s.call = .checkpointing offset none) :
      Move bus engine s (.save now)
        ⟨s.projection.checkpoint now offset, .idle (some (.ok ())), s.applied⟩
  | savedRow {now : Instant} {offset : ℤ} {rows : List (ℤ × String)}
      (hcall : s.call = .checkpointing offset (some rows)) :
      Move bus engine s (.save now)
        ⟨s.projection.checkpoint now offset, .replaying rows, s.applied⟩
  | notApplied {envelope : EventEnvelope} {now : Instant} {error : ProjectionError}
      (herror : s.readModel.applyOrderEvent engine now envelope = .error error) :
      Move bus engine s (.apply envelope now) (s.returns (.error error))
  | notDecoded {now : Instant} {offset : ℤ} {text message : String} {rows : List (ℤ × String)}
      (hcall : s.call = .replaying ((offset, text) :: rows))
      (hdecode : bus.serde.fromStr text = .error message) :
      Move bus engine s (.next now) (s.returns (.error (.json message)))
  | notReplayed {now : Instant} {offset : ℤ} {text : String} {rows : List (ℤ × String)}
      {envelope : EventEnvelope} {error : ProjectionError}
      (hcall : s.call = .replaying ((offset, text) :: rows))
      (hdecode : bus.serde.fromStr text = .ok envelope)
      (herror : s.readModel.applyOrderEvent engine now envelope = .error error) :
      Move bus engine s (.next now) (s.returns (.error error))
  | failed {message : String} :
      Move bus engine s (.fail message) (s.returns (.error (.sqlite message)))

namespace World

variable {bus : SqliteBus} {engine : SqlEngine} {s t : World} {action : Action}

/-- **Every step is one of the moves.** -/
theorem move_of_step (h : s.step bus engine action = some t) : Move bus engine s action t := by
  cases action with
  | publish envelope now =>
    rw [step] at h
    split at h
    · rename_i db ack hdb
      obtain rfl := Option.some_inj.1 h
      exact .published hdb
    · rename_i error hdb
      obtain rfl := Option.some_inj.1 h
      exact .refused hdb
  | restart =>
    obtain rfl := Option.some_inj.1 h
    exact .restarted
  | apply envelope now =>
    rw [step] at h
    split at h
    · rename_i result hcall
      obtain rfl := Option.some_inj.1 h
      rw [applyAtOffset]
      split
      · rename_i error herror
        exact .notApplied herror
      · rename_i rm hrm
        exact .applied hcall hrm
    · cases h
  | rebuild =>
    rw [step] at h
    split at h
    · rename_i result hcall
      obtain rfl := Option.some_inj.1 h
      exact .rebuilding hcall
    · cases h
  | next now =>
    rw [step] at h
    split at h
    · rename_i hcall
      obtain rfl := Option.some_inj.1 h
      exact .rebuilt hcall
    · rename_i offset text rows hcall
      split at h
      · rename_i message hdecode
        obtain rfl := Option.some_inj.1 h
        exact .notDecoded hcall hdecode
      · rename_i envelope hdecode
        obtain rfl := Option.some_inj.1 h
        rw [applyAtOffset]
        split
        · rename_i error herror
          exact .notReplayed hcall hdecode herror
        · rename_i rm hrm
          exact .replayed hcall hdecode hrm
    · cases h
  | save now =>
    rw [step] at h
    split at h
    · rename_i offset hcall
      obtain rfl := Option.some_inj.1 h
      exact .savedApply hcall
    · rename_i offset rows hcall
      obtain rfl := Option.some_inj.1 h
      exact .savedRow hcall
    · cases h
  | fail message =>
    obtain rfl := Option.some_inj.1 h
    exact .failed

/-! ## What a step does to the read model

Only one kind of step touches it, and that one hands one envelope to `apply_order_event`.  All
results about the contents of the tables begin here. -/

/-- The envelope a step hands to `apply_order_event`.  A row that does not decode is not handed to
it. -/
def delivers (bus : SqliteBus) (s : World) : Action → Option EventEnvelope
  | .apply envelope _ => some envelope
  | .next _ =>
    match s.call with
    | .replaying ((_, envelopeJson) :: _) => (bus.serde.fromStr envelopeJson).toOption
    | _ => none
  | _ => none

/-- A step applies one envelope to the read model, or it tries to, or it leaves it alone. -/
inductive Effect (bus : SqliteBus) (engine : SqlEngine) (s : World) (action : Action) (t : World) :
    Prop
  | none (hdelivers : s.delivers bus action = none) (hrm : t.readModel = s.readModel)
      (happlied : t.applied = s.applied)
  | refused {envelope : EventEnvelope} {now : Instant} {error : ProjectionError}
      (hdelivers : s.delivers bus action = some envelope)
      (herror : s.readModel.applyOrderEvent engine now envelope = .error error)
      (hrm : t.readModel = s.readModel) (happlied : t.applied = s.applied)
  | applied {envelope : EventEnvelope} {now : Instant}
      (hdelivers : s.delivers bus action = some envelope)
      (hrm : s.readModel.applyOrderEvent engine now envelope = .ok t.readModel)
      (happlied : t.applied = envelope :: s.applied)

theorem effect_of_step (h : s.step bus engine action = some t) : Effect bus engine s action t := by
  cases move_of_step h with
  | published _ | restarted | rebuilding _ | savedApply _ | savedRow _ | failed =>
    exact .none rfl rfl rfl
  | refused _ => exact .none rfl rfl rfl
  | applied hcall hrm => exact .applied rfl hrm rfl
  | replayed hcall hdecode hrm =>
    exact .applied (by rw [delivers, hcall]; exact congrArg Except.toOption hdecode) hrm rfl
  | rebuilt hcall => exact .none (by rw [delivers, hcall]) rfl rfl
  | notApplied herror => exact .refused rfl herror rfl rfl
  | notDecoded hcall hdecode =>
    exact .none (by rw [delivers, hcall]; exact congrArg Except.toOption hdecode) rfl rfl
  | notReplayed hcall hdecode herror =>
    exact .refused (by rw [delivers, hcall]; exact congrArg Except.toOption hdecode) herror rfl rfl

/-! ## Calls that are not interrupted

The system is made of the same calls that were translated as functions in the module before, and
these lemmas are the proof of it. -/

/-- **A call of `apply` that is not interrupted is two steps.** -/
theorem run_apply (clock : Instant × Instant) {envelope : EventEnvelope}
    {result : Option (Except ProjectionError Unit)} (hcall : s.call = .idle result) :
    ∃ as t, run (step bus engine) s as = some t ∧
      t.projection = (OrderProjection.apply engine clock envelope s.projection).1 ∧
      t.call = .idle (some (OrderProjection.apply engine clock envelope s.projection).2) := by
  rw [OrderProjection.apply, OrderProjection.applyAtOffset]
  cases hrm : s.projection.pool.readModel.applyOrderEvent engine clock.1 envelope with
  | error error =>
    refine ⟨[.apply envelope clock.1], s.returns (.error error), ?_, rfl, rfl⟩
    rw [run, step, hcall]
    simp only [applyAtOffset, readModel, hrm]
    rfl
  | ok rm =>
    refine ⟨[.apply envelope clock.1, .save clock.2],
      ⟨_, .idle (some (.ok ())), envelope :: s.applied⟩, ?_, rfl, rfl⟩
    rw [run, step, hcall]
    simp only [applyAtOffset, readModel, hrm]
    rfl

/-- **A loop of `rebuild_from_offset` that is not interrupted is the loop of its steps.**  This is
by induction on the rows; each of them is a step that commits the event and one that commits the
checkpoint. -/
theorem run_rebuildRows (clock : ℤ → Instant × Instant) {rows : List (ℤ × String)}
    (hcall : s.call = .replaying rows) :
    ∃ as t, run (step bus engine) s as = some t ∧
      t.projection = (rebuildRows bus.serde engine clock rows s.projection).1 ∧
      t.call = .idle (some (rebuildRows bus.serde engine clock rows s.projection).2) := by
  induction rows generalizing s with
  | nil =>
    refine ⟨[.next 0], s.returns (.ok ()), ?_, rfl, rfl⟩
    rw [run, step, hcall]
    rfl
  | cons row rows ih =>
    obtain ⟨offset, text⟩ := row
    rw [rebuildRows]
    cases hdecode : bus.serde.fromStr text with
    | error message =>
      refine ⟨[.next 0], s.returns (.error (.json message)), ?_, rfl, rfl⟩
      rw [run, step, hcall]
      simp only [hdecode]
      rfl
    | ok envelope =>
      simp only [OrderProjection.applyAtOffset]
      cases hrm : s.projection.pool.readModel.applyOrderEvent engine (clock offset).1 envelope with
      | error error =>
        refine ⟨[.next (clock offset).1], s.returns (.error error), ?_, rfl, rfl⟩
        rw [run, step, hcall]
        simp only [hdecode, applyAtOffset, readModel, hrm]
        rfl
      | ok rm =>
        obtain ⟨as, t, hrun, hprojection, hresult⟩ := ih (s := ⟨(s.projection.withReadModel
          rm).checkpoint (clock offset).2 offset, .replaying rows, envelope :: s.applied⟩) rfl
        refine ⟨.next (clock offset).1 :: .save (clock offset).2 :: as, t, ?_, hprojection, hresult⟩
        rw [run, step, hcall]
        simp only [hdecode, applyAtOffset, readModel, hrm]
        exact hrun

/-- **A call of `rebuild_from_offset` that is not interrupted.** -/
theorem run_rebuildFromOffset (clock : ℤ → Instant × Instant)
    {result : Option (Except ProjectionError Unit)} (hcall : s.call = .idle result) :
    ∃ as t, run (step bus engine) s as = some t ∧
      t.projection =
        (rebuildFromOffset bus.serde engine clock s.projection.offset s.projection).1 ∧
      t.call = .idle (some
        (rebuildFromOffset bus.serde engine clock s.projection.offset s.projection).2) := by
  let reading : World := { s with call := .replaying (after s.projection.offset s.log) }
  have hreading : s.step bus engine .rebuild = some reading := by
    rw [step, hcall]
  have hloop : ∃ as t, run (step bus engine) reading as = some t ∧
      t.projection =
        (rebuildFromOffset bus.serde engine clock s.projection.offset s.projection).1 ∧
      t.call = .idle (some
        (rebuildFromOffset bus.serde engine clock s.projection.offset s.projection).2) :=
    run_rebuildRows clock rfl
  obtain ⟨as, t, hrun, ht⟩ := hloop
  exact ⟨.rebuild :: as, t, run_cons_eq_some.2 ⟨reading, hreading, hrun⟩, ht⟩

end World

/-! ## A bus with the events of one order

For the runs that are evaluated: two envelopes and their texts, as `serde_json` writes them. -/

/-- The text of an event. -/
def orderEventText (id eventType payload : String) : String :=
  "\x7b\"id\":\"00000000-0000-0000-0000-00000000000" ++ id ++ "\",\"event_type\":\"" ++ eventType ++
    "\",\"source\":\"orders\",\"timestamp\":\"1970-01-01T00:00:00Z\",\"causation_id\":null," ++
    "\"correlation_id\":null,\"schema_version\":1,\"payload\":" ++ payload ++ "\x7d"

/-- The text of `orderCreated`. -/
def orderCreatedText : String :=
  orderEventText "1" "order.created" "\x7b\"customer_id\":\"cust_1\",\"order_id\":\"ord_1\"\x7d"

/-- The text of `itemAdded`. -/
def itemAddedText : String :=
  orderEventText "2" "order.item_added" ("\x7b\"order_id\":\"ord_1\",\"quantity\":2," ++
    "\"sku\":\"sku_1\",\"unit_price_cents\":500\x7d")

/-- A bus that knows these two events. -/
def ordersBus : SqliteBus :=
  ⟨.table [(orderCreated, orderCreatedText), (itemAdded, itemAddedText)] (by decide +kernel), 3⟩

end OrderProjection

end PhenoEvents
