import PhenoEvents.Projection.Runs
import PhenoEvents.Projection.Writes

/-!
# Crashing and resuming a rebuild

The event and its checkpoint are two commits, so a rebuild that starts again from the checkpoint may
apply one event a second time.  Every event is absorbed when it comes twice in a row, on every read
model (`applyText_absorbs`), and so the outcome that is still ahead of the projection is the same in
every state of such a run: the invariant is `Resuming`.  The run ends where a single call of
`rebuild_from_offset` ends (`crash_resume`).

The read models are compared without their `updated_at` columns.

## How it goes

* A single call is a `replay` of the rows above its offset (`replay_rebuildRows`), and what it comes
  to is the `outcome` of the library, for the log, the checkpoint and the erased tables.
* `Resuming` says of every state of an interrupted run that the outcome is still the same, and that
  the rows a call has left to apply are those behind the checkpoint, with the one whose checkpoint
  is missing in front.
* The steps keep it: applying a row and storing its offset by the two lemmas of the library, and a
  crash, since the next process begins at the stored checkpoint.
* A run may fail as often as it likes.  Once a call gets through, it has returned what the first one
  would have returned.
-/

set_option autoImplicit false

namespace PhenoEvents

open Except Resume Transition

namespace ReadModel

/-- What `rebuild_from_offset` does with the text of a row, the clock apart. -/
def applyText (serde : Serde) (engine : SqlEngine) (rm : ReadModel) (text : String) :
    Except ProjectionError ReadModel := do
  let envelope ← (serde.fromStr text).mapError .json
  rm.applyOrderEvent engine 0 envelope

variable {serde : Serde} {engine : SqlEngine} {rm rm' : ReadModel} {text : String}

theorem applyText_absorbs : Absorbs (applyText serde engine) := by
  intro rm text rm' h
  rw [applyText, bind_eq_ok_iff] at h ⊢
  obtain ⟨envelope, hdecode, happly⟩ := h
  exact ⟨envelope, hdecode, applyOrderEvent_applyOrderEvent happly⟩

theorem applyText_erase_of_decoded {envelope : EventEnvelope}
    (hdecode : serde.fromStr text = .ok envelope) (now : Instant) :
    applyText serde engine rm.erase text = (rm.applyOrderEvent engine now envelope).map erase := by
  rw [applyText, hdecode, erase_applyOrderEvent]
  rfl

theorem applyText_of_not_decoded {message : String}
    (hdecode : serde.fromStr text = .error message) :
    applyText serde engine rm text = .error (.json message) := by
  rw [applyText, hdecode]
  rfl

end ReadModel

namespace OrderProjection

open ReadModel

variable {bus : SqliteBus} {engine : SqlEngine} {serde : Serde}

/-! ## One call

`Resume` is about entries and a place in them.  A rebuild is a replay of the rows that are left, on
tables without their times, and it ends with the checkpoint of the last of them. -/

/-- A rebuild replays its rows. -/
theorem replay_rebuildRows (clock : ℤ → Instant × Instant) (rows : List (ℤ × String))
    (p : OrderProjection) :
    replay (applyText serde engine) p.pool.readModel.erase rows =
      (rebuildRows serde engine clock rows p).2.map
        fun _ ↦ (rebuildRows serde engine clock rows p).1.pool.readModel.erase := by
  induction rows generalizing p with
  | nil => rfl
  | cons row rows ih =>
    obtain ⟨offset, text⟩ := row
    rw [replay, rebuildRows]
    cases hdecode : serde.fromStr text with
    | error message => rw [applyText_of_not_decoded hdecode]; rfl
    | ok envelope =>
      rw [applyText_erase_of_decoded hdecode (clock offset).1]
      simp only [applyAtOffset]
      cases p.pool.readModel.applyOrderEvent engine (clock offset).1 envelope with
      | error error => rfl
      | ok rm => exact ih ((p.withReadModel rm).checkpoint (clock offset).2 offset)

/-- A rebuild that returns `Ok` ends with the checkpoint of its last row. -/
theorem rebuildRows_eq_checkpoint (clock : ℤ → Instant × Instant) {rows : List (ℤ × String)}
    (p : OrderProjection) (hok : (rebuildRows serde engine clock rows p).2 = .ok ())
    (hrows : rows ≠ []) (checkpoint : ℤ) :
    ∃ (q : OrderProjection) (now : Instant), (rebuildRows serde engine clock rows p).1 =
      q.checkpoint now (lastOffset checkpoint rows) := by
  induction rows generalizing p checkpoint with
  | nil => exact absurd rfl hrows
  | cons row rows ih =>
    obtain ⟨offset, text⟩ := row
    rw [lastOffset_cons]
    rw [rebuildRows] at hok ⊢
    cases hdecode : serde.fromStr text with
    | error message =>
      simp only [hdecode, reduceCtorEq] at hok
    | ok envelope =>
      simp only [hdecode, applyAtOffset] at hok ⊢
      cases hrm : p.pool.readModel.applyOrderEvent engine (clock offset).1 envelope with
      | error error => simp only [hrm, reduceCtorEq] at hok
      | ok rm =>
        simp only [hrm] at hok ⊢
        cases rows with
        | nil => exact ⟨p.withReadModel rm, (clock offset).2, rfl⟩
        | cons row rows => exact ih _ hok (List.cons_ne_nil _ _) offset

/-- A rebuild that returns `Ok` leaves the checkpoint at its last row. -/
theorem checkpoint_rebuildRows (clock : ℤ → Instant × Instant) (rows : List (ℤ × String))
    (p : OrderProjection) (hok : (rebuildRows serde engine clock rows p).2 = .ok ()) :
    (rebuildRows serde engine clock rows p).1.pool.checkpoint "orders" =
      lastOffset (p.pool.checkpoint "orders") rows := by
  cases rows with
  | nil => rfl
  | cons row rows =>
    obtain ⟨q, now, hq⟩ := rebuildRows_eq_checkpoint clock p hok (List.cons_ne_nil _ _) _
    rw [hq]
    exact q.checkpoint_checkpoint now _

/-- A rebuild that returns `Ok` counts up to its last row. -/
theorem offset_rebuildRows (clock : ℤ → Instant × Instant) (rows : List (ℤ × String))
    (p : OrderProjection) (hok : (rebuildRows serde engine clock rows p).2 = .ok ()) :
    (rebuildRows serde engine clock rows p).1.offset = lastOffset p.offset rows := by
  cases rows with
  | nil => rfl
  | cons row rows =>
    obtain ⟨q, now, hq⟩ := rebuildRows_eq_checkpoint clock p hok (List.cons_ne_nil _ _) p.offset
    rw [hq]
    rfl

/-- A rebuild leaves the outbox alone. -/
theorem db_rebuildRows (clock : ℤ → Instant × Instant) (rows : List (ℤ × String))
    (p : OrderProjection) : (rebuildRows serde engine clock rows p).1.pool.db = p.pool.db := by
  induction rows generalizing p with
  | nil => rfl
  | cons row rows ih =>
    obtain ⟨offset, text⟩ := row
    rw [rebuildRows]
    cases serde.fromStr text with
    | error message => rfl
    | ok envelope =>
      simp only [applyAtOffset]
      cases p.pool.readModel.applyOrderEvent engine (clock offset).1 envelope with
      | error error => rfl
      | ok rm => exact ih _

theorem log_rebuildRows (clock : ℤ → Instant × Instant) (rows : List (ℤ × String))
    (p : OrderProjection) : (rebuildRows serde engine clock rows p).1.pool.log = p.pool.log :=
  congrArg (fun db ↦ Tables.log ⟨db, .empty, .empty⟩) (db_rebuildRows clock rows p)

/-- Two calls come to the same: the same result and, if that is `Ok`, the same tables and the same
checkpoint. -/
structure Agree (a b : OrderProjection × Except ProjectionError Unit) : Prop where
  result : a.2 = b.2
  readModel : a.2 = .ok () → a.1.pool.readModel.erase = b.1.pool.readModel.erase
  checkpoint : a.2 = .ok () → a.1.pool.checkpoint "orders" = b.1.pool.checkpoint "orders"

/-- What is still ahead of the projection. -/
def outcome (serde : Serde) (engine : SqlEngine) (p : OrderProjection) :
    Except ProjectionError ReadModel × ℤ :=
  Resume.outcome (applyText serde engine) p.pool.log (p.pool.checkpoint "orders")
    p.pool.readModel.erase

/-- `rebuild_from_offset` from the stored checkpoint. -/
def rebuildFromCheckpoint (serde : Serde) (engine : SqlEngine) (clock : ℤ → Instant × Instant)
    (p : OrderProjection) : OrderProjection × Except ProjectionError Unit :=
  rebuildFromOffset serde engine clock (p.pool.checkpoint "orders") p

/-- **Two rebuilds with the same outcome ahead of them come to the same.** -/
theorem rebuildFromCheckpoint_agree {p q : OrderProjection}
    (h : outcome serde engine p = outcome serde engine q) (clock clock' : ℤ → Instant × Instant) :
    Agree (rebuildFromCheckpoint serde engine clock p)
      (rebuildFromCheckpoint serde engine clock' q) := by
  obtain ⟨hreplay, hlast⟩ := Prod.ext_iff.1 h
  have hmodels := map_const_eq_iff.1
    ((replay_rebuildRows clock _ p).symm.trans (hreplay.trans (replay_rebuildRows clock' _ q)))
  refine ⟨hmodels.1, hmodels.2, fun hok ↦ ?_⟩
  have hok' : (rebuildFromCheckpoint serde engine clock' q).2 = .ok () := hmodels.1 ▸ hok
  calc (rebuildFromCheckpoint serde engine clock p).1.pool.checkpoint "orders"
      = (outcome serde engine p).2 := checkpoint_rebuildRows clock _ p hok
    _ = (outcome serde engine q).2 := hlast
    _ = (rebuildFromCheckpoint serde engine clock' q).1.pool.checkpoint "orders" :=
      (checkpoint_rebuildRows clock' _ q hok').symm

/-! ## Calls that are interrupted

Nothing publishes during such a run.  What comes to the log later is for a later call. -/

/-- Steps of a process that does nothing but rebuild. -/
def Action.resumes : Action → Bool
  | .restart | .rebuild | .next _ | .save _ | .fail _ => true
  | .publish _ _ | .apply _ _ => false

/-- The rows a call still has to apply are those behind the checkpoint, and an event whose
checkpoint is missing is the first of them. -/
def Call.Ahead (bus : SqliteBus) (engine : SqlEngine) (s : World) : Call → Prop
  | .idle (some (.ok ())) => after s.stored s.log = []
  | .idle _ => True
  | .replaying rows => after s.stored s.log = rows
  | .checkpointing _ none => False
  | .checkpointing offset (some rows) => ∃ text, after s.stored s.log = (offset, text) :: rows ∧
      applyText bus.serde engine s.readModel.erase text = .ok s.readModel.erase

/-- A process that rebuilds, somewhere on its way to an outcome.  The outcome is fixed at the start,
and what is ahead of the process always leads to it. -/
structure Resuming (bus : SqliteBus) (engine : SqlEngine)
    (ahead : Except ProjectionError ReadModel × ℤ) (s : World) : Prop where
  offset : s.projection.offset = s.stored
  call : s.call.Ahead bus engine s
  outcome : s.projection.outcome bus.serde engine = ahead

theorem Resuming.ahead_of_call {s : World} {ahead : Except ProjectionError ReadModel × ℤ}
    (h : Resuming bus engine ahead s) {call : Call} (hcall : s.call = call) :
    call.Ahead bus engine s :=
  hcall ▸ h.call

/-- A rebuild that has returned `Ok` has nothing left to do. -/
theorem Resuming.after_eq_nil_of_done {s : World} {ahead : Except ProjectionError ReadModel × ℤ}
    (h : Resuming bus engine ahead s) (hdone : s.call = .idle (some (.ok ()))) :
    after s.stored s.log = [] :=
  h.ahead_of_call hdone

namespace World

variable {s t : World} {ahead : Except ProjectionError ReadModel × ℤ} {action : Action}

theorem resuming_start (bus : SqliteBus) (engine : SqlEngine) (pool : Tables) :
    Resuming bus engine ((OrderProjection.new pool).outcome bus.serde engine) (start pool) :=
  ⟨rfl, trivial, rfl⟩

/-- **Every step of a process that rebuilds keeps the outcome.**  There are four: a row is applied,
its offset is stored, a statement fails, or the process starts again. -/
theorem resuming_step (h : Resuming bus engine ahead s) (hresumes : action.resumes = true)
    (hstep : s.step bus engine action = some t) : Resuming bus engine ahead t := by
  cases move_of_step hstep with
  | published hdb => cases hresumes
  | refused hdb => cases hresumes
  | restarted => exact ⟨rfl, trivial, h.outcome⟩
  | applied hcall hrm => cases hresumes
  | rebuilding hcall => exact ⟨h.offset, congrArg (after · s.log) h.offset.symm, h.outcome⟩
  | @replayed now offset text rows envelope rm hcall hdecode hrm =>
    have hahead : after s.stored s.log = (offset, text) :: rows := h.ahead_of_call hcall
    have happly : applyText bus.serde engine s.readModel.erase text = .ok rm.erase := by
      rw [applyText_erase_of_decoded hdecode now, hrm]
      rfl
    refine ⟨h.offset, ⟨text, hahead, applyText_absorbs _ _ _ happly⟩, ?_⟩
    exact (outcome_of_applied applyText_absorbs hahead happly).trans h.outcome
  | rebuilt hcall => exact ⟨h.offset, h.ahead_of_call hcall, h.outcome⟩
  | savedApply hcall => exact (h.ahead_of_call hcall).elim
  | @savedRow now offset rows hcall =>
    obtain ⟨text, hahead, happly⟩ := h.ahead_of_call hcall
    refine ⟨(stored_checkpoint ..).symm, ?_, ?_⟩
    · show after (World.stored ⟨_, _, _⟩) s.log = rows
      rw [stored_checkpoint]
      exact after_eq_of_after_eq_cons s.log_sorted hahead
    · show Resume.outcome _ s.log (World.stored ⟨_, .replaying rows, s.applied⟩) s.readModel.erase =
        ahead
      rw [stored_checkpoint, outcome_of_saved s.log_sorted hahead happly]
      exact h.outcome
  | notApplied _ | notDecoded _ _ | notReplayed _ _ _ | failed =>
    exact ⟨h.offset, trivial, h.outcome⟩

theorem resuming_run {as : List Action} (h : Resuming bus engine ahead s)
    (has : ∀ a ∈ as, a.resumes = true) (hrun : run (step bus engine) s as = some t) :
    Resuming bus engine ahead t :=
  run_invariant_of_forall (fun _ _ _ hs ha hstep ↦ resuming_step hs ha hstep) h has hrun

end World

/-- **However often it crashes, one more call comes to what the first would have come to**, with the
error it would have stopped at, if there is one. -/
theorem rebuild_after_crashes (bus : SqliteBus) (engine : SqlEngine)
    (clock clock' : ℤ → Instant × Instant) (pool : Tables) (as : List Action) (s : World)
    (has : ∀ a ∈ as, a.resumes = true)
    (hrun : run (World.step bus engine) (.start pool) as = some s) :
    Agree (rebuildFromCheckpoint bus.serde engine clock (.new s.projection.pool))
      (rebuildFromCheckpoint bus.serde engine clock' (.new pool)) :=
  rebuildFromCheckpoint_agree (p := .new s.projection.pool)
    (World.resuming_run (World.resuming_start bus engine pool) has hrun).outcome clock clock'

/-- **Crashing does not show.**  A process that rebuilds, and is killed and started again any number
of times between any two commits, ends with the tables and the checkpoint of one call.  The call
that is not interrupted returns `Ok` as well, so it is not assumed to. -/
theorem crash_resume (bus : SqliteBus) (engine : SqlEngine) (clock : ℤ → Instant × Instant)
    (pool : Tables) (as : List Action) (s : World) (has : ∀ a ∈ as, a.resumes = true)
    (hrun : run (World.step bus engine) (.start pool) as = some s)
    (hdone : s.call = .idle (some (.ok ()))) :
    let uninterrupted :=
      rebuildFromOffset bus.serde engine clock (pool.checkpoint "orders") (.new pool)
    uninterrupted.2 = .ok () ∧
      s.readModel.erase = uninterrupted.1.pool.readModel.erase ∧
      s.stored = uninterrupted.1.pool.checkpoint "orders" := by
  intro uninterrupted
  have hend := World.resuming_run (World.resuming_start bus engine pool) has hrun
  -- one more call has nothing to do
  have hnothing :
      rebuildFromCheckpoint bus.serde engine clock s.projection = (s.projection, .ok ()) := by
    show rebuildRows bus.serde engine clock (after s.stored s.log) s.projection = _
    rw [hend.after_eq_nil_of_done hdone]
    rfl
  have hagree : Agree (rebuildFromCheckpoint bus.serde engine clock s.projection) uninterrupted :=
    rebuildFromCheckpoint_agree hend.outcome clock clock
  rw [hnothing] at hagree
  exact ⟨hagree.result.symm, hagree.readModel rfl, hagree.checkpoint rfl⟩

/-- An order and an item, published and not yet applied. -/
def publishedTables : Tables :=
  { Tables.empty with
    db := (Database.empty.insertEvent ⟨1⟩ orderCreatedText 0).insertEvent ⟨2⟩ itemAddedText 0 }

/-- The first event is applied, and the process is killed before the checkpoint. -/
def crashedRun : List Action :=
  [.rebuild, .next 1, .restart, .rebuild, .next 2, .save 2, .next 3, .save 3, .next 4]

/-- The event is applied a second time, since the checkpoint had not been written when the process
was killed. -/
theorem crashedRun_ok : ∃ s, run (World.step ordersBus .plain) (.start publishedTables) crashedRun =
    some s ∧ s.applied.length = 3 ∧ s.readModel.erase = (rebuildFromOffset ordersBus.serde .plain
      (fun _ ↦ (0, 0)) (publishedTables.checkpoint "orders")
      (.new publishedTables)).1.pool.readModel.erase := by
  have hrun : (run (World.step ordersBus .plain) (.start publishedTables) crashedRun).map
      (fun s ↦ (s.call, s.applied.length)) = some (.idle (some (.ok ())), 3) := by decide +kernel
  obtain ⟨s, hs, hend⟩ := Option.map_eq_some_iff.1 hrun
  obtain ⟨hcall, hlength⟩ := Prod.ext_iff.1 hend
  obtain ⟨-, hmodel, -⟩ :=
    crash_resume ordersBus .plain (fun _ ↦ (0, 0)) publishedTables crashedRun s
    (by decide) hs hcall
  exact ⟨s, hs, hlength, hmodel⟩

end OrderProjection

end PhenoEvents
