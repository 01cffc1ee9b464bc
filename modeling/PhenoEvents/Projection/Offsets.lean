import PhenoEvents.Projection.CrashResume

/-!
# What the checkpoint stands for

`rebuild_from_offset` stores the rowid of the row it has applied.  `apply` stores one more than the
last checkpoint, whatever the envelope was.  The two agree as long as envelopes reach `apply` in the
order of the outbox, each of them once; after that the checkpoint counts deliveries.

* `visits_covered_iff` says which runs keep the checkpoint behind the events that have been applied.
* `covered_of_inTurn` is how a caller of `apply` can see to it: by delivering the envelopes in the
  order of the outbox, each of them once, or again only where the next row has been applied already.
* `applied_of_rebuild` is what the checkpoint is for: where it has not run ahead, one rebuild leaves
  no published event behind.
* `deliveredTwice_not_covered` is a run in which an envelope is delivered twice, and the next event
  is never applied.

An event that is passed by the checkpoint is passed for good, unless somebody rebuilds from an
earlier offset on purpose: a rebuild that goes on from the checkpoint selects the rows above it.

`Tracking` is what every process keeps, whatever it does: the offset in memory, and the checkpoint
that is about to be stored, hang together with the stored one in the way the code has it.  It says
nothing about what has been applied.
-/

set_option autoImplicit false

namespace PhenoEvents

open Except Resume Transition

/-! ## What every process keeps

The log only grows, and what has been applied is never taken back.  So a checkpoint that is covered
stays covered as long as it does not move. -/

/-- The text is the envelope's, or decodes to it. -/
def Serde.Stores (serde : Serde) (text : String) (envelope : EventEnvelope) : Prop :=
  serde.toString envelope = .ok text ∨ serde.fromStr text = .ok envelope

instance (serde : Serde) (text : String) (envelope : EventEnvelope) :
    Decidable (serde.Stores text envelope) :=
  inferInstanceAs (Decidable (_ ∨ _))

namespace Tables

variable {t : Tables} {id : Uuid} {text : String} {now : Instant}

theorem log_insertEvent_of_some {row : OutboxRow} (h : t.db.outbox.lookup id = some row) :
    ({ t with db := t.db.insertEvent id text now } : Tables).log = t.log := by
  have hsame : t.db.outbox.insertOrIgnore (.new id text now) = t.db.outbox :=
    KeyedTable.insertOrIgnore_of_some h
  rw [log, log, Database.insertEvent, hsame]

theorem log_insertEvent_of_none (h : t.db.outbox.lookup id = none) :
    ({ t with db := t.db.insertEvent id text now } : Tables).log =
      t.log ++ [((t.log.length : ℤ) + 1, text)] := by
  have hrows : (t.db.outbox.insertOrIgnore (.new id text now)).rows =
      t.db.outbox.rows ++ [.new id text now] := KeyedTable.rows_insertOrIgnore_of_none h
  rw [log, log, Database.insertEvent, hrows, List.mapIdx_concat, List.length_mapIdx]
  rfl

end Tables

namespace OrderProjection

variable {bus : SqliteBus} {engine : SqlEngine}

namespace World

variable {s t : World} {action : Action}

/-- An envelope of this text has been applied to the read model, by a rebuild or by `apply`, in this
process or an earlier one. -/
def Applied (bus : SqliteBus) (s : World) (text : String) : Prop :=
  ∃ envelope ∈ s.applied, bus.serde.Stores text envelope

/-- The envelopes up to the checkpoint have been applied, in whatever way and order.  That is what
somebody relies on who goes on from the checkpoint. -/
def Covered (bus : SqliteBus) (s : World) : Prop :=
  ∀ row ∈ s.log, row.1 ≤ s.stored → s.Applied bus row.2

/-- The checkpoint that is about to be stored is the next one, or that of the next row. -/
def Call.Next (bus : SqliteBus) (s : World) : Call → Prop
  | .idle _ => True
  | .replaying rows => rows <+: after s.stored s.log
  | .checkpointing offset none => offset = s.stored + 1
  | .checkpointing offset (some rows) => ∃ text, (offset, text) :: rows <+: after s.stored s.log ∧
      s.Applied bus text

/-- What is known of every process. -/
structure Tracking (bus : SqliteBus) (s : World) : Prop where
  offset : s.projection.offset = s.stored
  call : Call.Next bus s s.call

theorem Tracking.next_of_call (h : Tracking bus s) {call : Call} (hcall : s.call = call) :
    Call.Next bus s call :=
  hcall ▸ h.call

theorem tracking_start (bus : SqliteBus) (pool : Tables) : Tracking bus (start pool) :=
  ⟨rfl, trivial⟩

/-- Publishing adds at most one row, behind all others. -/
theorem log_published {envelope : EventEnvelope} {now : Instant} {db : Database} {ack : Ack}
    (h : bus.publish envelope now s.projection.pool.db = .ok (db, ack)) :
    ∃ text, envelope.validate = .ok () ∧ bus.serde.toString envelope = .ok text ∧
      ((s.projection.pool.db.outbox.lookup envelope.id).isSome ∧
          (s.projection.withDb db).pool.log = s.log ∨
        s.projection.pool.db.outbox.lookup envelope.id = none ∧
          (s.projection.withDb db).pool.log = s.log ++ [((s.log.length : ℤ) + 1, text)]) := by
  obtain ⟨hvalid, text, htext, rfl, -⟩ := SqliteBus.publish_eq_ok_iff.1 h
  refine ⟨text, hvalid, htext, ?_⟩
  cases hrow : s.projection.pool.db.outbox.lookup envelope.id with
  | some row => exact Or.inl ⟨rfl, Tables.log_insertEvent_of_some hrow⟩
  | none => exact Or.inr ⟨rfl, Tables.log_insertEvent_of_none hrow⟩

theorem log_prefix_published {envelope : EventEnvelope} {now : Instant} {db : Database} {ack : Ack}
    (h : bus.publish envelope now s.projection.pool.db = .ok (db, ack)) :
    s.log <+: (s.projection.withDb db).pool.log := by
  rcases log_published h with ⟨text, -, -, ⟨-, hlog⟩ | ⟨-, hlog⟩⟩
  · rw [hlog]
  · rw [hlog]
    exact List.prefix_append _ _

/-- **Every step keeps track.**  Nothing is assumed about the envelopes that are delivered to
`apply`, or about who publishes meanwhile. -/
theorem tracking_step (h : Tracking bus s) (hstep : s.step bus engine action = some t) :
    Tracking bus t := by
  cases move_of_step hstep with
  | @published envelope now db ack hdb =>
    refine ⟨h.offset, ?_⟩
    have hgrown : after s.stored s.log <+: after s.stored (s.projection.withDb db).pool.log :=
      (log_prefix_published hdb).filter _
    show Call.Next bus _ s.call
    rcases hcall : s.call with result | rows | ⟨offset, - | rows⟩
    · trivial
    · exact (h.next_of_call hcall).trans hgrown
    · exact h.next_of_call hcall
    · obtain ⟨text, hrows, happlied⟩ := h.next_of_call hcall
      exact ⟨text, hrows.trans hgrown, happlied⟩
  | refused hdb => exact h
  | restarted => exact ⟨rfl, trivial⟩
  | applied hcall hrm => exact ⟨h.offset, congrArg (· + 1) h.offset⟩
  | rebuilding hcall =>
    refine ⟨h.offset, ?_⟩
    show after s.projection.offset s.log <+: after s.stored s.log
    rw [h.offset]
  | @replayed now offset text rows envelope rm hcall hdecode hrm =>
    exact ⟨h.offset, text, h.next_of_call hcall, envelope, List.mem_cons_self, Or.inr hdecode⟩
  | rebuilt hcall => exact ⟨h.offset, trivial⟩
  | savedApply hcall => exact ⟨(stored_checkpoint ..).symm, trivial⟩
  | @savedRow now offset rows hcall =>
    obtain ⟨text, ⟨more, hrows⟩, -⟩ := h.next_of_call hcall
    refine ⟨(stored_checkpoint ..).symm, ?_⟩
    show rows <+: after (World.stored ⟨_, .replaying rows, s.applied⟩) s.log
    rw [stored_checkpoint, after_eq_of_after_eq_cons s.log_sorted hrows.symm]
    exact List.prefix_append _ _
  | notApplied _ | notDecoded _ _ | notReplayed _ _ _ | failed => exact ⟨h.offset, trivial⟩

/-! ## The condition

It is a condition on the one row whose number is about to be stored.  Rebuilds, restarts and failing
statements meet it in any case. -/

/-- The step lets the checkpoint pass no envelope that has not been applied: when `apply` stores its
checkpoint, the row of that number is applied, and no row is published at or below the checkpoint.
-/
def KeepsUp (bus : SqliteBus) (s : World) : Action → Prop
  | .save _ => ∀ offset, s.call = .checkpointing offset none → ∀ text, (offset, text) ∈ s.log →
      s.Applied bus text
  | .publish envelope _ => ∀ text, envelope.validate = .ok () →
      bus.serde.toString envelope = .ok text →
      s.projection.pool.db.outbox.lookup envelope.id = none →
      s.stored ≤ s.log.length ∨ s.Applied bus text
  | _ => True

theorem Applied.of_applied {text : String} (h : s.Applied bus text)
    (happlied : ∀ envelope ∈ s.applied, envelope ∈ t.applied) : t.Applied bus text := by
  obtain ⟨envelope, hmem, hstores⟩ := h
  exact ⟨envelope, happlied envelope hmem, hstores⟩

/-- A step that moves neither the log nor the checkpoint leaves them covered. -/
theorem Covered.of_unmoved (h : s.Covered bus) (hlog : t.log = s.log)
    (hstored : t.stored = s.stored)
    (happlied : ∀ envelope ∈ s.applied, envelope ∈ t.applied) : t.Covered bus := by
  intro row hrow hle
  rw [hlog] at hrow
  rw [hstored] at hle
  exact (h row hrow hle).of_applied happlied

theorem covered_published_iff {envelope : EventEnvelope} {now : Instant} {db : Database} {ack : Ack}
    (hs : s.Covered bus) (hdb : bus.publish envelope now s.projection.pool.db = .ok (db, ack)) :
    World.Covered bus { s with projection := s.projection.withDb db } ↔
      s.KeepsUp bus (.publish envelope now) := by
  obtain ⟨text, hvalid, htext, hcases⟩ := log_published hdb
  constructor
  · intro ht text' _ htext' hnone
    obtain rfl : text = text' := Except.ok.inj (htext.symm.trans htext')
    by_cases hle : s.stored ≤ s.log.length
    · exact Or.inl hle
    · refine Or.inr (ht ((s.log.length : ℤ) + 1, text) ?_ ?_)
      · rcases hcases with ⟨hsome, -⟩ | ⟨-, hlog⟩
        · rw [hnone] at hsome
          cases hsome
        · show _ ∈ (s.projection.withDb db).pool.log
          rw [hlog]
          exact List.mem_append_right _ List.mem_cons_self
      · show (s.log.length : ℤ) + 1 ≤ s.stored
        omega
  · intro hkeeps row hrow hle
    rcases hcases with ⟨-, hlog⟩ | ⟨hnone, hlog⟩
    · exact hs row (hlog ▸ hrow) hle
    · change row ∈ (s.projection.withDb db).pool.log at hrow
      rw [hlog, List.mem_append, List.mem_singleton] at hrow
      rcases hrow with hrow | rfl
      · exact hs row hrow hle
      · change (s.log.length : ℤ) + 1 ≤ s.stored at hle
        exact (hkeeps text hvalid htext hnone).resolve_left (by omega)

/-- `apply` stores the next number, so only the row of that number matters. -/
theorem covered_savedApply_iff {now : Instant} {offset : ℤ} (h : Tracking bus s)
    (hs : s.Covered bus) (hcall : s.call = .checkpointing offset none) :
    World.Covered bus ⟨s.projection.checkpoint now offset, .idle (some (.ok ())), s.applied⟩ ↔
      s.KeepsUp bus (.save now) := by
  have hnext : offset = s.stored + 1 := h.next_of_call hcall
  constructor
  · intro ht offset' hcall' text hrow
    rw [hcall, Call.checkpointing.injEq] at hcall'
    obtain ⟨rfl, -⟩ := hcall'
    exact ht (offset, text) hrow (stored_checkpoint ..).ge
  · intro hkeeps row hrow hle
    rw [stored_checkpoint] at hle
    rcases (show row.1 ≤ s.stored ∨ row.1 = offset by omega) with hle | rfl
    · exact hs row hrow hle
    · exact hkeeps row.1 hcall row.2 hrow

/-- `rebuild_from_offset` stores the number of the row it has applied, and leaves none out. -/
theorem covered_savedRow {now : Instant} {offset : ℤ} {rows : List (ℤ × String)}
    (h : Tracking bus s) (hs : s.Covered bus) (hcall : s.call = .checkpointing offset (some rows)) :
    World.Covered bus ⟨s.projection.checkpoint now offset, .replaying rows, s.applied⟩ := by
  obtain ⟨text, ⟨more, hrows⟩, happlied⟩ := h.next_of_call hcall
  intro row hrow hle
  rw [stored_checkpoint] at hle
  -- a row between the old checkpoint and the new one can only be the one that was applied
  rcases le_or_eq_of_after_eq_cons s.log_sorted hrows.symm hrow hle with hold | rfl
  · exact hs row hrow hold
  · exact happlied

/-- **A step keeps the log covered exactly if it keeps up.**  A step that stores nothing and
publishes nothing keeps up in any case. -/
theorem covered_step_iff (h : Tracking bus s) (hs : s.Covered bus)
    (hstep : s.step bus engine action = some t) : t.Covered bus ↔ s.KeepsUp bus action := by
  cases move_of_step hstep with
  | published hdb => exact covered_published_iff hs hdb
  | @refused envelope now error hdb =>
    refine ⟨fun _ text hvalid htext _ ↦ ?_, fun _ ↦ hs⟩
    have hok : bus.publish envelope now s.projection.pool.db = .ok _ :=
      SqliteBus.publish_eq_ok_iff.2 ⟨hvalid, text, htext, rfl, rfl⟩
    cases hdb.symm.trans hok
  | applied _ _ | replayed _ _ _ =>
    exact ⟨fun _ ↦ trivial, fun _ ↦ hs.of_unmoved rfl rfl fun _ hmem ↦ List.mem_cons_of_mem _ hmem⟩
  | savedApply hcall => exact covered_savedApply_iff h hs hcall
  | savedRow hcall =>
    refine ⟨fun _ offset' hcall' ↦ ?_, fun _ ↦ covered_savedRow h hs hcall⟩
    cases hcall.symm.trans hcall'
  | restarted | rebuilding _ | rebuilt _ => exact ⟨fun _ ↦ trivial, fun _ ↦ hs⟩
  | notApplied _ | notDecoded _ _ | notReplayed _ _ _ | failed =>
    exact ⟨fun _ ↦ trivial, fun _ ↦ hs⟩

theorem covered_start (bus : SqliteBus) : (start .empty).Covered bus := fun _ hrow ↦
  absurd hrow List.not_mem_nil

/-- A process that only rebuilds keeps up. -/
theorem keepsUp_of_resumes {ahead : Except ProjectionError ReadModel × ℤ}
    (h : Resuming bus engine ahead s) (hresumes : action.resumes = true) :
    s.KeepsUp bus action := by
  cases action with
  | save now =>
    intro offset hcall
    exact (h.ahead_of_call hcall).elim
  | publish envelope now => cases hresumes
  | _ => trivial

end World

/-! ## Runs

What one step keeps, and the induction. -/

/-- **The checkpoint stays behind the applied events exactly in the runs that keep up.**  When
`apply` stores its checkpoint, the row with that number, if there is one, has to have been applied,
and no new row may come at or below the checkpoint.  Rebuilds, restarts and failures always keep up.
-/
theorem visits_covered_iff (bus : SqliteBus) (engine : SqlEngine) (as : List Action) :
    (∀ s, Visits (World.step bus engine) (.start .empty) as s → s.Covered bus) ↔
      StepsMeet (World.step bus engine) (World.KeepsUp bus) (.start .empty) as :=
  visits_iff_stepsMeet (fun _ _ _ h hstep ↦ World.tracking_step h hstep)
    (fun _ _ _ h hs hstep ↦ World.covered_step_iff h hs hstep) (World.tracking_start bus .empty)
    (World.covered_start bus) as

/-! ## Deliveries in turn

What a caller of `apply` can do to keep up, without looking at the checkpoint when it is stored:
deliver the envelopes in the order of the outbox, each of them once, or again only while the row the
checkpoint comes to next has been applied already. -/

namespace World

variable {s t : World} {action : Action}

/-- When `apply` is called, the row after the checkpoint is there, and either its envelope is the
one that is delivered or it has been applied before. -/
def InTurn (bus : SqliteBus) (s : World) : Action → Prop
  | .apply envelope _ => ∃ text, (s.stored + 1, text) ∈ s.log ∧
      (bus.serde.Stores text envelope ∨ s.Applied bus text)
  | _ => True

/-- The checkpoint is not beyond the end of the log, and the row it is about to come to has been
applied. -/
structure Orderly (bus : SqliteBus) (s : World) : Prop where
  tracking : Tracking bus s
  behind : s.stored ≤ s.log.length
  pending : ∀ offset, s.call = .checkpointing offset none →
    ∃ text, (offset, text) ∈ s.log ∧ s.Applied bus text

/-- A step that moves neither the log nor the checkpoint and begins no call of `apply`. -/
theorem Orderly.of_unmoved (h : Orderly bus s) (ht : Tracking bus t) (hlog : s.log <+: t.log)
    (hstored : t.stored = s.stored) (happlied : ∀ envelope ∈ s.applied, envelope ∈ t.applied)
    (hcall : ∀ offset, t.call = .checkpointing offset none → s.call = .checkpointing offset none) :
    Orderly bus t := by
  refine ⟨ht, ?_, fun offset hoffset ↦ ?_⟩
  · rw [hstored]
    exact h.behind.trans (Int.ofNat_le.2 hlog.length_le)
  · obtain ⟨text, hrow, hdone⟩ := h.pending offset (hcall offset hoffset)
    exact ⟨text, hlog.subset hrow, hdone.of_applied happlied⟩

theorem orderly_start (bus : SqliteBus) : Orderly bus (start .empty) :=
  ⟨tracking_start bus .empty, le_rfl, fun _ hcall ↦ by cases hcall⟩

/-- **Deliveries in turn keep the checkpoint in order.** -/
theorem orderly_step (h : Orderly bus s) (hturn : s.InTurn bus action)
    (hstep : s.step bus engine action = some t) : Orderly bus t := by
  have ht := tracking_step h.tracking hstep
  cases move_of_step hstep with
  | published hdb =>
    exact h.of_unmoved ht (log_prefix_published hdb) rfl (fun _ hmem ↦ hmem) fun _ hcall ↦ hcall
  | refused hdb => exact h
  | @applied envelope now rm result hcall hrm =>
    -- `apply` is about to store the next number; the row of that number is applied by now
    refine ⟨ht, h.behind, fun offset hoffset ↦ ?_⟩
    obtain ⟨text, hrow, hcases⟩ := hturn
    simp only [Call.checkpointing.injEq, and_true] at hoffset
    subst hoffset
    rw [h.tracking.offset]
    refine ⟨text, hrow, ?_⟩
    rcases hcases with hstores | hdone
    · exact ⟨envelope, List.mem_cons_self, hstores⟩
    · exact hdone.of_applied fun _ hmem ↦ List.mem_cons_of_mem _ hmem
  | replayed hcall hdecode hrm =>
    exact h.of_unmoved ht List.prefix_rfl rfl (fun _ hmem ↦ List.mem_cons_of_mem _ hmem)
      fun _ hcall' ↦ by cases hcall'
  | @savedApply now offset hcall =>
    refine ⟨ht, ?_, fun _ hcall' ↦ by cases hcall'⟩
    obtain ⟨text, hrow, -⟩ := h.pending offset hcall
    rw [stored_checkpoint]
    exact Tables.le_length_of_mem_log hrow
  | @savedRow now offset rows hcall =>
    -- a rebuild stores the number of a row, so there is one
    refine ⟨ht, ?_, fun _ hcall' ↦ by cases hcall'⟩
    obtain ⟨text, hrows, -⟩ := h.tracking.next_of_call hcall
    rw [stored_checkpoint]
    exact Tables.le_length_of_mem_log (List.mem_filter.1 (hrows.subset List.mem_cons_self)).1
  | restarted | rebuilding _ | rebuilt _ | notApplied _ | notDecoded _ _ | notReplayed _ _ _
  | failed =>
    exact h.of_unmoved ht List.prefix_rfl rfl (fun _ hmem ↦ hmem) fun _ hcall' ↦ by cases hcall'

theorem Orderly.keepsUp (h : Orderly bus s) : s.KeepsUp bus action := by
  cases action with
  | save now =>
    intro offset hcall text hrow
    obtain ⟨text', hrow', hdone⟩ := h.pending offset hcall
    exact Tables.text_unique_of_mem_log hrow' hrow ▸ hdone
  | publish envelope now => exact fun _ _ _ _ ↦ Or.inl h.behind
  | _ => trivial

end World

/-- **A caller that delivers in turn keeps up.** -/
theorem keepsUp_of_inTurn {as : List Action}
    (h : StepsMeet (World.step bus engine) (World.InTurn bus) (.start .empty) as) :
    StepsMeet (World.step bus engine) (World.KeepsUp bus) (.start .empty) as :=
  h.imp (fun _ _ _ hs hturn hstep ↦ World.orderly_step hs hturn hstep) (fun _ _ hs _ ↦ hs.keepsUp)
    (World.orderly_start bus)

/-- **Deliveries in turn never let the checkpoint run ahead.** -/
theorem covered_of_inTurn {as : List Action}
    (h : StepsMeet (World.step bus engine) (World.InTurn bus) (.start .empty) as) {s : World}
    (hs : Visits (World.step bus engine) (.start .empty) as s) : s.Covered bus :=
  ((keepsUp_of_inTurn h).invariant (I := fun s ↦ s.Tracking bus ∧ s.Covered bus)
    (fun _ _ _ ⟨htracking, hcovered⟩ hkeeps hstep ↦ ⟨World.tracking_step htracking hstep,
      (World.covered_step_iff htracking hcovered hstep).2 hkeeps⟩)
    ⟨World.tracking_start bus .empty, World.covered_start bus⟩ hs).2

/-- **A process that starts where the checkpoint has not run ahead, and rebuilds, leaves no
published event behind.** -/
theorem applied_of_rebuild {bus : SqliteBus} {engine : SqlEngine} {s t : World} {as : List Action}
    (hs : s.Covered bus) (has : ∀ a ∈ as, a.resumes = true)
    (hrun : run (World.step bus engine) s (.restart :: as) = some t)
    (hdone : t.call = .idle (some (.ok ()))) : ∀ row ∈ t.log, t.Applied bus row.2 := by
  obtain ⟨m, hm, hrun⟩ := run_cons_eq_some.1 hrun
  obtain rfl := Option.some_inj.1 hm
  let started : World := { s with projection := .new s.projection.pool, call := .idle none }
  have hstarted : Resuming bus engine (started.projection.outcome bus.serde engine) started :=
    ⟨rfl, trivial, rfl⟩
  have hI := run_invariant_of_forall
    (I := fun r : World ↦ Resuming bus engine (started.projection.outcome bus.serde engine) r ∧
      r.Tracking bus ∧ r.Covered bus)
    (fun r a r' h ha hstep ↦ ⟨World.resuming_step h.1 ha hstep, World.tracking_step h.2.1 hstep,
      (World.covered_step_iff h.2.1 h.2.2 hstep).2 (World.keepsUp_of_resumes h.1 ha)⟩)
    ⟨hstarted, ⟨rfl, trivial⟩, hs⟩ has hrun
  intro row hrow
  refine hI.2.2 row hrow (not_lt.1 fun hlt ↦ ?_)
  have hmem : row ∈ after t.stored t.log := List.mem_filter.2 ⟨hrow, decide_eq_true hlt⟩
  rw [hI.1.after_eq_nil_of_done hdone] at hmem
  exact List.not_mem_nil hmem

/-- Two events are published, the first is delivered twice, and another process rebuilds. -/
def deliveredTwice : List Action :=
  [.publish orderCreated 0, .publish itemAdded 0, .apply orderCreated 1, .save 1,
    .apply orderCreated 2, .save 2, .restart, .rebuild, .next 3]

/-- The second event is never applied: the checkpoint is 2 after two deliveries of the first event,
and the rebuild begins behind it. -/
theorem deliveredTwice_not_covered :
    ¬∀ s, Reachable (World.step ordersBus .plain) (.start .empty) s → s.Covered ordersBus := by
  intro h
  have hrun : (run (World.step ordersBus .plain) (.start .empty) deliveredTwice).map
      (fun s ↦ (s.stored, s.log, s.applied)) =
        some (2, [(1, orderCreatedText), (2, itemAddedText)], [orderCreated, orderCreated]) := by
    decide +kernel
  obtain ⟨s, hs, hend⟩ := Option.map_eq_some_iff.1 hrun
  rw [Prod.mk.injEq, Prod.mk.injEq] at hend
  obtain ⟨hstored, hlog, happlied⟩ := hend
  obtain ⟨envelope, hmem, hstores⟩ := h s ⟨_, hs⟩ (2, itemAddedText) (by simp [hlog]) hstored.ge
  have hfirst : envelope = orderCreated := by simpa [happlied] using hmem
  have hnot : ¬ordersBus.serde.Stores itemAddedText orderCreated := by decide +kernel
  exact hnot (hfirst ▸ hstores)

end OrderProjection

end PhenoEvents
