import Mathlib.Algebra.Order.BigOperators.Group.List
import Mathlib.Algebra.Order.Group.Nat
import PhenoEvents.Bus.Drain

/-!
# What can still be finished

An event whose worker was lost stays in progress for ever (`stranded_run`).  Nothing else keeps the
bus from getting to the end.  A worker that holds an event can put it down (`exists_run_putDown`),
one after the other they all can (`exists_run_quiet`), and once nothing is in progress a single
worker drains the outbox, however many attempts the events have behind them and whenever they are
due.

So from a reachable state there is a way to the end exactly if every event is served
(`can_be_finished_iff`).

This is about what may happen, and not about what does.  Handlers that never return keep the bus
from getting to the end as well, and so does a scheduler that never lets a worker go on; but what
they keep can still be finished by a run in which they do return.  What is lost cannot be finished
by any run.
-/

set_option autoImplicit false

namespace PhenoEvents

open Transition EventView

/-! ## Events that are lost

An event that is in progress and held by nobody stays like that.  No worker can claim it, and only a
worker that has claimed it writes its row. -/

namespace EventView

variable {bus : SqliteBus} {id : Uuid} {lost : Prop} {v v' : EventView} {row : OutboxRow}

/-- The event is in progress, and nobody holds it. -/
structure Stranded (v : EventView) (row : OutboxRow) : Prop where
  row_eq : v.row = some row
  status_eq : row.status = .inProgress
  free : v.Free

theorem Stranded.holder (h : v.Stranded row) {w : ℕ} {pc : Pc} : v.holders w ≠ some pc := by
  rw [h.free.holders_eq_none]
  exact fun hsome ↦ by cases hsome

theorem Stranded.not_claimable (h : v.Stranded row) {r : OutboxRow} (hr : v.row = some r) :
    r.claimable ≠ true := by
  obtain rfl := Option.some_inj.1 (h.row_eq.symm.trans hr)
  simp [OutboxRow.claimable, h.status_eq]

/-- **Nothing takes up an event that is lost.** -/
theorem Sees.stranded (hs : v.Sees bus id lost v') (h : v.Stranded row) : v'.Stranded row := by
  cases hs with
  | same _ => exact h
  | loss hs _ =>
    cases hs with
    | claimLost r now hr hclaim => exact absurd hclaim (h.not_claimable hr)
    | release w pc hpc | releaseAll w pc hpc => exact absurd hpc h.holder
  | step hs _ =>
    cases hs with
    | publish envelope now text => exact ⟨by simp [h.row_eq], h.status_eq, h.free⟩
    | reject envelope error => exact ⟨h.row_eq, h.status_eq, h.free⟩
    | claim w r envelope now _ hr hclaim => exact absurd hclaim (h.not_claimable hr)
    | handledBefore w envelope now hpc | notHandled w envelope hpc | invoke w envelope seen hpc
    | succeed w envelope seen now hpc | fail w envelope seen error now hpc | markHandled w now hpc
    | readAttempts w error now r hpc | rowGone w pc hpc | updateFailed w error now attempts hpc =>
      exact absurd hpc h.holder

end EventView

namespace World

variable {bus : SqliteBus} {s t : World} {id : Uuid} {row : OutboxRow}

/-- The row of an event that is lost is never written again, whatever happens: no worker can claim
it, a restart does not look for it, and publishing it once more is a duplicate. -/
theorem stranded_run (hsound : s.Sound bus) (h : (s.view id).Stranded row) {as : List Action}
    (hrun : run (step bus) s as = some t) : (t.view id).Stranded row := by
  have hI : t.Sound bus ∧ (t.view id).Stranded row :=
    run_invariant (I := fun s ↦ s.Sound bus ∧ (s.view id).Stranded row)
      (fun s _ t hs hstep ↦ ⟨sound_step hs.1 hstep, (sees_of_step hs.1 hstep id).stranded hs.2⟩)
      ⟨hsound, h⟩ hrun
  exact hI.2

end World

/-! ## Events that are held

Wherever a worker is between a claim and a mark, there are a few steps after which the event is
acked, waits for its next attempt, or is given up.  The worker needs no other worker for that, and
leaves all other rows as they are; so the workers can put down their events one after the other. -/

/-- What a worker that holds the event can leave behind. -/
inductive PutDown (bus : SqliteBus) (id : Uuid) (db : Database) : Database → Prop
  | handled (now : Instant) : PutDown bus id db (db.markHandled id now)
  | failed (attempts : Int64) (error : String) (now : Instant) :
      PutDown bus id db (bus.recordFailure id attempts error now db)

namespace PutDown

variable {bus : SqliteBus} {id k : Uuid} {db db' : Database} {row : OutboxRow}

theorem lookup_of_ne (h : PutDown bus id db db') (hk : k ≠ id) :
    db'.outbox.lookup k = db.outbox.lookup k := by
  cases h with
  | handled now => exact Database.lookup_markHandled_of_ne now hk
  | failed attempts error now => exact Database.lookup_updateFailed_of_ne _ _ error now hk

/-- The event is no longer in progress. -/
theorem status_ne (h : PutDown bus id db db') (hrow : db'.outbox.lookup id = some row) :
    row.status ≠ .inProgress := by
  cases h with
  | handled now =>
    rw [Database.lookup_markHandled_self] at hrow
    obtain ⟨r, -, rfl⟩ := Option.map_eq_some_iff.1 hrow
    exact fun hstatus ↦ by cases hstatus
  | failed attempts error now =>
    rw [SqliteBus.recordFailure, Database.lookup_updateFailed_self] at hrow
    obtain ⟨r, -, rfl⟩ := Option.map_eq_some_iff.1 hrow
    show bus.failureStatus (attempts + 1) ≠ .inProgress
    rcases bus.failureStatus_eq (attempts + 1) with hstatus | hstatus <;> simp [hstatus]

end PutDown

namespace World

variable {bus : SqliteBus} {s : World} {w : ℕ} {id : Uuid} {pc : Pc}

/-- **A worker that holds an event can put it down**, wherever it is in `process_once`: its handler
returns, and what follows are statements of SQLite that need nobody else. -/
theorem exists_run_putDown (hsound : s.Sound bus) (hpc : s.workers w = some pc)
    (hheld : pc.held = some id) :
    ∃ actions db', run (bus.stepAlone w) (s.db, pc) actions = some (db', .idle) ∧
      PutDown bus id s.db db' := by
  obtain ⟨row, -, hrow, -, -, -, -, hdone, -⟩ :=
    (hsound id).phase.of_holder (holders_view hpc hheld)
  have hlookup : s.db.outbox.lookup id = some row := hrow
  have hfresh : s.db.alreadyHandled id = false := hdone
  cases pc with
  | idle | claiming now => cases hheld
  | checking e =>
    obtain rfl := Option.some_inj.1 hheld
    refine ⟨[.alreadyHandled 0, .lastSeen 0, .returned (.ok ()) 0, .markHandled], _, ?_, .handled 0⟩
    simp [run, SqliteBus.stepAlone, SqliteBus.workerStep, hfresh]
  | querying e =>
    obtain rfl := Option.some_inj.1 hheld
    exact ⟨[.lastSeen 0, .returned (.ok ()) 0, .markHandled], _, rfl, .handled 0⟩
  | handling e seen =>
    obtain rfl := Option.some_inj.1 hheld
    exact ⟨[.returned (.ok ()) 0, .markHandled], _, rfl, .handled 0⟩
  | acking eventId now =>
    obtain rfl := Option.some_inj.1 hheld
    exact ⟨[.markHandled], _, rfl, .handled now⟩
  | reading eventId error now =>
    obtain rfl := Option.some_inj.1 hheld
    refine ⟨[.readAttempts, .updateFailed], _, ?_, .failed row.attempts error now⟩
    simp [run, SqliteBus.stepAlone, SqliteBus.workerStep, Database.attempts, hlookup]
  | writing eventId error now attempts =>
    obtain rfl := Option.some_inj.1 hheld
    exact ⟨[.updateFailed], _, rfl, .failed attempts error now⟩

/-- The event is in progress only if a worker holds it, and it is one of `s`: the workers that are
left to put down their events. -/
def HeldOf (s t : World) (id : Uuid) : Prop :=
  ∀ row, t.db.outbox.lookup id = some row → row.status = .inProgress →
    s.db.outbox.lookup id ≠ none ∧ ∃ w pc, t.workers w = some pc ∧ pc.held = some id

/-- **The workers can put down any events**, one after the other. -/
theorem exists_run_release (hs : Reachable (step bus) initial s) (hserved : ∀ id, HeldOf s s id)
    (ids : List Uuid) :
    ∃ (actions : List (ℕ × WorkerAction)) (t : World),
      run (step bus) s (actions.map fun a ↦ .work a.1 a.2) = some t ∧ (∀ id, HeldOf s t id) ∧
        ∀ id ∈ ids, ∀ row, t.db.outbox.lookup id = some row → row.status ≠ .inProgress := by
  induction ids with
  | nil => exact ⟨[], s, rfl, hserved, fun id hid ↦ by cases hid⟩
  | cons id ids ih =>
    obtain ⟨actions, t, hrun, hheldOf, hids⟩ := ih
    by_cases hbusy : ∃ row, t.db.outbox.lookup id = some row ∧ row.status = .inProgress
    · obtain ⟨row, hrow, hstatus⟩ := hbusy
      obtain ⟨-, w, pc, hpc, hheld⟩ := hheldOf id row hrow hstatus
      obtain ⟨more, db', hmore, hput⟩ :=
        exists_run_putDown (sound_of_reachable (hs.run hrun)) hpc hheld
      obtain ⟨t', ht', hdb, hworkers⟩ := SqliteBus.run_world_of_stepAlone hpc hmore
      refine ⟨actions ++ more.map fun a ↦ (w, a), t', ?_, fun k r hr hk ↦ ?_, fun k hk r hr ↦ ?_⟩
      · rw [List.map_append, List.map_map]
        exact run_append_eq_some hrun ht'
      · rw [hdb] at hr
        have hne : k ≠ id := fun hkid ↦ hput.status_ne (hkid ▸ hr) hk
        rw [hput.lookup_of_ne hne] at hr
        obtain ⟨hold, u, pc', hpc', hheld'⟩ := hheldOf k r hr hk
        refine ⟨hold, u, pc', ?_, hheld'⟩
        -- `w` held the other event
        have hu : u ≠ w := by
          rintro rfl
          obtain rfl := Option.some_inj.1 (hpc.symm.trans hpc')
          exact hne (Option.some_inj.1 (hheld'.symm.trans hheld))
        rw [hworkers, Function.update_of_ne hu, hpc']
      · rw [hdb] at hr
        by_cases hne : k = id
        · exact hput.status_ne (hne ▸ hr)
        · rw [hput.lookup_of_ne hne] at hr
          exact hids k ((List.mem_cons.1 hk).resolve_left hne) r hr
    · refine ⟨actions, t, hrun, hheldOf, fun k hk r hr hst ↦ ?_⟩
      rcases List.mem_cons.1 hk with rfl | hk
      · exact hbusy ⟨r, hr, hst⟩
      · exact hids k hk r hr hst

/-- The workers accept nothing. -/
theorem acceptedEnvelopes_of_works {t : World} {actions : List (ℕ × WorkerAction)}
    (hrun : run (step bus) s (actions.map fun a ↦ .work a.1 a.2) = some t) :
    t.acceptedEnvelopes = s.acceptedEnvelopes := by
  refine run_invariant_of_forall (I := fun t ↦ t.acceptedEnvelopes = s.acceptedEnvelopes)
    (K := fun a ↦ ∃ w action, a = .work w action) (fun m a t hm ha hstep ↦ ?_) rfl
    (fun a ha ↦ ?_) hrun
  · obtain ⟨w, action, rfl⟩ := ha
    exact (acceptedEnvelopes_of_work hstep).trans hm
  · obtain ⟨⟨w, action⟩, -, rfl⟩ := List.mem_map.1 ha
    exact ⟨w, action, rfl⟩

/-- The workers can put down everything.  After that nothing is in progress, and the outbox is one
that a single worker can drain. -/
theorem exists_run_quiet (hs : Reachable (step bus) initial s) (hserved : ∀ id, HeldOf s s id) :
    ∃ as t, run (step bus) s as = some t ∧ t.acceptedEnvelopes = s.acceptedEnvelopes ∧
      ∀ r ∈ t.db.outbox.rows, r.status ≠ .inProgress := by
  obtain ⟨actions, t, hrun, hheldOf, hids⟩ :=
    exists_run_release hs hserved (s.db.outbox.rows.map OutboxRow.eventId)
  refine ⟨_, t, hrun, acceptedEnvelopes_of_works hrun, fun r hr hstatus ↦ ?_⟩
  have hlookup := KeyedTable.lookup_of_mem hr
  obtain ⟨hold, -⟩ := hheldOf r.eventId r hlookup hstatus
  exact hids r.eventId (KeyedTable.mem_keys_iff.2 hold) r hlookup hstatus

end World

/-! ## The end

When nothing is in progress, one more worker is enough, if it is given time.  `exists_timely` gives
it as many calls as it needs, at times that are late enough for every row. -/

/-- There is always time for more calls of `process_once`. -/
theorem exists_timely (bus : SqliteBus) (n : ℕ) (start : Instant) (db : Database) :
    ∃ turns : List Turn, turns.length = n ∧ Timely bus start db turns := by
  induction n generalizing start db with
  | zero => exact ⟨[], rfl, trivial⟩
  | succ n ih =>
    -- when the next call can begin is told by `Timely`
    refine Exists.elim (ih _ _) fun turns h ↦
      ⟨⟨start, 0, 0, fun _ _ ↦ .ok (), start⟩ :: turns, ?_, le_rfl, le_rfl, h.2⟩
    rw [List.length_cons, h.1]

/-- Every row is due some time. -/
theorem exists_nextAttemptAt_le (rows : List OutboxRow) :
    ∃ start : Instant, ∀ r ∈ rows, r.nextAttemptAt ≤ start + backoff := by
  refine ⟨(rows.map OutboxRow.nextAttemptAt).sum, fun r hr ↦ ?_⟩
  have hle := List.single_le_sum (fun _ _ ↦ Nat.zero_le _) _
    (List.mem_map_of_mem (f := OutboxRow.nextAttemptAt) hr)
  exact hle.trans (Nat.le_add_right ..)

/-- A new worker can drain an outbox in which nothing is in progress. -/
theorem World.exists_run_settled {bus : SqliteBus} {s : World} (hs : Reachable (step bus) initial s)
    (hdecodes : ∀ e ∈ s.acceptedEnvelopes, ∀ text, bus.serde.toString e = .ok text →
      ∃ e', bus.serde.fromStr text = .ok e')
    (hquiet : ∀ r ∈ s.db.outbox.rows, r.status ≠ .inProgress) :
    ∃ as t, run (step bus) s as = some t ∧ t.db.Settled := by
  have hworkable := workable_of_reachable hs hdecodes hquiet
  obtain ⟨start, hstart⟩ := exists_nextAttemptAt_le s.db.outbox.rows
  obtain ⟨turns, hlength, htimely⟩ := exists_timely bus (2 * s.db.left bus + 1) start s.db
  obtain ⟨actions, hactions⟩ := bus.exists_run_work 0 turns s.db
  -- the process is started again, with one subscription
  let s' : World := { s with workers := Function.update (fun _ ↦ none) 0 (some .idle) }
  have hstarted : run (step bus) s [.restart, .subscribe 0] = some s' := rfl
  obtain ⟨t, ht, hdb, -⟩ := SqliteBus.run_world_of_stepAlone (s := s') rfl hactions
  refine ⟨_, t, run_append_eq_some hstarted ht, ?_⟩
  rw [hdb]
  exact hworkable.settled_of_timely hstart le_rfl htimely (by rw [if_neg (by decide), hlength])

/-- **From a reachable state there is a way to the end exactly if no event is lost**: every event
can still be acked or given up, as long as the envelopes that were accepted can be decoded, if and
only if every event in progress is held by a worker. -/
theorem can_be_finished_iff (bus : SqliteBus) (s : World)
    (hs : Reachable (World.step bus) .initial s)
    (hdecodes : ∀ e ∈ s.acceptedEnvelopes, ∀ text, bus.serde.toString e = .ok text →
      ∃ e', bus.serde.fromStr text = .ok e') :
    s.Served ↔ ∃ as t, run (World.step bus) s as = some t ∧
      ∀ r ∈ t.db.outbox.rows, r.status = .acked ∨ r.status = .dlq := by
  have hsound := World.sound_of_reachable hs
  rw [World.served_iff hsound]
  constructor
  · intro hserved
    have hheldOf : ∀ id, World.HeldOf s s id := by
      intro id row hrow hstatus
      obtain ⟨w, pc, hpc⟩ := hserved id row hrow hstatus
      exact ⟨by rw [hrow]; exact Option.some_ne_none row, w, pc, holding_eq_some_iff.1 hpc⟩
    obtain ⟨as, t, hrun, haccepted, hquiet⟩ := World.exists_run_quiet hs hheldOf
    rw [← haccepted] at hdecodes
    obtain ⟨bs, t', hrun', hsettled⟩ := World.exists_run_settled (hs.run hrun) hdecodes hquiet
    exact ⟨as ++ bs, t', run_append_eq_some hrun hrun', hsettled⟩
  · rintro ⟨as, t, hrun, hsettled⟩ id row hrow hstatus
    by_contra hfree
    have hstranded : (s.view id).Stranded row := by
      refine ⟨hrow, hstatus, funext fun w ↦ ?_⟩
      by_contra hw
      obtain ⟨pc, hpc⟩ := Option.ne_none_iff_exists'.1 hw
      exact hfree ⟨w, pc, hpc⟩
    have hlookup := (World.stranded_run hsound hstranded hrun).row_eq
    rcases hsettled row (KeyedTable.mem_of_lookup hlookup) with hdone | hdone <;>
      simp [hstatus] at hdone

/-- The event is in progress, and there is a way to the end, so it is served. -/
theorem claimedRun_finishes : ∃ s, run (World.step (oneEventBus 3)) .initial claimedRun = some s ∧
    s.db.status ⟨1⟩ = some .inProgress ∧ s.Served := by
  let rest : List Action := [.work 0 (.alreadyHandled 2), .work 0 (.lastSeen 0),
    .work 0 (.returned (.ok ()) 3), .work 0 .markHandled]
  have hruns : (run (World.step (oneEventBus 3)) .initial claimedRun).map (fun s ↦
      (s.db.status ⟨1⟩, (run (World.step (oneEventBus 3)) s rest).map fun t ↦
        t.db.outbox.rows.map OutboxRow.status)) = some (some .inProgress, some [.acked]) := by
    decide +kernel
  obtain ⟨s, hs, hend⟩ := Option.map_eq_some_iff.1 hruns
  obtain ⟨hstatus, hrest⟩ := Prod.mk.inj hend
  obtain ⟨t, ht, hrows⟩ := Option.map_eq_some_iff.1 hrest
  have hserved := can_be_finished_iff (oneEventBus 3) s ⟨_, hs⟩ fun e _ text h ↦
    ⟨e, Serde.fromStr_table (by decide) h⟩
  refine ⟨s, hs, hstatus, hserved.2 ⟨rest, t, ht, fun r hr ↦ Or.inl ?_⟩⟩
  have hmem : r.status ∈ t.db.outbox.rows.map OutboxRow.status := List.mem_map_of_mem hr
  rw [hrows, List.mem_singleton] at hmem
  exact hmem

end PhenoEvents
