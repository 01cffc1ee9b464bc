import PhenoEvents.Bus.Drain

/-!
# How the attempts are spread over time

`mark_failed` puts the next attempt ten milliseconds after its own reading of the clock, and
`claim_next` compares with another reading.  If no worker reads an earlier time when it writes down
a failure than it read when it claimed the event, the waiting times add up, whoever makes the
attempts: an event that has failed `n` times is not tried again before ten milliseconds have passed
`n` times since it was published, by the clocks that were read.

The waiting time does not grow with the attempts.  Ten milliseconds is what the code adds after
every failure, the first and the last.

## What is here

* `RowMove`: what a step of a worker can do to a row, whatever row it is.
* `World.ClockKeepsUp`, the assumption about the readings.  It relates two readings of one worker
  during one delivery, and nothing else: different workers may have clocks that differ.
* `OutboxRow.Spaced`, the invariant of a row, and that it is kept by each of the moves.
* `attempts_are_spread`: the result for whole runs, for the row that is due, for the row that is
  claimed and for the row that was given up.
-/

set_option autoImplicit false

namespace PhenoEvents

open Transition

/-! ## What a step does to one row

One lemma about all rows and all steps.  The results about time need every step that writes one of
the columns `next_attempt_at` and `updated_at`, and no more of it than what it writes there. -/

/-- What a step of a worker at `pc` can do to the row of the event `id`.  Where the worker is says
which of the moves it may be, and what it writes. -/
inductive RowMove (bus : SqliteBus) (id : Uuid) (pc : Pc) (r : OutboxRow) : OutboxRow → Prop
  | same : RowMove bus id pc r r
  | claimed (now : Instant) (hclaim : r.claimable = true) (hdue : r.nextAttemptAt ≤ now) :
      RowMove bus id pc r (r.claimed now)
  | acked (now : Instant) (hpc : pc = .acking id now) : RowMove bus id pc r (r.acked now)
  | failed (attempts : Int64) (error : String) (now : Instant)
      (hpc : pc = .writing id error now attempts) :
      RowMove bus id pc r
        (r.failed (bus.failureStatus (attempts + 1)) (attempts + 1) error now)

section RowMove

variable {bus : SqliteBus} {w : ℕ} {db db' : Database} {pc pc' : Pc} {action : WorkerAction}
  {obs : List Observation} {id : Uuid} {r r' : OutboxRow}

theorem rowMove_updateClaimed {now : Instant} {tie : ℕ} (hrow : db.nextDue now tie = some r)
    (hr' : (db.updateClaimed r.eventId now).outbox.lookup id = some r') :
    ∃ q, db.outbox.lookup id = some q ∧ RowMove bus id pc q r' := by
  obtain ⟨hlookup, hclaim, hdue, -⟩ := Database.nextDue_eq_some hrow
  by_cases hid : id = r.eventId
  · subst hid
    rw [Database.lookup_updateClaimed_self hlookup hclaim, Option.some_inj] at hr'
    exact ⟨r, hlookup, hr' ▸ .claimed now hclaim hdue⟩
  · rw [Database.lookup_updateClaimed_of_ne now hid] at hr'
    exact ⟨r', hr', .same⟩

/-- **Every row has become what it is by one of the moves.** -/
theorem WorkerMove.rowMove (h : WorkerMove bus w db pc action db' pc' obs)
    (hr' : db'.outbox.lookup id = some r') :
    ∃ q, db.outbox.lookup id = some q ∧ RowMove bus id pc q r' := by
  cases h with
  | claim now tie row envelope hrow hdecode => exact rowMove_updateClaimed hrow hr'
  | claimLost now tie row error hrow hdecode => exact rowMove_updateClaimed hrow hr'
  | markHandled eventId now =>
    by_cases hid : id = eventId
    · subst hid
      rw [Database.lookup_markHandled_self] at hr'
      obtain ⟨q, hq, rfl⟩ := Option.map_eq_some_iff.1 hr'
      exact ⟨q, hq, .acked now rfl⟩
    · rw [Database.lookup_markHandled_of_ne now hid] at hr'
      exact ⟨r', hr', .same⟩
  | updateFailed eventId error now attempts =>
    by_cases hid : id = eventId
    · subst hid
      rw [SqliteBus.recordFailure, Database.lookup_updateFailed_self] at hr'
      obtain ⟨q, hq, rfl⟩ := Option.map_eq_some_iff.1 hr'
      exact ⟨q, hq, .failed attempts error now rfl⟩
    · rw [SqliteBus.recordFailure, Database.lookup_updateFailed_of_ne _ _ error now hid] at hr'
      exact ⟨r', hr', .same⟩
  | _ => exact ⟨r', hr', .same⟩

end RowMove

/-! ## Readings of the clock

A worker that has a failure to write down has read the clock already, and carries the reading with
it until the second statement of `mark_failed`. -/

/-- A worker that writes down a failure, and the time it has read for it. -/
def Pc.failing : Pc → Option (Uuid × Instant)
  | .reading eventId _ now | .writing eventId _ now _ => some (eventId, now)
  | _ => none

theorem Pc.held_of_failing {pc : Pc} {id : Uuid} {now : Instant} (h : pc.failing = some (id, now)) :
    pc.held = some id := by
  cases pc <;> simp_all [failing, held]

/-- A handler returns `Err`, and the worker reads the clock. -/
def Action.nack : Action → Option (ℕ × Instant)
  | .work w (.returned (.error _) now) => some (w, now)
  | _ => none

namespace World

/-- The time at which the worker has claimed the event it holds. -/
def claimedAt (s : World) (w : ℕ) : Option Instant :=
  (((s.workers w).bind Pc.held).bind s.db.outbox.lookup).map OutboxRow.updatedAt

/-- The clock has not been set back since the event was claimed that is refused now.  This is about
two readings of one worker, and about no other step. -/
def ClockKeepsUp (s : World) (action : Action) : Prop :=
  ∀ n ∈ action.nack, ∀ c ∈ s.claimedAt n.1, c ≤ n.2

instance decidableClockKeepsUp (s : World) (action : Action) : Decidable (s.ClockKeepsUp action) :=
  inferInstanceAs (Decidable (∀ n ∈ action.nack, ∀ c ∈ s.claimedAt n.1, c ≤ n.2))

end World

/-! ## The waiting times add up

Each attempt adds ten milliseconds to a lower bound that begins with `created_at`.  A claim keeps
the bound, as it finds the event due; a failure moves it. -/

/-- The event has waited ten milliseconds for each attempt, or it has to wait that long. -/
structure OutboxRow.Spaced (r : OutboxRow) : Prop where
  next : r.createdAt + r.attempts.toInt.toNat * backoff ≤ r.nextAttemptAt
  claimed : r.status = .inProgress → r.nextAttemptAt ≤ r.updatedAt
  failed : r.status = .retrying ∨ r.status = .dlq → r.nextAttemptAt = r.updatedAt + backoff

namespace OutboxRow.Spaced

variable {bus : SqliteBus} {r : OutboxRow}

theorem new (id : Uuid) (text : String) (now : Instant) : (OutboxRow.new id text now).Spaced :=
  ⟨le_of_eq (by simp [OutboxRow.new]), (fun h ↦ by cases h), fun h ↦ by rcases h with h | h <;>
    cases h⟩

/-- A claim that finds the event due. -/
theorem claim (h : r.Spaced) {now : Instant} (hdue : r.nextAttemptAt ≤ now) :
    (r.claimed now).Spaced :=
  ⟨h.next, fun _ ↦ hdue, fun h ↦ by rcases h with h | h <;> cases h⟩

theorem ack (h : r.Spaced) (now : Instant) : (r.acked now).Spaced :=
  ⟨h.next, (fun h ↦ by cases h), fun h ↦ by rcases h with h | h <;> cases h⟩

/-- A failure that is written down after the claim. -/
theorem fail (h : r.Spaced) {n : ℕ} {error : String} {now : Instant}
    (hstatus : r.status = .inProgress)
    (hn : r.attempts.toInt = n) (hlt : (n : ℤ) < bus.budget) (hnow : r.updatedAt ≤ now) :
    (r.failed (bus.failureStatus (r.attempts + 1)) (r.attempts + 1) error now).Spaced := by
  have hnext : (r.attempts + 1).toInt.toNat = n + 1 := by
    rw [(bus.failureStatus_cases hn hlt).1, Int.toNat_natCast]
  have hbefore := h.next
  rw [hn, Int.toNat_natCast] at hbefore
  refine ⟨?_, fun hs ↦ ?_, fun _ ↦ rfl⟩
  · show r.createdAt + (r.attempts + 1).toInt.toNat * backoff ≤ now + backoff
    rw [hnext, Nat.succ_mul, ← Nat.add_assoc]
    exact Nat.add_le_add_right (hbefore.trans ((h.claimed hstatus).trans hnow)) backoff
  · rcases bus.failureStatus_eq (r.attempts + 1) with hd | hd
    · exact absurd (hd.symm.trans hs) (by decide)
    · exact absurd (hd.symm.trans hs) (by decide)

end OutboxRow.Spaced

namespace World

variable {bus : SqliteBus} {s t : World} {action : Action}

/-- The rows are spaced, and who writes down a failure has read the clock after the claim. -/
structure Spaced (s : World) : Prop where
  rows : ∀ id r, s.db.outbox.lookup id = some r → r.Spaced
  failing : ∀ w pc id now r, s.workers w = some pc → pc.failing = some (id, now) →
    s.db.outbox.lookup id = some r → r.updatedAt ≤ now

theorem spaced_initial : initial.Spaced :=
  ⟨(fun id r hr ↦ by cases hr), fun w pc id now r hpc ↦ by cases hpc⟩

/-- Workers come and go. -/
theorem Spaced.of_workers (h : s.Spaced) {workers : ℕ → Option Pc}
    (hsub : ∀ w pc, workers w = some pc → pc.failing = none ∨ s.workers w = some pc) :
    Spaced { s with workers := workers } := by
  refine ⟨h.rows, fun w pc id now r hpc hfailing ↦ ?_⟩
  rcases hsub w pc hpc with hnone | hold
  · rw [hnone] at hfailing
    cases hfailing
  · exact h.failing w pc id now r hold hfailing

theorem Spaced.publish (h : s.Spaced) (hsound : s.Sound bus) (id : Uuid) (text : String)
    (now : Instant)
    (history : List Observation) : Spaced ⟨s.db.insertEvent id text now, s.workers, history⟩ := by
  have hcases : ∀ k r, (s.db.insertEvent id text now).outbox.lookup k = some r →
      s.db.outbox.lookup k = some r ∨ s.db.outbox.lookup k = none ∧ r = .new id text now := by
    intro k r hr
    by_cases hk : k = id
    · subst hk
      rw [Database.lookup_insertEvent_self, Option.some_inj] at hr
      cases hold : s.db.outbox.lookup k with
      | some q => rw [hold] at hr; exact Or.inl (congrArg some hr)
      | none => rw [hold] at hr; exact Or.inr ⟨rfl, hr.symm⟩
    · rw [Database.lookup_insertEvent_of_ne text now hk] at hr
      exact Or.inl hr
  refine ⟨fun k r hr ↦ ?_, fun w pc k now' r hpc hfailing hr ↦ ?_⟩
  · rcases hcases k r hr with hold | ⟨-, rfl⟩
    · exact h.rows k r hold
    · exact .new id text now
  · obtain ⟨q, -, hq, -⟩ :=
      (hsound k).phase.of_holder (holders_view hpc (Pc.held_of_failing hfailing))
    rcases hcases k r hr with hold | ⟨hnone, -⟩
    · exact h.failing w pc k now' r hpc hfailing hold
    · rw [show s.db.outbox.lookup k = some q from hq] at hnone
      cases hnone

/-! ## The steps of a worker

A row is written by the worker that holds the event, and by nobody else.  So the reading a worker
carries with it is still later than the claim when it gets to write it. -/

section Work

variable {w : ℕ} {pc pc' : Pc} {db' : Database} {a : WorkerAction} {obs : List Observation}
  {id : Uuid}
  {r : OutboxRow}

/-- An event that is held is in progress. -/
theorem status_of_held (hsound : s.Sound bus) (hpc : s.workers w = some pc)
    (hheld : pc.held = some id) (hr : s.db.outbox.lookup id = some r) : r.status = .inProgress := by
  obtain ⟨q, -, hq, hstatus, -⟩ := (hsound id).phase.of_holder (holders_view hpc hheld)
  obtain rfl := Option.some_inj.1 (hr.symm.trans hq)
  exact hstatus

/-- The rows stay spaced. -/
theorem Spaced.row_of_move (h : s.Spaced) (hsound : s.Sound bus) (hpc : s.workers w = some pc)
    (hr : s.db.outbox.lookup id = some r) {r' : OutboxRow} (hmove : RowMove bus id pc r r') :
    r'.Spaced := by
  cases hmove with
  | same => exact h.rows id r hr
  | claimed now hclaim hdue => exact (h.rows id r hr).claim hdue
  | acked now hack => exact (h.rows id r hr).ack now
  | failed attempts error now hwriting =>
    subst hwriting
    obtain ⟨q, n, hq, hstatus, hn, hlt, -, -, hread, -⟩ :=
      (hsound id).phase.of_holder (holders_view hpc rfl)
    obtain rfl := Option.some_inj.1 (hr.symm.trans hq)
    obtain rfl := hread id error now attempts rfl
    exact (h.rows id r hr).fail hstatus hn hlt (h.failing w _ id now r hpc rfl hr)

/-- The worker that moves has read the clock after the claim. -/
theorem failing_self (h : s.Spaced) (hclock : s.ClockKeepsUp (.work w a))
    (hpc : s.workers w = some pc) (hmove : WorkerMove bus w s.db pc a db' pc' obs) {now : Instant}
    (hfailing : pc'.failing = some (id, now)) (hr : db'.outbox.lookup id = some r) :
    r.updatedAt ≤ now := by
  cases hmove with
  | fail envelope seen error now' =>
    obtain ⟨rfl, rfl⟩ := Prod.mk.inj (Option.some_inj.1 hfailing)
    refine hclock (w, now') rfl r.updatedAt ?_
    rw [claimedAt, hpc, Option.bind_some, Pc.held, Option.bind_some, hr]
    rfl
  | readAttempts eventId error now' attempts hrow =>
    obtain ⟨rfl, rfl⟩ := Prod.mk.inj (Option.some_inj.1 hfailing)
    exact h.failing w _ eventId now' r hpc rfl hr
  | _ => cases hfailing

/-- Nobody else touches the row. -/
theorem failing_other (h : s.Spaced) (hsound : s.Sound bus) (hpc : s.workers w = some pc)
    {u : ℕ} {pcu : Pc} (hne : u ≠ w) (hu : s.workers u = some pcu) {now : Instant}
    (hfailing : pcu.failing = some (id, now)) (hr : s.db.outbox.lookup id = some r) {r' : OutboxRow}
    (hmove : RowMove bus id pc r r') : r'.updatedAt ≤ now := by
  have hheld := Pc.held_of_failing hfailing
  have hother : pc.held ≠ some id := fun hself ↦
    hne ((hsound id).phase.holder_unique (holders_view hpc hself) (holders_view hu hheld))
  cases hmove with
  | same => exact h.failing u pcu id now r hu hfailing hr
  | claimed now' hclaim hdue =>
    -- an event that is held cannot be claimed
    simp [OutboxRow.claimable, status_of_held hsound hu hheld hr] at hclaim
  | acked now' hack =>
    subst hack
    exact absurd rfl hother
  | failed attempts error now' hwriting =>
    subst hwriting
    exact absurd rfl hother

end Work

/-- **As long as no clock is set back between a claim and its failure, the rows stay spaced.**
Every other step may read any time. -/
theorem spaced_step (h : s.Spaced) (hsound : s.Sound bus) (hclock : s.ClockKeepsUp action)
    (hstep : step bus s action = some t) : t.Spaced := by
  cases WorldMove.of_step hstep with
  | accepted envelope now text => exact h.publish hsound envelope.id text now _
  | rejected => exact ⟨h.rows, h.failing⟩
  | subscribe w hfree =>
    refine h.of_workers fun u pc hpc ↦ ?_
    rw [Function.update_apply] at hpc
    split at hpc
    · exact Or.inl (Option.some_inj.1 hpc ▸ rfl)
    · exact Or.inr hpc
  | abort w =>
    refine h.of_workers fun u pc hpc ↦ Or.inr ?_
    rw [Function.update_apply] at hpc
    split at hpc
    · cases hpc
    · exact hpc
  | restart => exact h.of_workers fun u pc hpc ↦ by cases hpc
  | work w pc pc' a db' obs hpc hmove =>
    refine ⟨fun id r' hr' ↦ ?_, fun u pcu id now r' hu hfailing hr' ↦ ?_⟩
    · obtain ⟨q, hq, hrow⟩ := hmove.rowMove hr'
      exact h.row_of_move hsound hpc hq hrow
    · dsimp only at hu
      rw [Function.update_apply] at hu
      split at hu
      · obtain rfl := Option.some_inj.1 hu
        exact failing_self h hclock hpc hmove hfailing hr'
      · rename_i hne
        obtain ⟨q, hq, hrow⟩ := hmove.rowMove hr'
        exact failing_other h hsound hpc hne hu hfailing hq hrow

theorem spaced_of_run {as : List Action} (hclocks : StepsMeet (step bus) ClockKeepsUp initial as)
    (hrun : run (step bus) initial as = some s) : s.Spaced := by
  have hboth : s.Sound bus ∧ s.Spaced :=
    hclocks.invariant (I := fun s ↦ s.Sound bus ∧ s.Spaced)
      (fun s a t ⟨hsound, h⟩ hclock hstep ↦
        ⟨sound_step hsound hstep, spaced_step h hsound hclock hstep⟩)
      ⟨sound_initial, spaced_initial⟩ (visits_of_run hrun)
  exact hboth.2

end World

/-- **The attempts are spread over time.**  As long as no worker reads an earlier time when it
writes down a failure than it has read when it claimed the event, ten milliseconds pass for every
failure, whoever makes the attempts: before the event is due, before it is claimed, and, but for the
last one, before it is given up. -/
theorem attempts_are_spread (bus : SqliteBus) (as : List Action) (s : World) (id : Uuid)
    (row : OutboxRow) (hrun : run (World.step bus) .initial as = some s)
    (hclocks : StepsMeet (World.step bus) World.ClockKeepsUp .initial as)
    (hrow : s.db.outbox.lookup id = some row) :
    row.createdAt + row.attempts.toInt.toNat * backoff ≤ row.nextAttemptAt ∧
      (row.status = .inProgress →
        row.createdAt + row.attempts.toInt.toNat * backoff ≤ row.updatedAt) ∧
      (row.status = .dlq → row.createdAt + (bus.budget.toNat - 1) * backoff ≤ row.updatedAt) := by
  have hspaced := (World.spaced_of_run hclocks hrun).rows id row hrow
  refine ⟨hspaced.next, fun hstatus ↦ hspaced.next.trans (hspaced.claimed hstatus),
    fun hstatus ↦ ?_⟩
  obtain ⟨n, hn, -, -, haccount⟩ := (World.sound_of_reachable ⟨as, hrun⟩ id).phase.account hrow
  rw [hstatus] at haccount
  have hnext := hspaced.next
  rw [hspaced.failed (Or.inr hstatus), hn, Int.toNat_natCast] at hnext
  have hpos : 1 ≤ n := by
    have hbudget : (1 : ℤ) ≤ bus.budget := Int.le_max_left ..
    omega
  obtain ⟨m, rfl⟩ := Nat.exists_eq_add_of_le' hpos
  rw [← haccount, Int.toNat_natCast, Nat.add_sub_cancel]
  rw [Nat.succ_mul, ← Nat.add_assoc] at hnext
  exact Nat.le_of_add_le_add_right hnext

/-- The event is refused twice, and claimed once more. -/
def refusedTwiceRun : List Action :=
  handledRun (.error "no") ++
    [.work 0 .readAttempts, .work 0 .updateFailed, .subscribe 1, .work 1 (.poll (20 * 1000 * 1000)),
      .work 1 (.claim 0), .work 1 (.alreadyHandled 0), .work 1 (.lastSeen 0),
      .work 1 (.returned (.error "no") (30 * 1000 * 1000)), .work 1 .readAttempts,
      .work 1 .updateFailed,
      .work 0 (.poll (40 * 1000 * 1000)), .work 0 (.claim 0)]

/-- Two workers have refused the event, each on its own time. -/
theorem refusedTwiceRun_spread : ∃ s row,
    run (World.step (oneEventBus 3)) .initial refusedTwiceRun = some s ∧
      s.db.outbox.lookup ⟨1⟩ = some row ∧ row.attempts = 2 ∧
      row.createdAt + 2 * backoff ≤ row.updatedAt := by
  have hruns : (run (World.step (oneEventBus 3)) .initial refusedTwiceRun).map (fun s ↦
      (s.db.outbox.lookup ⟨1⟩).map fun row ↦ (row.status, row.attempts)) =
      some (some (.inProgress, 2)) := by decide +kernel
  obtain ⟨s, hs, hlookup⟩ := Option.map_eq_some_iff.1 hruns
  obtain ⟨row, hrow, hcolumns⟩ := Option.map_eq_some_iff.1 hlookup
  obtain ⟨hstatus, hattempts⟩ := Prod.mk.inj hcolumns
  obtain ⟨-, hclaimed, -⟩ := attempts_are_spread (oneEventBus 3) refusedTwiceRun s ⟨1⟩ row hs
    (by decide +kernel) hrow
  have hle := hclaimed hstatus
  rw [hattempts] at hle
  exact ⟨s, row, hs, hrow, hattempts, hle⟩

end PhenoEvents
