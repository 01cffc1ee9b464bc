import PhenoEvents.Bus.Worker

/-!
# `claim_next` when something fails

`claim_next` can return an error at each of its four statements and, after them, when the text of
the row does not decode.  SQLite undoes what was not committed, so the first four leave the outbox
alone.  The fifth comes after the commit: the row is in progress, and the caller has an error
(`claimsAtomically_iff`).

## What is here

* `tryClaimNext`: the method over an SQLite that may fail at any of its statements.  Which of them
  fail is an argument, `fails`, and there may be several; the first one counts.
* `exists_workerStep_of_tryClaimNext`: each outcome is one the workers of the system have, so
  nothing is said here about a second version of the method.
* `ClaimsAtomically`: an error leaves the outbox as it was, and a claim changes one row.
* `claimsAtomically_iff`: this holds, for all clocks, ties and failures, exactly if each row that
  may be claimed decodes.

Nobody will ever take up a row that was claimed without being decoded, and nothing is said about it
but the error that `process_once` returns.
-/

set_option autoImplicit false

namespace PhenoEvents

/-! ## The method

Four statements and a decoding, in the order of the source.  The decoding comes after the commit. -/

/-- The statements of `claim_next`. -/
inductive ClaimStatement
  | begin
  | select
  | update
  | commit
  deriving DecidableEq

/-- `SqliteBus::claim_next` over an SQLite that answers with an error where `fails` has one.  The
transaction is then dropped, and with it what was written in it. -/
def SqliteBus.tryClaimNext (bus : SqliteBus) (fails : ClaimStatement → Option String)
    (now : Instant) (tie : ℕ) (db : Database) : Database × Except String (Option EventEnvelope) :=
  match fails .begin with
  | some error => (db, .error error)
  | none =>
    match fails .select with
    | some error => (db, .error error)
    | none =>
      match db.nextDue now tie with
      | none =>
        match fails .commit with
        | some error => (db, .error error)
        | none => (db, .ok none)
      | some row =>
        match fails .update with
        | some error => (db, .error error)
        | none =>
          let tx := db.updateClaimed row.eventId now
          match fails .commit with
          | some error => (db, .error error)
          | none =>
            if db.countClaimable row.eventId = 0 then (tx, .ok none)
            else (tx, (bus.serde.fromStr row.envelope).map some)

namespace SqliteBus

variable {bus : SqliteBus} {db : Database} {now : Instant} {tie : ℕ}

/-- If no statement fails, this is `claim_next` as the workers run it. -/
theorem tryClaimNext_of_none {fails : ClaimStatement → Option String}
    (h : ∀ statement, fails statement = none) :
    bus.tryClaimNext fails now tie db = bus.claimNext now tie db := by
  cases hrow : db.nextDue now tie with
  | none => simp only [tryClaimNext, claimNext, h, hrow]
  | some row => simp only [tryClaimNext, claimNext, h, hrow]

/-- If a statement fails, nothing has happened. -/
theorem tryClaimNext_cases (fails : ClaimStatement → Option String) :
    (∃ error, bus.tryClaimNext fails now tie db = (db, .error error)) ∨
      bus.tryClaimNext fails now tie db = bus.claimNext now tie db := by
  rw [tryClaimNext, claimNext]
  cases fails .begin with
  | some error => exact Or.inl ⟨error, rfl⟩
  | none =>
    cases fails .select with
    | some error => exact Or.inl ⟨error, rfl⟩
    | none =>
      cases db.nextDue now tie with
      | none =>
        cases fails .commit with
        | some error => exact Or.inl ⟨error, rfl⟩
        | none => exact Or.inr rfl
      | some row =>
        cases fails .update with
        | some error => exact Or.inl ⟨error, rfl⟩
        | none =>
          cases fails .commit with
          | some error => exact Or.inl ⟨error, rfl⟩
          | none => exact Or.inr rfl

/-- **Every outcome is a step of a worker.** -/
theorem exists_workerStep_of_tryClaimNext (w : ℕ) (fails : ClaimStatement → Option String) :
    ∃ action pc obs, bus.workerStep w db (.claiming now) action =
      some ((bus.tryClaimNext fails now tie db).1, pc, obs) := by
  rcases bus.tryClaimNext_cases fails with ⟨error, h⟩ | h
  · exact ⟨.sqliteError, .idle, [], by rw [h]; rfl⟩
  · refine ⟨.claim tie, ?_⟩
    rw [h, workerStep]
    rcases bus.claimNext now tie db with ⟨db', _ | _ | envelope⟩
    · exact ⟨.idle, [], rfl⟩
    · exact ⟨.idle, [], rfl⟩
    · exact ⟨.checking envelope, [.claimed w envelope.id], rfl⟩

/-! ## Atomicity

The condition is about the rows that come first among those that are due, for some reading of the
clock.  A row behind them does not count as long as it stays there. -/

/-- An error leaves the outbox as it was, and a claim changes one row, a due one with the least
`created_at`. -/
structure ClaimsAtomically (bus : SqliteBus) (now : Instant) (db : Database) : Prop where
  error : ∀ fails tie message, (bus.tryClaimNext fails now tie db).2 = .error message →
    (bus.tryClaimNext fails now tie db).1.outbox = db.outbox
  claimed : ∀ fails tie envelope, (bus.tryClaimNext fails now tie db).2 = .ok (some envelope) →
    ∃ before row behind, db.outbox.rows = before ++ row :: behind ∧
      (bus.tryClaimNext fails now tie db).1.outbox.rows = before ++ row.claimed now :: behind ∧
      (row.status = .pending ∨ row.status = .retrying) ∧ row.nextAttemptAt ≤ now ∧
      ∀ r ∈ db.outbox.rows, r.due now = true → row.createdAt ≤ r.createdAt

theorem claimNext_of_nextDue {row : OutboxRow} (h : db.nextDue now tie = some row) :
    bus.claimNext now tie db =
      (db.updateClaimed row.eventId now, (bus.serde.fromStr row.envelope).map some) := by
  rcases bus.claimNext_cases db now tie with ⟨hnone, -⟩ | ⟨row', hrow', heq⟩
  · cases h.symm.trans hnone
  · obtain rfl := Option.some_inj.1 (h.symm.trans hrow')
    exact heq

/-- A claim changes the row of the event, and no other. -/
theorem rows_updateClaimed {row : OutboxRow} (h : db.nextDue now tie = some row) :
    ∃ before behind, db.outbox.rows = before ++ row :: behind ∧
      (db.updateClaimed row.eventId now).outbox.rows = before ++ row.claimed now :: behind := by
  obtain ⟨hrow, hclaim, -, -⟩ := Database.nextDue_eq_some h
  obtain ⟨before, behind, hrows⟩ := List.append_of_mem (KeyedTable.mem_of_lookup hrow)
  refine ⟨before, behind, hrows, ?_⟩
  exact KeyedTable.rows_updateWhere_of_split (fun r _ ↦ r.eventId_claimed now) hrows
    (decide_eq_true ⟨rfl, hclaim⟩) fun r hr ↦ (of_decide_eq_true hr).1

/-- The row that was claimed is in progress, so the outbox is not what it was. -/
theorem outbox_updateClaimed_ne {row : OutboxRow} (h : db.nextDue now tie = some row) :
    (db.updateClaimed row.eventId now).outbox ≠ db.outbox := by
  intro hsame
  obtain ⟨hrow, hclaim, -, -⟩ := Database.nextDue_eq_some h
  have hclaimed : _ = some (row.claimed now) := Database.lookup_updateClaimed_self hrow hclaim
  rw [hsame, hrow, Option.some_inj] at hclaimed
  rw [hclaimed] at hclaim
  cases hclaim

/-- Where the row that is picked decodes, a call fails, finds nothing, or claims. -/
theorem tryClaimNext_of_decodes (bus : SqliteBus) (tie : ℕ) (fails : ClaimStatement → Option String)
    (h : ∀ row ∈ db.outbox.rows, row.due now = true →
      (∀ r ∈ db.outbox.rows, r.due now = true → row.createdAt ≤ r.createdAt) →
        ∃ envelope, bus.serde.fromStr row.envelope = .ok envelope) :
    (∃ error, bus.tryClaimNext fails now tie db = (db, .error error)) ∨
      bus.tryClaimNext fails now tie db = (db, .ok none) ∨
      ∃ row envelope, db.nextDue now tie = some row ∧ bus.tryClaimNext fails now tie db =
        (db.updateClaimed row.eventId now, .ok (some envelope)) := by
  rcases bus.tryClaimNext_cases fails with herror | hclaim
  · exact Or.inl herror
  rcases bus.claimNext_cases db now tie with ⟨hnone, heq⟩ | ⟨row, hrow, heq⟩
  · exact Or.inr (Or.inl (hclaim.trans heq))
  · obtain ⟨hmem, hdue, hleast⟩ := KeyedTable.firstBy_eq_some hrow
    obtain ⟨envelope, hdecode⟩ := h row hmem hdue hleast
    exact Or.inr (Or.inr ⟨row, envelope, hrow, by rw [hclaim, heq, hdecode]; rfl⟩)

/-- **`claim_next` is atomic exactly if each row it may claim decodes**: each due row with the least
`created_at`.  Nothing is needed of the other rows, and nothing of the failures of SQLite. -/
theorem claimsAtomically_iff (bus : SqliteBus) (now : Instant) (db : Database) :
    bus.ClaimsAtomically now db ↔ ∀ row ∈ db.outbox.rows, row.due now = true →
      (∀ r ∈ db.outbox.rows, r.due now = true → row.createdAt ≤ r.createdAt) →
        ∃ envelope, bus.serde.fromStr row.envelope = .ok envelope := by
  constructor
  -- a row that may be picked is picked for some tie, and the error after its commit shows
  · intro h row hrow hdue hleast
    obtain ⟨tie, htie⟩ := KeyedTable.exists_firstBy_eq_some hrow hdue hleast
    have hclaim : bus.tryClaimNext (fun _ ↦ none) now tie db = _ :=
      (tryClaimNext_of_none fun _ ↦ rfl).trans (bus.claimNext_of_nextDue htie)
    cases hdecode : bus.serde.fromStr row.envelope with
    | ok envelope => exact ⟨envelope, rfl⟩
    | error message =>
      have hsame := h.error (fun _ ↦ none) tie message (by rw [hclaim, hdecode]; rfl)
      rw [hclaim] at hsame
      exact absurd hsame (outbox_updateClaimed_ne htie)
  · intro h
    have hcases := fun fails tie ↦ bus.tryClaimNext_of_decodes tie fails h
    constructor
    · intro fails tie message herror
      rcases hcases fails tie with ⟨error, heq⟩ | heq | ⟨row, envelope, -, heq⟩
      · rw [heq]
      · rw [heq]
      · rw [heq] at herror
        cases herror
    · intro fails tie envelope hsome
      rcases hcases fails tie with ⟨error, heq⟩ | heq | ⟨row, envelope', hrow, heq⟩
      · rw [heq] at hsome
        cases hsome
      · rw [heq] at hsome
        cases hsome
      · obtain ⟨-, hclaim, hdue, hleast⟩ := Database.nextDue_eq_some hrow
        obtain ⟨before, behind, hrows, hrows'⟩ := rows_updateClaimed hrow
        rw [OutboxRow.claimable, decide_eq_true_eq] at hclaim
        exact ⟨before, row, behind, hrows, by rw [heq, hrows'], hclaim, hdue, hleast⟩

end SqliteBus

/-- A row with the text `not json`. -/
def undecodable : Database := Database.empty.insertEvent ⟨1⟩ "not json" 0

/-- A bus that can decode nothing. -/
def decodesNothing : SqliteBus := ⟨.table [] List.nodup_nil, 3⟩

/-- **An error after the commit**: the row was pending and is in progress.  The caller gets the
error of the decoding, and no envelope. -/
theorem undecodable_not_claimsAtomically :
    ¬∀ (bus : SqliteBus) (now : Instant) (db : Database), bus.ClaimsAtomically now db := by
  intro h
  have hsame := (h decodesNothing 0 undecodable).error (fun _ ↦ none) 0 "unknown text" rfl
  have hbefore : undecodable.outbox.rows.map OutboxRow.status = [.pending] := rfl
  have hafter : (decodesNothing.tryClaimNext (fun _ ↦ none) 0 0 undecodable).1.outbox.rows.map
      OutboxRow.status = [.inProgress] := rfl
  rw [hsame, hbefore] at hafter
  cases hafter

end PhenoEvents
