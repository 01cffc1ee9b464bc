import PhenoEvents.Bus.Answers
import PhenoEvents.Bus.Delivery
import PhenoEvents.Library.Firsts

/-!
# The tables of the bus keep their books

Two facts about the tables as a whole, which the single events do not show.

* `World.storesFirsts_of_reachable`: the outbox holds the first accepted envelope of each id, in the
  order in which they were accepted.  Nothing but `publish` adds a row, and nothing ever changes the
  text of one, so the texts of a table are those of an `INSERT OR IGNORE` of everything accepted.
* `length_handledEvents`: `handled_events` has as many rows as the outbox has acked ones.

`conservation` adds up what follows for the counts an operator reads.  `pending_count`, `dlq_count`
and the rows of `handled_events` are counted by three queries, over two tables, and are written by
different transactions.  That they add up to the rows of the outbox, less those in progress, is what
an operator takes for granted who reads them.

The theorem speaks of the envelopes that were accepted.  The program does not keep them, and a
reader may ask what they have to do with what was published; `acceptedEnvelopes_of_run` is the
answer.
-/

set_option autoImplicit false

namespace PhenoEvents

open Transition EventView

/-- The envelope a successful `publish` was called with. -/
def Observation.acceptedEnvelope : Observation → Option EventEnvelope
  | .published envelope (.ok _) => some envelope
  | _ => none

/-- What a row says about its event, apart from its progress. -/
def OutboxRow.stored (r : OutboxRow) : Uuid × Except String String := (r.eventId, .ok r.envelope)

/-- What `publish` writes about an envelope. -/
def SqliteBus.stored (bus : SqliteBus) (envelope : EventEnvelope) : Uuid × Except String String :=
  (envelope.id, bus.serde.toString envelope)

namespace World

/-- The envelopes that have been accepted, in order, the duplicates among them.  The program does
not keep this list. -/
def acceptedEnvelopes (s : World) : List EventEnvelope :=
  s.history.filterMap Observation.acceptedEnvelope

end World

/-! ## What is stored

A worker rewrites rows and inserts none, and of the columns it rewrites none is the key or the text.
So the pairs of keys and texts change only when `publish` inserts a row. -/

section Stored

variable {bus : SqliteBus} {w : ℕ} {db db' : Database} {pc pc' : Pc} {action : WorkerAction}
  {obs : List Observation}

/-- An update that keeps what the rows say. -/
theorem map_stored_updateWhere {t : KeyedTable OutboxRow.eventId} {p : OutboxRow → Bool}
    {f : OutboxRow → OutboxRow} (hf : ∀ r, p r = true → (f r).eventId = r.eventId)
    (hstored : ∀ r, (f r).stored = r.stored) :
    (t.updateWhere p f hf).rows.map OutboxRow.stored = t.rows.map OutboxRow.stored := by
  rw [KeyedTable.updateWhere, List.map_map]
  refine List.map_congr_left fun r _ ↦ ?_
  show (if p r then f r else r).stored = r.stored
  split
  · exact hstored r
  · rfl

/-- **A worker never changes what the rows say**, and it accepts nothing. -/
theorem WorkerMove.stored (h : WorkerMove bus w db pc action db' pc' obs) :
    db'.outbox.rows.map OutboxRow.stored = db.outbox.rows.map OutboxRow.stored ∧
      obs.filterMap Observation.acceptedEnvelope = [] := by
  cases h with
  | claim now tie row envelope hrow hdecode | claimLost now tie row error hrow hdecode =>
    exact ⟨map_stored_updateWhere (fun r _ ↦ r.eventId_claimed now) fun _ ↦ rfl, rfl⟩
  | markHandled eventId now =>
    exact ⟨map_stored_updateWhere (fun r _ ↦ r.eventId_acked now) fun _ ↦ rfl, rfl⟩
  | updateFailed eventId error now attempts =>
    exact ⟨map_stored_updateWhere (fun r _ ↦ r.eventId_failed _ _ _ now) fun _ ↦ rfl, rfl⟩
  | _ => exact ⟨rfl, rfl⟩

theorem map_stored_insertEvent (id : Uuid) (text : String) (now : Instant) :
    (db.insertEvent id text now).outbox.rows.map OutboxRow.stored =
      if id ∈ db.outbox.rows.map OutboxRow.eventId then db.outbox.rows.map OutboxRow.stored
      else db.outbox.rows.map OutboxRow.stored ++ [(id, .ok text)] := by
  have hkeys : id ∈ db.outbox.rows.map OutboxRow.eventId ↔ db.outbox.lookup id ≠ none :=
    KeyedTable.mem_keys_iff
  cases hrow : db.outbox.lookup id with
  | some row =>
    have hsame : db.outbox.insertOrIgnore (.new id text now) = db.outbox :=
      KeyedTable.insertOrIgnore_of_some hrow
    rw [if_pos (hkeys.2 (by simp [hrow])), Database.insertEvent, hsame]
  | none =>
    have hrows : (db.outbox.insertOrIgnore (.new id text now)).rows =
        db.outbox.rows ++ [.new id text now] := KeyedTable.rows_insertOrIgnore_of_none hrow
    rw [if_neg fun hmem ↦ hkeys.1 hmem hrow, Database.insertEvent, hrows, List.map_append]
    rfl

end Stored

namespace World

variable {bus : SqliteBus} {s t : World} {action : Action}

/-- A worker accepts nothing. -/
theorem acceptedEnvelopes_of_work {w : ℕ} {action : WorkerAction}
    (hstep : step bus s (.work w action) = some t) : t.acceptedEnvelopes = s.acceptedEnvelopes := by
  cases WorldMove.of_step hstep with
  | work w pc pc' action db' obs hpc hmove =>
    rw [acceptedEnvelopes, List.filterMap_append, hmove.stored.2, List.append_nil]
    rfl

/-- The outbox holds the first accepted envelope of each id. -/
def StoresFirsts (bus : SqliteBus) (s : World) : Prop :=
  s.db.outbox.rows.map OutboxRow.stored =
    (s.acceptedEnvelopes.firsts EventEnvelope.id).map bus.stored

theorem StoresFirsts.eventIds (h : s.StoresFirsts bus) :
    s.db.outbox.rows.map OutboxRow.eventId =
      (s.acceptedEnvelopes.firsts EventEnvelope.id).map EventEnvelope.id := by
  have hids := congrArg (List.map Prod.fst) h
  rw [List.map_map, List.map_map] at hids
  exact hids

theorem storesFirsts_step (h : s.StoresFirsts bus) (hstep : step bus s action = some t) :
    t.StoresFirsts bus := by
  cases WorldMove.of_step hstep with
  | accepted envelope now text hvalid htext =>
    have hkey : envelope.id ∈ s.db.outbox.rows.map OutboxRow.eventId ↔
        envelope.id ∈ s.acceptedEnvelopes.map EventEnvelope.id := by
      rw [h.eventIds, List.mem_map_firsts_iff]
    have haccepted : acceptedEnvelopes { s with
        db := s.db.insertEvent envelope.id text now
        history := s.history ++ [.published envelope
          (.ok ⟨envelope.id, (s.db.outbox.lookup envelope.id).isSome⟩)] } =
        s.acceptedEnvelopes ++ [envelope] := List.filterMap_append ..
    rw [StoresFirsts, haccepted, List.firsts_concat, map_stored_insertEvent]
    -- `INSERT OR IGNORE` and `firsts` drop the same envelopes
    by_cases hold : envelope.id ∈ s.acceptedEnvelopes.map EventEnvelope.id
    · rw [if_pos (hkey.2 hold), if_pos hold]
      exact h
    · rw [if_neg (mt hkey.1 hold), if_neg hold, h, List.map_append, List.map_singleton,
        SqliteBus.stored, htext]
  | rejected envelope now error herror =>
    have haccepted : acceptedEnvelopes { s with
        history := s.history ++ [.published envelope (.error error)] } = s.acceptedEnvelopes := by
      rw [acceptedEnvelopes, List.filterMap_append]
      exact List.append_nil _
    rw [StoresFirsts, haccepted]
    exact h
  | subscribe w hfree => exact h
  | work w pc pc' action db' obs hpc hmove =>
    have haccepted : acceptedEnvelopes
        ⟨db', Function.update s.workers w (some pc'), s.history ++ obs⟩ = s.acceptedEnvelopes := by
      rw [acceptedEnvelopes, List.filterMap_append, hmove.stored.2, List.append_nil]
      rfl
    rw [StoresFirsts, haccepted]
    exact hmove.stored.1.trans h
  | abort w pc hpc => exact h
  | restart => exact h

/-- **The outbox holds the first accepted envelope of each id**, whatever the workers do. -/
theorem storesFirsts_of_reachable (h : Reachable (step bus) initial s) : s.StoresFirsts bus :=
  h.invariant (show initial.StoresFirsts bus from rfl) fun _ _ _ hs hstep ↦
    storesFirsts_step hs hstep

/-! ## What is accepted

`acceptedEnvelopes` is read off the history, which the program does not keep.  It is what was
published, less the envelopes that are not valid and those that cannot be written down. -/

/-- A call of `publish` succeeds exactly if the envelope is valid and has a text. -/
theorem acceptedEnvelopes_step (hstep : step bus s action = some t) :
    t.acceptedEnvelopes = s.acceptedEnvelopes ++
      (valid action.envelope.toList).filter fun e ↦ (bus.serde.toString e).isOk := by
  cases WorldMove.of_step hstep with
  | accepted envelope now text hvalid htext =>
    rw [acceptedEnvelopes, List.filterMap_append, ← acceptedEnvelopes, Action.envelope,
      Option.toList_some, ← List.nil_append [envelope], valid_concat_of_ok _ hvalid]
    simp [valid, htext, Observation.acceptedEnvelope, Except.isOk, Except.toBool]
  | rejected envelope now error herror =>
    rw [acceptedEnvelopes, List.filterMap_append, ← acceptedEnvelopes, Action.envelope,
      Option.toList_some, ← List.nil_append [envelope]]
    cases hvalid : envelope.validate with
    | error invalid =>
      rw [valid_concat_of_error _ hvalid]
      rfl
    | ok =>
      cases htext : bus.serde.toString envelope with
      | ok text =>
        have hok : bus.publish envelope now s.db = .ok _ :=
          SqliteBus.publish_eq_ok_iff.2 ⟨hvalid, text, htext, rfl, rfl⟩
        cases herror.symm.trans hok
      | error message =>
        rw [valid_concat_of_ok _ hvalid]
        simp [valid, htext, Observation.acceptedEnvelope, Except.isOk, Except.toBool]
  | work w pc pc' action db' obs hpc hmove =>
    rw [acceptedEnvelopes_of_work hstep]
    exact (List.append_nil _).symm
  | subscribe | abort | restart => exact (List.append_nil _).symm

/-- **What is accepted is what was published**, as far as it is valid and has a text. -/
theorem acceptedEnvelopes_of_run {as : List Action} (hrun : run (step bus) initial as = some s) :
    s.acceptedEnvelopes =
      (valid (published as)).filter fun e ↦ (bus.serde.toString e).isOk := by
  refine run_invariant_of_trace (I := fun as s ↦ s.acceptedEnvelopes =
    (valid (published as)).filter fun e ↦ (bus.serde.toString e).isOk) rfl
    (fun as a s t h hstep ↦ ?_) hrun
  rw [acceptedEnvelopes_step hstep, h, published_concat, valid, valid, valid, List.filter_append,
    List.filter_append]

end World

/-! ## Counting rows

Two of the counts are queries over the column `status`, and the third one is the number of rows of
the other table. -/

/-- Every row is pending, dead or acked. -/
theorem counts_add_up (rows : List OutboxRow) :
    (rows.countP fun r : OutboxRow ↦ r.status = .pending ∨ r.status = .retrying ∨
        r.status = .inProgress) + (rows.countP fun r : OutboxRow ↦ r.status = .dlq) +
      (rows.countP fun r : OutboxRow ↦ r.status = .acked) = rows.length := by
  induction rows with
  | nil => rfl
  | cons r rows ih =>
    simp only [List.countP_cons, List.length_cons, ← ih]
    cases r.status <;> simp <;> omega

/-- An event is in `handled_events` exactly if its row is acked, so there are as many of them.  The
two are written in one transaction, and neither is ever taken back. -/
theorem length_handledEvents {bus : SqliteBus} {s : World} (h : s.Sound bus) :
    s.db.handledEvents.rows.length =
      s.db.outbox.rows.countP fun r : OutboxRow ↦ r.status = .acked := by
  have hacked : (s.db.outbox.rows.filter fun r : OutboxRow ↦ r.status = .acked).map
      OutboxRow.eventId |>.Nodup :=
    s.db.outbox.nodup.sublist (List.filter_sublist.map _)
  have hperm : (s.db.handledEvents.rows.map HandledRow.eventId).Perm
      ((s.db.outbox.rows.filter fun r : OutboxRow ↦ r.status = .acked).map OutboxRow.eventId) := by
    refine (List.perm_ext_iff_of_nodup s.db.handledEvents.nodup hacked).2 fun id ↦ ?_
    have hhandled : id ∈ s.db.handledEvents.rows.map HandledRow.eventId ↔
        s.db.alreadyHandled id = true := by
      rw [KeyedTable.mem_keys_iff, Database.alreadyHandled_eq_isSome, Option.isSome_iff_ne_none]
    rw [hhandled]
    refine ((h id).phase.handled_iff).trans ?_
    simp only [List.mem_map, List.mem_filter, decide_eq_true_eq]
    refine exists_congr fun row ↦ ?_
    show s.db.outbox.lookup id = some row ∧ _ ↔ _
    rw [KeyedTable.lookup_eq_some_iff]
    exact ⟨fun ⟨⟨hmem, hid⟩, hst⟩ ↦ ⟨⟨hmem, hst⟩, hid⟩, fun ⟨⟨hmem, hst⟩, hid⟩ ↦ ⟨⟨hmem, hid⟩, hst⟩⟩
  have hlength := hperm.length_eq
  rwa [List.length_map, List.length_map, ← List.countP_eq_length_filter] at hlength

/-- **Conservation of events.**  In every reachable state, whatever was published, handled, aborted
or restarted: the outbox has one row for each accepted id, with the text of the first envelope
accepted under it; exactly one of the successful calls for an id was not answered with `duplicate`;
an event is in `handled_events` exactly if its row is acked, so never when it has just been claimed;
and the three counts add up to the number of accepted ids. -/
theorem conservation (bus : SqliteBus) (s : World) (hs : Reachable (World.step bus) .initial s) :
    (s.db.outbox.rows.map fun r : OutboxRow ↦ (r.eventId, Except.ok r.envelope)) =
      ((s.acceptedEnvelopes.firsts EventEnvelope.id).map
        fun e ↦ (e.id, bus.serde.toString e)) ∧
    (∀ id, 0 < s.accepted id → (s.view id).log.countP Observation.isFirst = 1) ∧
    (∀ id, s.db.alreadyHandled id = true ↔
      ∃ row, s.db.outbox.lookup id = some row ∧ row.status = .acked) ∧
    (∀ w envelope, s.workers w = some (.checking envelope) →
      s.db.alreadyHandled envelope.id = false) ∧
    s.db.pendingCount + s.db.dlqCount + s.db.handledEvents.rows.length =
      (s.acceptedEnvelopes.map EventEnvelope.id).toFinset.card := by
  have hsound := World.sound_of_reachable hs
  have hstores := World.storesFirsts_of_reachable hs
  refine ⟨hstores, fun id hpos ↦ ?_, fun id ↦ (hsound id).phase.handled_iff,
    fun w envelope hpc ↦ ?_, ?_⟩
  · rw [(hsound id).published.first, if_pos ((hsound id).published.accepted.2 hpos)]
  · obtain ⟨-, -, -, -, -, -, -, hdone, -⟩ :=
      (hsound envelope.id).phase.of_holder (World.holders_view hpc rfl)
    exact hdone
  · have hlength := congrArg List.length hstores.eventIds
    rw [List.length_map, List.length_map] at hlength
    rw [length_handledEvents hsound, Database.pendingCount, Database.dlqCount,
      counts_add_up, hlength,
      List.length_firsts]

/-- One event, handled once. -/
theorem handledRun_conserved : ∃ s, run (World.step (oneEventBus 3)) .initial
    (handledRun (.ok ()) ++ [.work 0 .markHandled]) = some s ∧
      s.db.pendingCount + s.db.dlqCount + s.db.handledEvents.rows.length =
        (s.acceptedEnvelopes.map EventEnvelope.id).toFinset.card := by
  obtain ⟨s, row, hs, -, -⟩ := exists_row_of_map (oneEventBus 3)
    (handledRun (.ok ()) ++ [.work 0 .markHandled]) ⟨1⟩ .acked (by decide +kernel)
  obtain ⟨-, -, -, -, hcounts⟩ := conservation (oneEventBus 3) s ⟨_, hs⟩
  exact ⟨s, hs, hcounts⟩

end PhenoEvents
