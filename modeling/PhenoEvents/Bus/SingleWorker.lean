import PhenoEvents.Bus.Answers

/-!
# The outbox as a queue

One worker and one publisher, a handler that returns `Ok`, and a clock that advances.  Then the
outbox is a queue (`Queue`): the events that were handled, the one the worker has claimed, and those
that wait, in the order in which they were published.

The order comes from the clock twice.  `claim_next` takes the row with the least `created_at`, which
is the first that waits; and `last_seen` is the row with the greatest `handled_at`, which is the
event that was handled last.  There is one lemma for each statement, `World.serves_step` puts them
together, and `World.Serves.invocations` is what the handler sees.

## What is here

* `Queue`: the rows of the outbox are three lists one after the other, and the rows of
  `handled_events` are the first of them.  The times of both tables increase.
* `Stage`: what the worker has done of the delivery it is at, as long as the queue does not show it.
* `Serving` and `World.Serves`: the queue holds what was published, less what repeats an id, and the
  handler was called with the events that are no longer waiting.
* `Undisturbed`: what is assumed of a run.  SQLite reports no error and the handler none, so the
  worker never leaves an event behind; the clock readings of both sides increase.

A second worker would not break the order in which events are claimed for the first time, but the
order in which the handlers are called.
-/

set_option autoImplicit false

namespace PhenoEvents

open Transition

/-! ## The queue

`Queue` is about the tables alone.  For each statement of `publish` and `process_once` there is a
lemma that says what it does to the three lists. -/

/-- One more reading of a clock that advances. -/
theorem increasing_concat {readings : List Instant} {now : Instant} :
    (readings ++ [now]).Pairwise (· < ·) ↔ readings.Pairwise (· < ·) ∧ ∀ x ∈ readings, x < now := by
  simp [List.pairwise_append]

/-- What the queue shows of a row. -/
def OutboxRow.entry (bus : SqliteBus) (r : OutboxRow) :
    Uuid × Except String EventEnvelope × Status :=
  (r.eventId, bus.serde.fromStr r.envelope, r.status)

/-- The entry of an event. -/
def EventEnvelope.entry (status : Status) (e : EventEnvelope) :
    Uuid × Except String EventEnvelope × Status :=
  (e.id, .ok e, status)

/-- The events that were handled, the one that is claimed, and those that wait, in the order of the
rows.  The clock agrees with the order of both tables.  No row has ever been put off, so each is due
from the time it was created on. -/
structure Queue (bus : SqliteBus) (db : Database) (done : List EventEnvelope)
    (current : Option EventEnvelope) (waiting : List EventEnvelope) : Prop where
  rows : db.outbox.rows.map (OutboxRow.entry bus) = done.map (EventEnvelope.entry .acked) ++
    current.toList.map (EventEnvelope.entry .inProgress) ++
      waiting.map (EventEnvelope.entry .pending)
  created : (db.outbox.rows.map OutboxRow.createdAt).Pairwise (· < ·)
  due : db.outbox.rows.map OutboxRow.nextAttemptAt = db.outbox.rows.map OutboxRow.createdAt
  handled : db.handledEvents.rows.map HandledRow.eventId = done.map EventEnvelope.id
  handledAt : (db.handledEvents.rows.map HandledRow.handledAt).Pairwise (· < ·)

namespace Queue

variable {bus : SqliteBus} {db : Database} {done waiting : List EventEnvelope}
  {current : Option EventEnvelope} {e : EventEnvelope} {now : Instant}

theorem empty (bus : SqliteBus) : Queue bus .empty [] none [] :=
  ⟨rfl, List.Pairwise.nil, rfl, rfl, List.Pairwise.nil⟩

theorem entry_eq_iff {r : OutboxRow} {status : Status} : r.entry bus = e.entry status ↔
    r.eventId = e.id ∧ bus.serde.fromStr r.envelope = .ok e ∧ r.status = status := by
  rw [OutboxRow.entry, EventEnvelope.entry, Prod.mk.injEq, Prod.mk.injEq]

/-- The ids of the rows are those of the events. -/
theorem keys (h : Queue bus db done current waiting) : db.outbox.rows.map OutboxRow.eventId =
    (done ++ current.toList ++ waiting).map EventEnvelope.id := by
  have hfst := congrArg (List.map Prod.fst) h.rows
  rw [List.map_append, List.map_append, List.map_map, List.map_map, List.map_map,
    List.map_map] at hfst
  rw [List.map_append, List.map_append]
  exact hfst

/-- No event is in the queue twice. -/
theorem nodup (h : Queue bus db done current waiting) :
    ((done ++ current.toList ++ waiting).map EventEnvelope.id).Nodup :=
  h.keys ▸ db.outbox.nodup

/-- An `UPDATE` that gives one event another status. -/
theorem update {entries entries' : List (Uuid × Except String EventEnvelope × Status)}
    (status status' : Status) {p : OutboxRow → Bool} {f : OutboxRow → OutboxRow}
    (hf : ∀ r, p r = true → (f r).eventId = r.eventId)
    (h : db.outbox.rows.map (OutboxRow.entry bus) = entries ++ e.entry status :: entries')
    (hp : ∀ r, p r = true → r.eventId = e.id)
    (hr : ∀ r, r.eventId = e.id → r.status = status → p r = true)
    (henvelope : ∀ r, (f r).envelope = r.envelope) (hstatus : ∀ r, (f r).status = status') :
    (db.outbox.updateWhere p f hf).rows.map (OutboxRow.entry bus) =
      entries ++ e.entry status' :: entries' := by
  obtain ⟨before, rest, hrows, rfl, hrest⟩ := List.map_eq_append_iff.1 h
  obtain ⟨r, behind, rfl, he, rfl⟩ := List.map_eq_cons_iff.1 hrest
  obtain ⟨hid, hdecode, hold⟩ := entry_eq_iff.1 he
  have hentry : (f r).entry bus = e.entry status' :=
    entry_eq_iff.2 ⟨(hf r (hr r hid hold)).trans hid, by rw [henvelope, hdecode], hstatus r⟩
  rw [KeyedTable.rows_updateWhere_of_split hf hrows (hr r hid hold) fun s hs ↦
    (hp s hs).trans hid.symm,
    List.map_append, List.map_cons, hentry]

/-- A new event has a new row. -/
theorem rows_insertEvent (h : Queue bus db done current waiting) (text : String) (now : Instant)
    (hnew : e.id ∉ (done ++ current.toList ++ waiting).map EventEnvelope.id) :
    (db.insertEvent e.id text now).outbox.rows = db.outbox.rows ++ [.new e.id text now] := by
  refine KeyedTable.rows_insertOrIgnore_of_none (r := OutboxRow.new e.id text now) ?_
  rw [← h.keys, KeyedTable.mem_keys_iff, not_not] at hnew
  exact hnew

/-- An event is published. -/
theorem insertEvent (h : Queue bus db done current waiting) {text : String}
    (htext : bus.serde.fromStr text = .ok e)
    (hnew : e.id ∉ (done ++ current.toList ++ waiting).map EventEnvelope.id)
    (hnow : ∀ r ∈ db.outbox.rows, r.createdAt < now) :
    Queue bus (db.insertEvent e.id text now) done current (waiting ++ [e]) := by
  have hrows := h.rows_insertEvent text now hnew
  refine ⟨?_, ?_, ?_, h.handled, h.handledAt⟩
  · rw [hrows, List.map_append, h.rows, List.map_append, ← List.append_assoc]
    show _ ++ [(e.id, bus.serde.fromStr text, Status.pending)] = _
    rw [htext]
    rfl
  · rw [hrows, List.map_append]
    exact increasing_concat.2 ⟨h.created, List.forall_mem_map.2 hnow⟩
  · rw [hrows, List.map_append, List.map_append, h.due]
    rfl

/-- **`claim_next` takes the first event that waits.**  The rows in front of it are acked, and those
behind it were created later.  There are no ties. -/
theorem nextDue (h : Queue bus db done none waiting) {tie : ℕ} {row : OutboxRow}
    (hrow : db.nextDue now tie = some row) :
    ∃ e rest, waiting = e :: rest ∧ row.entry bus = e.entry .pending := by
  obtain ⟨hlookup, hclaimable, hdue, hleast⟩ := Database.nextDue_eq_some hrow
  have hrow' : row ∈ db.outbox.rows := KeyedTable.mem_of_lookup hlookup
  obtain ⟨before, behind, hrows, hbefore, hbehind⟩ := List.map_eq_append_iff.1 h.rows
  rw [hrows, List.mem_append] at hrow'
  rcases hrow' with hrow' | hrow'
  · have hmem : row.entry bus ∈ done.map (EventEnvelope.entry .acked) ++ [] :=
      hbefore ▸ List.mem_map_of_mem hrow'
    rw [List.append_nil] at hmem
    obtain ⟨e, -, he⟩ := List.mem_map.1 hmem
    have hacked : row.status = .acked := (entry_eq_iff.1 he.symm).2.2
    simp [OutboxRow.claimable, hacked] at hclaimable
  cases behind with
  | nil => cases hrow'
  | cons r behind =>
    obtain ⟨e, rest, hwaiting, he, -⟩ := List.map_eq_cons_iff.1 hbehind.symm
    refine ⟨e, rest, hwaiting, ?_⟩
    rcases List.mem_cons.1 hrow' with rfl | hlater
    · exact he.symm
    -- A later row is due only if the first one is, and the first one is older.
    have hr : r ∈ db.outbox.rows := hrows ▸ List.mem_append_right _ List.mem_cons_self
    have hlt : r.createdAt < row.createdAt := by
      have hcreated := List.pairwise_map.1 h.created
      rw [hrows, List.pairwise_append] at hcreated
      exact (List.pairwise_cons.1 hcreated.2.1).1 row hlater
    have hpending : r.status = .pending := (entry_eq_iff.1 he.symm).2.2
    have hr' : r.due now = true := by
      have hsame := List.map_inj_left.1 h.due
      rw [hsame row (KeyedTable.mem_of_lookup hlookup)] at hdue
      rw [OutboxRow.due, decide_eq_true_eq, hsame r hr]
      exact ⟨by simp [OutboxRow.claimable, hpending], hlt.le.trans hdue⟩
    exact absurd (hleast r hr hr') (not_le.2 hlt)

/-- If no row can be claimed, no event waits. -/
theorem waiting_eq_nil (h : Queue bus db done current waiting)
    (hnone : ∀ r ∈ db.outbox.rows, r.claimable = false) : waiting = [] := by
  refine List.eq_nil_iff_forall_not_mem.2 fun e he ↦ ?_
  have hmem : e.entry .pending ∈ db.outbox.rows.map (OutboxRow.entry bus) := by
    rw [h.rows]
    exact List.mem_append_right _ (List.mem_map_of_mem he)
  obtain ⟨r, hr, hentry⟩ := List.mem_map.1 hmem
  have hclaimable := hnone r hr
  rw [OutboxRow.claimable, (entry_eq_iff.1 hentry).2.2] at hclaimable
  cases hclaimable

/-- The first event that waits is claimed. -/
theorem updateClaimed (h : Queue bus db done none (e :: waiting)) (now : Instant) :
    Queue bus (db.updateClaimed e.id now) done (some e) waiting := by
  have hf : ∀ r : OutboxRow, decide (r.eventId = e.id ∧ r.claimable) = true →
      (r.claimed now).eventId = r.eventId := fun r _ ↦ r.eventId_claimed now
  have hcreated := db.outbox.map_rows_updateWhere (g := OutboxRow.createdAt) hf fun _ _ ↦ rfl
  have hdue := db.outbox.map_rows_updateWhere (g := OutboxRow.nextAttemptAt) hf fun _ _ ↦ rfl
  refine ⟨?_, hcreated ▸ h.created, hdue.trans (h.due.trans hcreated.symm), h.handled, h.handledAt⟩
  rw [List.append_assoc]
  refine update .pending .inProgress hf ?_ (fun r hr ↦ (of_decide_eq_true hr).1)
    (fun r hid hold ↦ ?_)
    (fun _ ↦ rfl) fun _ ↦ rfl
  · simpa using h.rows
  · simp [hid, hold, OutboxRow.claimable]

/-- The event that is claimed has not been handled. -/
theorem lookup_handledEvents (h : Queue bus db done (some e) waiting) :
    db.handledEvents.lookup e.id = none := by
  by_contra hsome
  have hdone := KeyedTable.mem_keys_iff.2 hsome
  rw [h.handled] at hdone
  have hnodup := h.nodup
  rw [List.append_assoc, List.map_append, List.nodup_append] at hnodup
  exact hnodup.2.2 e.id hdone e.id (by simp) rfl

/-- **`last_seen` is the event that was handled last.**  The rows of `handled_events` are in the
order of their times, so the greatest time is in the last of them. -/
theorem lastSeen (h : Queue bus db done current waiting) (tie : ℕ) :
    db.lastSeen tie = done.getLast?.map EventEnvelope.id := by
  rw [Database.lastSeen, KeyedTable.firstBy_toDual_of_pairwise tie
    (List.pairwise_map.1 h.handledAt),
    ← List.getLast?_map, ← List.getLast?_map, h.handled]

/-- A handled event has a new row. -/
theorem handledRows_markHandled (h : Queue bus db done (some e) waiting) (now : Instant) :
    (db.markHandled e.id now).handledEvents.rows = db.handledEvents.rows ++ [⟨e.id, now⟩] :=
  KeyedTable.rows_insertOrIgnore_of_none (r := (⟨e.id, now⟩ : HandledRow)) h.lookup_handledEvents

/-- The event that is claimed is marked. -/
theorem markHandled (h : Queue bus db done (some e) waiting)
    (hnow : ∀ r ∈ db.handledEvents.rows, r.handledAt < now) :
    Queue bus (db.markHandled e.id now) (done ++ [e]) none waiting := by
  have hf : ∀ r : OutboxRow, decide (r.eventId = e.id) = true → (r.acked now).eventId = r.eventId :=
    fun r _ ↦ r.eventId_acked now
  have hcreated := db.outbox.map_rows_updateWhere (g := OutboxRow.createdAt) hf fun _ _ ↦ rfl
  have hdue := db.outbox.map_rows_updateWhere (g := OutboxRow.nextAttemptAt) hf fun _ _ ↦ rfl
  have hhandled := h.handledRows_markHandled now
  refine ⟨?_, hcreated ▸ h.created, hdue.trans (h.due.trans hcreated.symm), ?_, ?_⟩
  · have hrows := h.rows
    rw [List.append_assoc] at hrows
    refine (update .inProgress .acked hf hrows (fun r ↦ of_decide_eq_true)
      (fun r hid _ ↦ decide_eq_true hid) (fun _ ↦ rfl) fun _ ↦ rfl).trans ?_
    rw [List.map_append, List.append_assoc, List.append_assoc]
    rfl
  · rw [hhandled, List.map_append, h.handled, List.map_append]
    rfl
  · rw [hhandled, List.map_append]
    exact increasing_concat.2 ⟨h.handledAt, List.forall_mem_map.2 hnow⟩

end Queue

/-! ## The run

Every reading of the clock is in a table, or is held by the worker and about to be written.  That is
what makes the next reading the greatest. -/

/-- The handler returns `Ok`, SQLite reports no error, and nobody else is there: there is one
worker, which is not aborted, and the process does not restart. -/
def Action.Undisturbed : Action → Prop
  | .publish _ _ => True
  | .work w (.returned result _) => w = 0 ∧ result = .ok ()
  | .work w action => w = 0 ∧ action ≠ .sqliteError
  | .subscribe _ | .abort _ | .restart => False

/-- The clock reading of `publish`, which comes after the envelope has been checked. -/
def Action.publishedAt : Action → Option Instant
  | .publish envelope now => if envelope.validate.isOk then some now else none
  | _ => none

/-- The clock reading of `mark_handled` after the handler has returned. -/
def Action.handledAt : Action → Option Instant
  | .work _ (.returned _ now) => some now
  | _ => none

/-- What is assumed of a run: one worker, a handler that returns `Ok`, no error from SQLite, a clock
that advances, and envelopes that survive the round trip. -/
structure SqliteBus.Undisturbed (bus : SqliteBus) (as : List Action) : Prop where
  alone : ∀ a ∈ as, a.Undisturbed
  publishedAt : (as.filterMap Action.publishedAt).Pairwise (· < ·)
  handledAt : (as.filterMap Action.handledAt).Pairwise (· < ·)
  roundTrips : ∀ e ∈ published as, bus.serde.RoundTrips e

theorem SqliteBus.Undisturbed.of_sublist {bus : SqliteBus} {as bs : List Action}
    (h : bus.Undisturbed bs) (hsub : as.Sublist bs) : bus.Undisturbed as where
  alone a ha := h.alone a (hsub.subset ha)
  publishedAt := h.publishedAt.sublist (hsub.filterMap _)
  handledAt := h.handledAt.sublist (hsub.filterMap _)
  roundTrips e he := h.roundTrips e ((hsub.filterMap _).subset he)

/-- The call of the handler. -/
def Observation.invocation : Observation → Option Message
  | .invoked _ envelope lastSeen => some ⟨envelope, lastSeen⟩
  | _ => none

namespace World

/-- The calls of the handler. -/
def invocations (s : World) : List Message := s.history.filterMap Observation.invocation

/-- No event waits: none can be claimed, and the handler has been called with the one that was. -/
def Drained (s : World) : Prop :=
  (∀ r ∈ s.db.outbox.rows, r.claimable = false) ∧
    ∀ e, s.workers 0 ≠ some (.checking e) ∧ s.workers 0 ≠ some (.querying e)

end World

/-- What the worker does with the event it has claimed, the events the handler has been called with,
and the clock reading that waits for `mark_handled`. -/
inductive Stage (done : List EventEnvelope) :
    Pc → Option EventEnvelope → List EventEnvelope → Option Instant → Prop
  | idle : Stage done .idle none done none
  | claiming (now : Instant) : Stage done (.claiming now) none done none
  | checking (e : EventEnvelope) : Stage done (.checking e) (some e) done none
  | querying (e : EventEnvelope) : Stage done (.querying e) (some e) done none
  | handling (e : EventEnvelope) (lastSeen : Option Uuid) :
      Stage done (.handling e lastSeen) (some e) (done ++ [e]) none
  | acking (e : EventEnvelope) (now : Instant) :
      Stage done (.acking e.id now) (some e) (done ++ [e]) (some now)

theorem Stage.called_isPrefix {done called : List EventEnvelope} {pc : Pc}
    {current : Option EventEnvelope} {reading : Option Instant}
    (h : Stage done pc current called reading) : called <+: done ++ current.toList := by
  cases h <;> simp

theorem Stage.called_eq {done called : List EventEnvelope} {pc : Pc}
    {current : Option EventEnvelope} {reading : Option Instant}
    (h : Stage done pc current called reading) (hpc : ∀ e, pc ≠ .checking e ∧ pc ≠ .querying e) :
    called = done ++ current.toList := by
  cases h with
  | checking e => exact absurd rfl (hpc e).1
  | querying e => exact absurd rfl (hpc e).2
  | idle | claiming | handling | acking => simp

/-- The queue holds these events, and the worker has called the handler in their order.  Every
reading of the clock is in a table or about to be written.  All of it is carried along by one lemma
for each step, and a step moves an event from one of the three lists to the next. -/
structure Serving (bus : SqliteBus) (db : Database) (pc : Pc) (events : List EventEnvelope)
    (invocations : List Message) (publishedAt handledAt : List Instant) (done : List EventEnvelope)
    (current : Option EventEnvelope) (waiting : List EventEnvelope) : Prop where
  queue : Queue bus db done current waiting
  events : events = done ++ current.toList ++ waiting
  created : db.outbox.rows.map OutboxRow.createdAt = publishedAt
  stage : ∃ called reading, Stage done pc current called reading ∧
    invocations = chained none called ∧
    db.handledEvents.rows.map HandledRow.handledAt ++ reading.toList = handledAt

namespace Serving

variable {bus : SqliteBus} {db db' : Database} {pc pc' : Pc} {events : List EventEnvelope}
  {invocations : List Message} {publishedAt handledAt : List Instant}
  {done waiting : List EventEnvelope} {current : Option EventEnvelope} {e : EventEnvelope}
  {now : Instant}

/-- An event is published. -/
theorem publish
    (h : Serving bus db pc events invocations publishedAt handledAt done current waiting)
    {text : String} (htext : bus.serde.fromStr text = .ok e)
    (hdistinct : ((events ++ [e]).map EventEnvelope.id).Nodup)
    (hclock : (publishedAt ++ [now]).Pairwise (· < ·)) :
    Serving bus (db.insertEvent e.id text now) pc (events ++ [e]) invocations (publishedAt ++ [now])
      handledAt done current (waiting ++ [e]) := by
  rw [List.map_append, List.map_singleton, List.nodup_append, h.events] at hdistinct
  have hnew : e.id ∉ (done ++ current.toList ++ waiting).map EventEnvelope.id :=
    fun hmem ↦ hdistinct.2.2 e.id hmem e.id (List.mem_singleton_self _) rfl
  rw [← h.created] at hclock
  have hnow := List.forall_mem_map.1 (increasing_concat.1 hclock).2
  refine ⟨h.queue.insertEvent htext hnew hnow, ?_, ?_, h.stage⟩
  · rw [h.events, List.append_assoc]
  · rw [h.queue.rows_insertEvent text now hnew, List.map_append, h.created]
    rfl

/-- **A step of the worker.**  Some of the steps an undisturbed worker cannot take: it finds no
event that was handled already, no failure to write down, and no row that does not decode. -/
theorem work (h : Serving bus db pc events invocations publishedAt handledAt done current waiting)
    {action : WorkerAction} {obs : List Observation}
    (hmove : WorkerMove bus 0 db pc action db' pc' obs)
    (halone : (Action.work 0 action).Undisturbed)
    (hclock : (handledAt ++ (Action.work 0 action).handledAt.toList).Pairwise (· < ·)) :
    ∃ done' current' waiting', Serving bus db' pc' events
      (invocations ++ obs.filterMap Observation.invocation) publishedAt
      (handledAt ++ (Action.work 0 action).handledAt.toList) done' current' waiting' := by
  obtain ⟨hqueue, hevents, hcreated, called, reading, hstage, rfl, rfl⟩ := h
  have hsame : ∀ invocations : List Message, invocations ++ [] = invocations := List.append_nil
  cases hmove with
  | poll now =>
    cases hstage
    exact ⟨_, _, _, hqueue, hevents, hcreated, _, _, .claiming now, hsame _,
      (List.append_nil _).symm⟩
  | claimNothing now tie hnone =>
    cases hstage
    exact ⟨_, _, _, hqueue, hevents, hcreated, _, _, .idle, hsame _, (List.append_nil _).symm⟩
  | claim now tie row e hrow hdecode =>
    cases hstage
    obtain ⟨first, rest, rfl, hentry⟩ := hqueue.nextDue hrow
    obtain ⟨hid, hdecode', -⟩ := Queue.entry_eq_iff.1 hentry
    obtain rfl := Except.ok.inj (hdecode'.symm.trans hdecode)
    rw [hid]
    refine ⟨done, some first, rest, hqueue.updateClaimed now, ?_, ?_, done, none, .checking first,
      hsame _, (List.append_nil _).symm⟩
    · rw [hevents, Option.toList_none, List.append_nil, List.append_assoc]
      rfl
    · rw [← hcreated]
      exact db.outbox.map_rows_updateWhere (fun r _ ↦ r.eventId_claimed now) fun _ _ ↦ rfl
  | claimLost now tie row error hrow hdecode =>
    -- every envelope in the queue decodes
    cases hstage
    obtain ⟨first, rest, rfl, hentry⟩ := hqueue.nextDue hrow
    cases (Queue.entry_eq_iff.1 hentry).2.1.symm.trans hdecode
  | handledBefore e now hdone =>
    -- what is claimed is not among the events that were handled, as no id comes twice
    cases hstage
    rw [Database.alreadyHandled_eq_isSome, hqueue.lookup_handledEvents] at hdone
    cases hdone
  | notHandled e now hdone =>
    cases hstage
    exact ⟨_, _, _, hqueue, hevents, hcreated, _, _, .querying e, hsame _, (List.append_nil _).symm⟩
  | invoke e tie =>
    cases hstage
    refine ⟨_, _, _, hqueue, hevents, hcreated, _, _, .handling e _, ?_, (List.append_nil _).symm⟩
    rw [chained_concat, hqueue.lastSeen, Option.or_none]
    rfl
  | succeed e seen now =>
    cases hstage
    refine ⟨_, _, _, hqueue, hevents, hcreated, _, _, .acking e now, hsame _, ?_⟩
    rw [Option.toList_none, List.append_nil]
    rfl
  | fail e seen error now => cases halone.2
  | markHandled id now =>
    -- the event goes from the middle list to the first one
    cases hstage with
    | acking e now =>
      have hnow := List.forall_mem_map.1 (increasing_concat.1 (List.pairwise_append.1 hclock).1).2
      refine ⟨done ++ [e], none, waiting, hqueue.markHandled hnow, ?_, ?_, done ++ [e], none, .idle,
        hsame _, ?_⟩
      · rw [hevents, Option.toList_none, List.append_nil]
        rfl
      · rw [← hcreated]
        exact db.outbox.map_rows_updateWhere (fun r _ ↦ r.eventId_acked now) fun _ _ ↦ rfl
      · rw [hqueue.handledRows_markHandled, List.map_append]
        simp [Action.handledAt]
  | readAttempts | rowGone | updateFailed => cases hstage
  | sqliteError pc hpc => exact absurd rfl halone.2

end Serving

namespace World

variable {bus : SqliteBus} {s t : World}

theorem invocations_of_history {obs : List Observation} (h : t.history = s.history ++ obs) :
    t.invocations = s.invocations ++ obs.filterMap Observation.invocation := by
  rw [invocations, h, List.filterMap_append]
  rfl

/-- The worker serves the queue of what has been published. -/
def Serves (bus : SqliteBus) (as : List Action) (s : World) : Prop :=
  ∃ pc done current waiting, s.workers 0 = some pc ∧ Serving bus s.db pc (valid (published as))
    s.invocations (as.filterMap Action.publishedAt) (as.filterMap Action.handledAt) done
    current waiting

/-- **One step.** -/
theorem serves_step {as : List Action} {a : Action} (h : s.Serves bus as)
    (hclean : bus.Undisturbed (as ++ [a]))
    (hdistinct : ((valid (published (as ++ [a]))).map EventEnvelope.id).Nodup)
    (hstep : step bus s a = some t) : t.Serves bus (as ++ [a]) := by
  obtain ⟨pc, done, current, waiting, hpc, hserving⟩ := h
  have halone : a.Undisturbed :=
    hclean.alone a (List.mem_append_right _ (List.mem_singleton_self a))
  have hpublished := hclean.publishedAt
  have hhandled := hclean.handledAt
  rw [filterMap_concat] at hpublished hhandled
  rw [published_concat] at hdistinct
  rw [Serves, published_concat, filterMap_concat, filterMap_concat]
  cases WorldMove.of_step hstep with
  | accepted e now text hvalid htext =>
    -- the envelope goes to the end of the list that waits
    obtain ⟨text', htext', hdecode⟩ := hclean.roundTrips e
      (by rw [published_concat]; exact List.mem_append_right _ (List.mem_singleton_self e)) hvalid
    obtain rfl := Except.ok.inj (htext.symm.trans htext')
    have hread : (Action.publish e now).publishedAt = some now := by
      rw [Action.publishedAt, hvalid]
      rfl
    rw [hread] at hpublished ⊢
    have hnext := hserving.publish hdecode (valid_concat_of_ok (published as) hvalid ▸ hdistinct)
      hpublished
    refine ⟨pc, done, current, waiting ++ [e], hpc, ?_⟩
    rw [invocations_of_history (s := s) rfl, Action.envelope, Option.toList_some,
      valid_concat_of_ok _ hvalid]
    exact (List.append_nil s.invocations).symm ▸ (List.append_nil (as.filterMap _)).symm ▸ hnext
  | rejected e now error herror =>
    obtain ⟨invalid, hinvalid, -⟩ := SqliteBus.publish_eq_error (hclean.roundTrips e
      (by rw [published_concat]; exact List.mem_append_right _ (List.mem_singleton_self e))).writes
      herror
    have hread : (Action.publish e now).publishedAt = none := by
      rw [Action.publishedAt, hinvalid]
      rfl
    refine ⟨pc, done, current, waiting, hpc, ?_⟩
    rw [invocations_of_history (s := s) rfl, Action.envelope, Option.toList_some,
      valid_concat_of_error _ hinvalid, hread]
    exact (List.append_nil s.invocations).symm ▸ (List.append_nil (as.filterMap _)).symm ▸
      (List.append_nil (as.filterMap _)).symm ▸ hserving
  | work w pc' pc'' action db' obs hpc' hmove =>
    -- there is only the worker 0, and it is where the invariant says
    obtain rfl : w = 0 := by cases action <;> exact halone.1
    obtain rfl := Option.some_inj.1 (hpc.symm.trans hpc')
    obtain ⟨done', current', waiting', hnext⟩ := hserving.work hmove halone hhandled
    refine ⟨pc'', done', current', waiting', by simp, ?_⟩
    rw [invocations_of_history (s := s) rfl]
    show Serving bus db' pc'' (valid (published as ++ [])) _ (_ ++ []) _ _ _ _
    rw [List.append_nil, List.append_nil]
    exact hnext
  | subscribe | abort | restart => cases halone

/-- **One run.** -/
theorem serves_of_run {as : List Action} (hclean : bus.Undisturbed as)
    (hdistinct : ((valid (published as)).map EventEnvelope.id).Nodup)
    (hrun : run (step bus) initial (.subscribe 0 :: as) = some s) : s.Serves bus as := by
  obtain ⟨m, hm, hrun⟩ := run_cons_eq_some.1 hrun
  obtain rfl := Option.some_inj.1 hm
  refine run_invariant_of_trace (I := fun as s ↦ bus.Undisturbed as →
    ((valid (published as)).map EventEnvelope.id).Nodup → s.Serves bus as) (fun _ _ ↦ ?_)
    (fun as a s t ih hstep hclean hdistinct ↦ ?_) hrun hclean hdistinct
  · exact ⟨.idle, [], none, [], rfl, .empty bus, rfl, rfl, [], none, .idle, rfl, rfl⟩
  · have hsub : (valid (published as)).Sublist (valid (published (as ++ [a]))) :=
      ((List.sublist_append_left as [a]).filterMap _).filter _
    exact serves_step (ih (hclean.of_sublist (List.sublist_append_left as [a]))
      (hdistinct.sublist (hsub.map _))) hclean hdistinct hstep

/-- **The handler sees the events in order**, each with the one before it, and it sees all of them
once no event waits. -/
theorem Serves.invocations {as : List Action} (h : s.Serves bus as) :
    s.invocations <+: chained none (valid (published as)) ∧
      (s.Drained → s.invocations = chained none (valid (published as))) := by
  obtain ⟨pc, done, current, waiting, hpc, hqueue, hevents, -, called, reading, hstage,
    hcalled, -⟩ := h
  rw [hcalled, hevents]
  refine ⟨chained_isPrefix none (hstage.called_isPrefix.trans (List.prefix_append ..)), ?_⟩
  rintro ⟨hnone, hpc'⟩
  have hfetched : ∀ e, pc ≠ .checking e ∧ pc ≠ .querying e := fun e ↦
    ⟨fun h ↦ (hpc' e).1 (h ▸ hpc), fun h ↦ (hpc' e).2 (h ▸ hpc)⟩
  rw [hqueue.waiting_eq_nil hnone, hstage.called_eq hfetched, List.append_nil]

end World

end PhenoEvents
