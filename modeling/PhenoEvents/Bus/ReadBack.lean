import PhenoEvents.Bus.Conservation

/-!
# Reading back what was published

`publish` writes the text of an envelope once and nothing ever changes it, so what `claim_next` and
`rebuild_from_offset` decode, however much later, is what `serde_json` makes of its own text.  Its
two sides have different limits: it writes containers nested to any depth, and it refuses to read
them from depth 128 on.  `publish` does not look at the depth (`readBack_iff`).

## What is here

* `EventEnvelope.nesting`: the envelope is a container too, so a payload has one level less.
* `Serde.RecursionLimit`: what is assumed of `serde_json`.  Floats are left out, since it does not
  promise to read the float it has written.
* `World.text_run`: whatever the bus does, the text of an event stays what it is.
* `readBack_iff`, over all runs after the call of `publish`.
* `brackets_not_readBack`: the smallest payload that is accepted and never read.

An event that cannot be read back is not an event that waits.  The first worker that claims it gets
an error and leaves the row in progress.
-/

set_option autoImplicit false

namespace PhenoEvents

open Transition

/-- How deep the containers in the text of an envelope nest.  The envelope itself is one. -/
def EventEnvelope.nesting (e : EventEnvelope) : ℕ := e.payload.nesting + 1

/-- What `serde_json` does with an envelope: it writes it at any depth, and what it has written it
reads, floats apart, unless the containers nest 128 deep. -/
structure Serde.RecursionLimit (serde : Serde) (e : EventEnvelope) : Prop where
  writes : ∃ text, serde.toString e = .ok text
  reads : ∀ text, serde.toString e = .ok text → e.payload.hasFloat = false → e.nesting < 128 →
    serde.fromStr text = .ok e
  refuses : ∀ text, serde.toString e = .ok text → 128 ≤ e.nesting →
    ∃ error, serde.fromStr text = .error error

variable {bus : SqliteBus} {s t : World} {id : Uuid} {text : String}

/-- The row of the event says this text. -/
theorem KeyedTable.mem_stored_iff {outbox : KeyedTable OutboxRow.eventId} :
    (id, .ok text) ∈ outbox.rows.map OutboxRow.stored ↔
      ∃ row, outbox.lookup id = some row ∧ row.envelope = text := by
  simp only [List.mem_map, OutboxRow.stored, Prod.mk.injEq, Except.ok.injEq]
  refine exists_congr fun row ↦ ?_
  rw [KeyedTable.lookup_eq_some_iff]
  exact and_assoc.symm

/-- **No step takes a text away.** -/
theorem World.stored_subset_step {action : Action} (h : step bus s action = some t) :
    s.db.outbox.rows.map OutboxRow.stored ⊆ t.db.outbox.rows.map OutboxRow.stored := by
  cases WorldMove.of_step h with
  | accepted envelope now text hvalid htext =>
    show _ ⊆ (s.db.insertEvent envelope.id text now).outbox.rows.map OutboxRow.stored
    rw [map_stored_insertEvent]
    split
    · exact List.Subset.refl _
    · exact List.subset_append_left _ _
  | work w pc pc' action db' obs hpc hmove => exact hmove.stored.1 ▸ List.Subset.refl _
  | _ => exact List.Subset.refl _

/-- The text of an event stays what it is. -/
theorem World.text_run {as : List Action} (hrun : run (step bus) s as = some t)
    (h : ∃ row, s.db.outbox.lookup id = some row ∧ row.envelope = text) :
    ∃ row, t.db.outbox.lookup id = some row ∧ row.envelope = text :=
  KeyedTable.mem_stored_iff.1 (run_invariant
    (I := fun s ↦ (id, Except.ok text) ∈ s.db.outbox.rows.map OutboxRow.stored)
    (fun _ _ _ hs hstep ↦ stored_subset_step hstep hs) (KeyedTable.mem_stored_iff.2 h) hrun)

/-- An event that was not there before has the text of its envelope. -/
theorem SqliteBus.text_of_publish {e : EventEnvelope} {now : Instant} {db db' : Database}
    {ack : Ack} (h : bus.publish e now db = .ok (db', ack)) (hnew : ack.duplicate = false) :
    ∃ text, bus.serde.toString e = .ok text ∧
      ∃ row, db'.outbox.lookup e.id = some row ∧ row.envelope = text := by
  obtain ⟨-, text, htext, rfl, rfl⟩ := publish_eq_ok_iff.1 h
  have hnone : db.outbox.lookup e.id = none := by simpa using hnew
  refine ⟨text, htext, .new e.id text now, ?_, rfl⟩
  rw [Database.lookup_insertEvent_self, hnone]
  rfl

/-- The text decodes exactly if the payload leaves room for the envelope. -/
theorem Serde.RecursionLimit.decodes_iff {serde : Serde} {e : EventEnvelope}
    (h : serde.RecursionLimit e) (hpayload : e.payload.hasFloat = false)
    (htext : serde.toString e = .ok text) :
    serde.fromStr text = .ok e ↔ e.payload.nesting < 127 := by
  constructor
  · intro hdecode
    by_contra hdeep
    obtain ⟨error, herror⟩ := h.refuses text htext (by rw [EventEnvelope.nesting]; omega)
    cases hdecode.symm.trans herror
  · intro hshallow
    exact h.reads text htext hpayload (by rw [EventEnvelope.nesting]; omega)

/-- **What `publish` accepts can be read back exactly if its payload nests less than 127 deep**, at
once and after any run.  The envelope is an object around the payload, and the limit of `serde_json`
is 128. -/
theorem readBack_iff {e : EventEnvelope} {now : Instant} {db : Database} {ack : Ack}
    {as : List Action} (hserde : bus.serde.RecursionLimit e) (hpayload : e.payload.hasFloat = false)
    (hpublish : bus.publish e now s.db = .ok (db, ack)) (hnew : ack.duplicate = false)
    (hrun : run (World.step bus) { s with db := db } as = some t) :
    (∃ row, t.db.outbox.lookup e.id = some row ∧ bus.serde.fromStr row.envelope = .ok e) ↔
      e.payload.nesting < 127 := by
  obtain ⟨text, htext, hstored⟩ := SqliteBus.text_of_publish hpublish hnew
  obtain ⟨row, hrow, rfl⟩ := World.text_run hrun hstored
  rw [← hserde.decodes_iff hpayload htext]
  constructor
  · rintro ⟨row', hrow', hdecode⟩
    obtain rfl := Option.some_inj.1 (hrow.symm.trans hrow')
    exact hdecode
  · exact fun hdecode ↦ ⟨row, hrow, hdecode⟩

/-! ## A payload of brackets

The bound is sharp, and the two payloads next to it show both sides. -/

/-- A reader that gives up at depth 128. -/
def Serde.limited (serde : Serde) : Serde where
  toString := serde.toString
  fromStr text :=
    match serde.fromStr text with
    | .ok e => if e.nesting < 128 then .ok e else .error "recursion limit exceeded"
    | .error error => .error error
  id_eq := by
    intro e text e' htext hdecode
    split at hdecode
    case h_1 hfound =>
      split at hdecode
      · cases hdecode
        exact serde.id_eq e text e' htext hfound
      · cases hdecode
    case h_2 => cases hdecode

theorem Serde.recursionLimit_limited {serde : Serde} {e : EventEnvelope}
    (htext : serde.toString e = .ok text) (hdecode : serde.fromStr text = .ok e) :
    serde.limited.RecursionLimit e where
  writes := ⟨text, htext⟩
  reads text' htext' _ hshallow := by
    obtain rfl := Except.ok.inj (htext.symm.trans htext')
    simp [limited, hdecode, hshallow]
  refuses text' htext' hdeep := by
    obtain rfl := Except.ok.inj (htext.symm.trans htext')
    exact ⟨"recursion limit exceeded", by simp [limited, hdecode, hdeep]⟩

/-- A `user.created` event with nested brackets for a payload. -/
def nestedCreated (n : ℕ) : EventEnvelope := { userCreated with payload := .brackets n }

/-- Its text. -/
@[irreducible] def nestedCreatedText (n : ℕ) : String :=
  "\x7b\"id\":\"00000000-0000-0000-0000-000000000001\",\"event_type\":\"user.created\"," ++
    "\"source\":\"tests\",\"timestamp\":\"1970-01-01T00:00:00Z\",\"causation_id\":null," ++
    "\"correlation_id\":null,\"schema_version\":1,\"payload\":" ++
    String.ofList (List.replicate (n + 1) '[' ++ List.replicate (n + 1) ']') ++ "\x7d"

theorem nesting_nestedCreated (n : ℕ) : (nestedCreated n).payload.nesting = n + 1 :=
  Value.nesting_brackets n

theorem hasFloat_nestedCreated (n : ℕ) : (nestedCreated n).payload.hasFloat = false :=
  Value.hasFloat_brackets n

/-- An encoding that knows only that event. -/
def nestedTable (n : ℕ) : Serde :=
  .table [(nestedCreated n, nestedCreatedText n)] (List.nodup_singleton _)

theorem toString_nestedTable (n : ℕ) :
    (nestedTable n).toString (nestedCreated n) = .ok (nestedCreatedText n) := by
  simp [nestedTable, Serde.table]

theorem fromStr_nestedTable (n : ℕ) :
    (nestedTable n).fromStr (nestedCreatedText n) = .ok (nestedCreated n) := by
  simp [nestedTable, Serde.table]

/-- A bus on which only that event is published. -/
def nestedBus (n : ℕ) : SqliteBus := ⟨(nestedTable n).limited, 3⟩

theorem recursionLimit_nestedBus (n : ℕ) : (nestedBus n).serde.RecursionLimit (nestedCreated n) :=
  Serde.recursionLimit_limited (toString_nestedTable n) (fromStr_nestedTable n)

/-- The event is accepted as new. -/
theorem publish_nestedBus (n : ℕ) : (nestedBus n).publish (nestedCreated n) 0 .empty =
    .ok (Database.empty.insertEvent ⟨1⟩ (nestedCreatedText n) 0, ⟨⟨1⟩, false⟩) :=
  have hvalid : userCreated.validate = .ok () := by decide +kernel
  SqliteBus.publish_eq_ok_iff.2 ⟨hvalid, nestedCreatedText n, toString_nestedTable n, rfl, rfl⟩

/-- Its text decodes only if there are at most 126 pairs of brackets. -/
theorem lt_of_decodes_nested {n : ℕ} {row : OutboxRow}
    (hrow : (Database.empty.insertEvent ⟨1⟩ (nestedCreatedText n) 0).outbox.lookup ⟨1⟩ = some row)
    (hdecode : (nestedBus n).serde.fromStr row.envelope = .ok (nestedCreated n)) : n < 126 := by
  obtain rfl := Option.some_inj.1
    ((Database.lookup_insertEvent_self (nestedCreatedText n) 0).symm.trans hrow)
  have hshallow := ((recursionLimit_nestedBus n).decodes_iff (hasFloat_nestedCreated n)
    (toString_nestedTable n)).1 hdecode
  rw [nesting_nestedCreated] at hshallow
  omega

/-- A payload of 126 pairs of brackets is read back. -/
theorem readBack_of_brackets : ∃ row,
    (Database.empty.insertEvent ⟨1⟩ (nestedCreatedText 125) 0).outbox.lookup ⟨1⟩ = some row ∧
      (nestedBus 125).serde.fromStr row.envelope = .ok (nestedCreated 125) := by
  have hshallow : (nestedCreated 125).payload.nesting < 127 := by
    rw [nesting_nestedCreated]
    decide
  have hrun : run (World.step (nestedBus 125))
      { World.initial with db := Database.empty.insertEvent ⟨1⟩ (nestedCreatedText 125) 0 } [] =
    some { World.initial with db := Database.empty.insertEvent ⟨1⟩ (nestedCreatedText 125) 0 } :=
  rfl
  exact (readBack_iff (s := .initial) (recursionLimit_nestedBus 125) (hasFloat_nestedCreated 125)
    (publish_nestedBus 125) rfl hrun).2 hshallow

/-- **One pair more, and the event is accepted and never read.** -/
theorem brackets_not_readBack : ¬∀ (bus : SqliteBus) (e : EventEnvelope) (now : Instant)
    (db db' : Database) (ack : Ack), bus.serde.RecursionLimit e → e.payload.hasFloat = false →
    bus.publish e now db = .ok (db', ack) → ack.duplicate = false →
    ∃ row, db'.outbox.lookup e.id = some row ∧ bus.serde.fromStr row.envelope = .ok e := by
  intro h
  obtain ⟨row, hrow, hdecode⟩ := h (nestedBus 126) (nestedCreated 126) 0 .empty _ _
    (recursionLimit_nestedBus 126) (hasFloat_nestedCreated 126) (publish_nestedBus 126) rfl
  exact lt_irrefl 126 (lt_of_decodes_nested hrow hdecode)

end PhenoEvents
