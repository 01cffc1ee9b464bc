import Mathlib.Algebra.GroupWithZero.Nat
import Mathlib.Data.List.Nodup
import Mathlib.Data.List.TakeWhile
import Mathlib.Order.Fin.Basic
import PhenoEvents.Json
import PhenoEvents.Library.Checks

/-!
# Event envelopes

`EventEnvelope`, the checks its builder and `publish` make, and the text it is stored as.

The text comes from a library outside the repository, so `Serde` is a parameter of everything that
stores envelopes: two functions, and the one fact about them the bus relies on, that decoding the
text of an envelope gives an envelope with the same id.  Decoding is allowed to fail.  `Serde.table`
is the instance that knows the texts of finitely many envelopes.

An `Instant` is a number of nanoseconds.  The tables store instants as text and compare the text.

## What is here

* `EventEnvelope` and its checks, in the order in which they are made: the type, the source and the
  version.  A text that consists of whitespace is as good as none.
* The builder.  It makes the same checks when it builds, so what it accepts `publish` accepts too
  (`validate_of_build`), and every valid envelope can be built (`validate_eq_ok_iff`).
* `Serde`, and what is assumed of it where more is needed: that it writes every envelope, or that it
  reads what it has written, is a hypothesis of the theorems that use it.
-/

set_option autoImplicit false

namespace PhenoEvents

open Except

/-- `Uuid`: 128 bits. -/
structure Uuid where
  bits : BitVec 128
  deriving DecidableEq

/-- `DateTime<Utc>`, in nanoseconds. -/
abbrev Instant := ℕ

/-- `u32`, the type of `schema_version`. -/
abbrev Version := Fin (2 ^ 32)

instance neZero_version : NeZero (2 ^ 32 : ℕ) := ⟨(Nat.two_pow_pos 32).ne'⟩

/-- `EventEnvelope`. -/
structure EventEnvelope where
  id : Uuid
  eventType : String
  source : String
  timestamp : Instant
  causationId : Option Uuid
  correlationId : Option Uuid
  schemaVersion : Version
  payload : Value
  deriving DecidableEq

/-- `EnvelopeError`. -/
inductive EnvelopeError
  | emptyEventType
  | emptySource
  | invalidSchemaVersion
  deriving DecidableEq

/-! ## Validation

The errors name the field, and the first field that is wrong is the one that is reported. -/

/-- `char::is_whitespace`: the Unicode property `White_Space`. -/
def isWhitespace (c : Char) : Bool :=
  let n := c.toNat
  (0x9 ≤ n ∧ n ≤ 0xD) ∨ n = 0x20 ∨ n = 0x85 ∨ n = 0xA0 ∨ n = 0x1680 ∨ (0x2000 ≤ n ∧ n ≤ 0x200A) ∨
    n = 0x2028 ∨ n = 0x2029 ∨ n = 0x202F ∨ n = 0x205F ∨ n = 0x3000

/-- `str::trim`. -/
def trim (s : String) : List Char :=
  ((s.toList.dropWhile isWhitespace).reverse.dropWhile isWhitespace).reverse

/-- `validate_event_type`. -/
def validateEventType (eventType : String) : Except EnvelopeError Unit :=
  if trim eventType = [] then .error .emptyEventType else .ok ()

/-- `validate_source`. -/
def validateSource (source : String) : Except EnvelopeError Unit :=
  if trim source = [] then .error .emptySource else .ok ()

/-- `validate_schema_version`. -/
def validateSchemaVersion (schemaVersion : Version) : Except EnvelopeError Unit :=
  if schemaVersion = 0 then .error .invalidSchemaVersion else .ok ()

/-- `EventEnvelope::validate`. -/
def EventEnvelope.validate (e : EventEnvelope) : Except EnvelopeError Unit := do
  validateEventType e.eventType
  validateSource e.source
  validateSchemaVersion e.schemaVersion

/-! ## Building

Every setter replaces one field.  The id and the time are drawn at the end, in `build`. -/

/-- `EventEnvelopeBuilder`, with the defaults of `EventEnvelope::builder`. -/
structure EventEnvelopeBuilder where
  eventType : String
  source : String
  payload : Value
  causationId : Option Uuid := none
  correlationId : Option Uuid := none
  schemaVersion : Version := 1

/-- `EventEnvelope::builder`. -/
def EventEnvelope.builder (eventType source : String) (payload : Value) : EventEnvelopeBuilder where
  eventType := eventType
  source := source
  payload := payload

/-- `EventEnvelopeBuilder::causation_id`. -/
def EventEnvelopeBuilder.setCausationId (id : Uuid) (b : EventEnvelopeBuilder) :
    EventEnvelopeBuilder :=
  { b with causationId := some id }

/-- `EventEnvelopeBuilder::correlation_id`. -/
def EventEnvelopeBuilder.setCorrelationId (id : Uuid) (b : EventEnvelopeBuilder) :
    EventEnvelopeBuilder :=
  { b with correlationId := some id }

/-- `EventEnvelopeBuilder::schema_version`. -/
def EventEnvelopeBuilder.setSchemaVersion (schemaVersion : Version) (b : EventEnvelopeBuilder) :
    EventEnvelopeBuilder :=
  { b with schemaVersion := schemaVersion }

/-- `EventEnvelopeBuilder::build`, which draws an id and reads the clock. -/
def EventEnvelopeBuilder.build (b : EventEnvelopeBuilder) (id : Uuid) (now : Instant) :
    Except EnvelopeError EventEnvelope := do
  validateEventType b.eventType
  validateSource b.source
  validateSchemaVersion b.schemaVersion
  return ⟨id, b.eventType, b.source, now, b.causationId, b.correlationId, b.schemaVersion,
    b.payload⟩

/-- `EventEnvelope::new`. -/
def EventEnvelope.new (eventType source : String) (schemaVersion : Version) (payload : Value)
    (id : Uuid) (now : Instant) : Except EnvelopeError EventEnvelope :=
  ((EventEnvelope.builder eventType source payload).setSchemaVersion schemaVersion).build id now

/-- **What the builder accepts, `publish` accepts.** -/
theorem EventEnvelopeBuilder.validate_of_build {b : EventEnvelopeBuilder} {id : Uuid}
    {now : Instant} {e : EventEnvelope} (h : b.build id now = .ok e) : e.validate = .ok () := by
  rw [build, check_bind_eq_ok_iff, check_bind_eq_ok_iff, check_bind_eq_ok_iff] at h
  obtain ⟨htype, hsource, hversion, he⟩ := h
  obtain rfl := Except.ok.inj he
  rw [EventEnvelope.validate, check_bind_eq_ok_iff, check_bind_eq_ok_iff]
  exact ⟨htype, hsource, hversion⟩

/-- The calls by which an envelope with the fields of `e` is built. -/
def EventEnvelope.rebuilder (e : EventEnvelope) : EventEnvelopeBuilder :=
  let b := (EventEnvelope.builder e.eventType e.source e.payload).setSchemaVersion e.schemaVersion
  let b := e.causationId.elim b b.setCausationId
  e.correlationId.elim b b.setCorrelationId

/-- **The builder makes the valid envelopes and no others.** -/
theorem EventEnvelope.validate_eq_ok_iff {e : EventEnvelope} :
    e.validate = .ok () ↔ ∃ b : EventEnvelopeBuilder, b.build e.id e.timestamp = .ok e := by
  constructor
  · intro h
    rw [validate, check_bind_eq_ok_iff, check_bind_eq_ok_iff] at h
    obtain ⟨htype, hsource, hversion⟩ := h
    refine ⟨e.rebuilder, ?_⟩
    obtain ⟨id, eventType, source, now, causationId, correlationId, schemaVersion, payload⟩ := e
    cases causationId <;> cases correlationId <;>
      · rw [EventEnvelopeBuilder.build, check_bind_eq_ok_iff, check_bind_eq_ok_iff,
          check_bind_eq_ok_iff]
        exact ⟨htype, hsource, hversion, rfl⟩
  · rintro ⟨b, hb⟩
    exact EventEnvelopeBuilder.validate_of_build hb

/-! ## The stored text

The fact about the id is needed since a worker knows an event only by the envelope it has decoded.
-/

/-- The encoding of envelopes as JSON text. -/
structure Serde where
  /-- `serde_json::to_string`. -/
  toString : EventEnvelope → Except String String
  /-- `serde_json::from_str`. -/
  fromStr : String → Except String EventEnvelope
  /-- The text of an envelope decodes, if at all, to one with the same id. -/
  id_eq : ∀ e text e', toString e = .ok text → fromStr text = .ok e' → e'.id = e.id

namespace Serde

/-- The texts of finitely many envelopes, no text belonging to two of them. -/
def table (entries : List (EventEnvelope × String)) (h : (entries.map Prod.snd).Nodup) : Serde where
  toString e :=
    match entries.find? fun entry ↦ entry.1 = e with
    | some entry => .ok entry.2
    | none => .error "unknown envelope"
  fromStr text :=
    match entries.find? fun entry ↦ entry.2 = text with
    | some entry => .ok entry.1
    | none => .error "unknown text"
  id_eq := by
    intro e text e' htext hdecode
    split at htext
    case h_2 => cases htext
    rename_i entry hentry
    obtain rfl := Except.ok.inj htext
    split at hdecode
    case h_2 => cases hdecode
    rename_i entry' hentry'
    obtain rfl := Except.ok.inj hdecode
    have hsame : entry'.2 = entry.2 := by simpa using List.find?_some hentry'
    have heq : entry' = entry := List.inj_on_of_nodup_map h (List.mem_of_find?_eq_some hentry')
      (List.mem_of_find?_eq_some hentry) hsame
    have he : entry.1 = e := by simpa using List.find?_some hentry
    rw [heq, he]

/-- What a table has encoded it can decode. -/
theorem fromStr_table {entries : List (EventEnvelope × String)}
    (h : (entries.map Prod.snd).Nodup) {e : EventEnvelope} {text : String}
    (htext : (table entries h).toString e = .ok text) : (table entries h).fromStr text = .ok e := by
  dsimp only [table] at htext ⊢
  split at htext
  case h_2 => cases htext
  rename_i entry hentry
  obtain rfl := Except.ok.inj htext
  have hmem : entry ∈ entries := List.mem_of_find?_eq_some hentry
  have he : entry.1 = e := by simpa using List.find?_some hentry
  cases hfind : entries.find? fun entry' ↦ entry'.2 = entry.2 with
  | none => simpa using List.find?_eq_none.1 hfind entry hmem
  | some entry' =>
    have hsame : entry'.2 = entry.2 := by simpa using List.find?_some hfind
    have heq : entry' = entry :=
      List.inj_on_of_nodup_map h (List.mem_of_find?_eq_some hfind) hmem hsame
    exact congrArg Except.ok (heq ▸ he)

end Serde

end PhenoEvents
