import Mathlib.Data.List.MinMax
import Mathlib.Data.List.Dedup
import Mathlib.Order.Fin.Basic
import PhenoEvents.Envelope
import PhenoEvents.Library.KeyedTable

/-!
# The schema registry

`SchemaRegistry` maps an event type and a version to a JSON schema.  `register` rejects version 0, a
schema of the wrong shape, and a schema that is not additive over the latest lower version of the
same type; `validate` checks a payload against one registered schema.

Three things of the source are visible here that a specification would hide.

* `object_properties` and `required_fields` return hash collections, whose iteration order is
  random.  The order decides which of several violations is reported, so every function that
  iterates over one takes a `HashOrder`, and nothing is known about it but that it is a permutation.
  A payload's own keys come from a `BTreeMap` and are visited in their order.
* The checks stop at the first violation: they are loops in `Except`.
* `validate_type` is the only check that can fail because of the *schema*, and it does so with a
  message of its own.

What the source does not do is visible as well.  `register` does not look whether the version is
there, nor at the versions above it, nor at the type names in the schema, nor at the root type and
the `additionalProperties` of the version below.
-/

set_option autoImplicit false

namespace PhenoEvents

/-- The order in which a hash collection built from a list of distinct entries yields them. -/
structure HashOrder (α : Type) where
  /-- The entries, reordered. -/
  list : List α → List α
  /-- Every entry is yielded once. -/
  perm : ∀ l, (list l).Perm l

/-- The order in which the entries were put in. -/
def HashOrder.inserted (α : Type) : HashOrder α := ⟨id, fun _ ↦ List.Perm.refl _⟩

theorem HashOrder.mem_list {α : Type} (o : HashOrder α) {l : List α} {a : α} :
    a ∈ o.list l ↔ a ∈ l :=
  (o.perm l).mem_iff

/-- The orders of the two hash collections one call iterates over. -/
structure HashOrders where
  /-- The order of `object_properties`. -/
  properties : HashOrder (String × Value)
  /-- The order of `required_fields`. -/
  required : HashOrder String

/-- Both collections in the order of insertion. -/
def HashOrders.inserted : HashOrders := ⟨.inserted _, .inserted _⟩

/-- `ValidationError`. -/
inductive ValidationError
  | invalidVersion
  | schemaNotFound (eventType : String) (version : Version)
  | invalidSchema (message : String)
  | payloadInvalid (message : String)
  | breakingChange (message : String)
  deriving DecidableEq

/-! ## Reading a schema

The keywords are read where they are of the right form, and ignored where they are not: a `type`
that is no string is as good as none. -/

/-- The entries of an object. -/
def Map.entries (m : Map) : List (String × Value) :=
  m.keys.list.attach.map fun k ↦ (k.1, m.vals k)

theorem Map.mem_entries {m : Map} {k : String} {v : Value} :
    (k, v) ∈ m.entries ↔ m.get k = some v := by
  rw [entries, List.mem_map, get]
  constructor
  · rintro ⟨⟨k', hk⟩, -, h⟩
    obtain ⟨rfl, rfl⟩ := Prod.mk.inj h
    rw [dif_pos hk]
  · intro h
    split at h
    · rename_i hk
      exact ⟨⟨k, hk⟩, List.mem_attach _ _, by rw [Option.some_inj.1 h]⟩
    · cases h

/-- `object_properties`: the entries of the `properties` keyword, none if it is not an object. -/
def objectProperties (schema : Value) : Map :=
  ((schema.get "properties").bind Value.asObject).getD Map.empty

/-- `required_fields`: the strings in the `required` keyword, without repetition. -/
def requiredFields (schema : Value) : List String :=
  (((schema.get "required").bind Value.asArray).getD [] |>.filterMap Value.asStr).dedup

/-- The `type` keyword, if it is a string. -/
def schemaType (schema : Value) : Option String := (schema.get "type").bind Value.asStr

/-! ## The policy on schemas

Two loops over hash collections, each of which stops at the first violation it comes to.  Which one
that is depends on the order, and the order is an argument. -/

/-- The loop of `enforce_additive_policy` over the properties of the previous schema. -/
def enforceProperties (order : HashOrder (String × Value)) (previous next : Value) :
    Except ValidationError Unit :=
  forM (order.list (objectProperties previous).entries) fun entry ↦
    match (objectProperties next).get entry.1 with
    | none => .error (.breakingChange ("property '" ++ entry.1 ++ "' was removed"))
    | some nextProperty =>
      if nextProperty ≠ entry.2 then
        .error (.breakingChange ("property '" ++ entry.1 ++ "' changed"))
      else .ok ()

/-- The second half of `enforce_additive_policy`: the first field of the set difference. -/
def enforceRequired (order : HashOrder String) (previous next : Value) :
    Except ValidationError Unit :=
  match (order.list (requiredFields next)).find? fun field ↦ field ∉ requiredFields previous with
  | some required =>
    .error (.breakingChange ("new required property '" ++ required ++ "' is not additive"))
  | none => .ok ()

/-- `enforce_additive_policy`. -/
def enforceAdditivePolicy (order : HashOrders) (previous next : Value) :
    Except ValidationError Unit := do
  enforceProperties order.properties previous next
  enforceRequired order.required previous next

/-- The test `validate_schema_shape` makes of the `properties` keyword. -/
def validatePropertiesShape (schema : Value) : Except ValidationError Unit :=
  match schema.get "properties" with
  | some properties =>
    if !properties.isObject then .error (.invalidSchema "properties must be an object") else .ok ()
  | none => .ok ()

/-- The tests `validate_schema_shape` makes of the `required` keyword. -/
def validateRequiredShape (schema : Value) : Except ValidationError Unit :=
  match schema.get "required" with
  | some required =>
    match required.asArray with
    | none => .error (.invalidSchema "required must be an array")
    | some fields =>
      if fields.any fun field ↦ !field.isString then
        .error (.invalidSchema "required entries must be strings")
      else .ok ()
  | none => .ok ()

/-- `validate_schema_shape`. -/
def validateSchemaShape (schema : Value) : Except ValidationError Unit :=
  if !schema.isObject then .error (.invalidSchema "schema must be a JSON object")
  else do
    validatePropertiesShape schema
    validateRequiredShape schema

/-! ## The checks on payloads

In the order in which they are made: the type of the root and, for an object, the required fields,
the properties that are declared, and those that are not. -/

/-- The test `validate_type` makes of a value, for the type names it knows. -/
def typeMatches (expected : String) (value : Value) : Option Bool :=
  match expected with
  | "array" => some value.isArray
  | "boolean" => some value.isBoolean
  | "integer" => some (value.asI64.isSome || value.asU64.isSome)
  | "null" => some value.isNull
  | "number" => some value.isNumber
  | "object" => some value.isObject
  | "string" => some value.isString
  | _ => none

/-- `validate_type`. -/
def validateType (expected : String) (value : Value) (path : String) : Except String Unit :=
  match typeMatches expected value with
  | none => .error ("unsupported schema type '" ++ expected ++ "' at " ++ path)
  | some true => .ok ()
  | some false => .error ("expected " ++ path ++ " to be " ++ expected)

/-- The check of the `type` keyword, which is made of the payload and of its members. -/
def validateSchemaType (schema value : Value) (path : String) : Except String Unit :=
  match schemaType schema with
  | some expected => validateType expected value path
  | none => .ok ()

/-- `validate_required`. -/
def validateRequired (order : HashOrder String) (schema : Value) (payload : Map) :
    Except String Unit :=
  forM (order.list (requiredFields schema)) fun field ↦
    if !payload.containsKey field then
      .error ("missing required property '" ++ field ++ "'")
    else .ok ()

/-- `validate_properties`. -/
def validateProperties (order : HashOrder (String × Value)) (schema : Value) (payload : Map) :
    Except String Unit :=
  forM (order.list (objectProperties schema).entries) fun entry ↦
    match payload.get entry.1 with
    | none => .ok ()
    | some value => validateSchemaType entry.2 value entry.1

/-- `validate_additional_properties`. -/
def validateAdditionalProperties (schema : Value) (payload : Map) : Except String Unit :=
  if ((schema.get "additionalProperties").bind Value.asBool).getD true then .ok ()
  else
    forM payload.keys.list fun field ↦
      if !(objectProperties schema).containsKey field then
        .error ("additional property '" ++ field ++ "' is not allowed")
      else .ok ()

/-- `validate_against_schema`. -/
def validateAgainstSchema (order : HashOrders) (schema payload : Value) : Except String Unit := do
  validateSchemaType schema payload "$"
  match payload.asObject with
  | none => pure ()
  | some payloadObject =>
    validateRequired order.required schema payloadObject
    validateProperties order.properties schema payloadObject
    validateAdditionalProperties schema payloadObject

/-! ## The registry

The hash map is a table with a primary key, whose rows are in the order of insertion.  No function
below looks at that order without taking the greatest or the only row. -/

/-- One entry of the registry's hash map. -/
structure SchemaEntry where
  eventType : String
  version : Version
  schema : Value

/-- The key of an entry in the hash map. -/
def SchemaEntry.key (e : SchemaEntry) : String × Version := (e.eventType, e.version)

/-- `SchemaRegistry`. -/
structure SchemaRegistry where
  /-- `HashMap<(String, u32), Value>`. -/
  schemas : KeyedTable SchemaEntry.key

namespace SchemaRegistry

/-- `SchemaRegistry::new`. -/
def new : SchemaRegistry := ⟨.empty⟩

/-- The schema registered for a type and a version. -/
def schemaOf (r : SchemaRegistry) (eventType : String) (version : Version) : Option Value :=
  (r.schemas.lookup (eventType, version)).map SchemaEntry.schema

/-- `latest_schema_for`: the schema of the greatest version of the type below `version`. -/
def latestSchemaFor (r : SchemaRegistry) (eventType : String) (version : Version) : Option Value :=
  let lower := r.schemas.rows.filter fun e : SchemaEntry ↦
    e.eventType = eventType ∧ e.version < version
  (lower.argmax SchemaEntry.version).map SchemaEntry.schema

/-- `HashMap::insert`. -/
def insert (r : SchemaRegistry) (eventType : String) (version : Version) (schema : Value) :
    SchemaRegistry :=
  ⟨r.schemas.upsert ⟨eventType, version, schema⟩ (fun _ ↦ ⟨eventType, version, schema⟩)
    fun _ h ↦ h.symm⟩

/-- The comparison `register` makes with the latest lower version, if there is one. -/
def enforceLatest (order : HashOrders) (latest : Option Value) (schema : Value) :
    Except ValidationError Unit :=
  match latest with
  | some previous => enforceAdditivePolicy order previous schema
  | none => .ok ()

/-- `SchemaRegistry::register`. -/
def register (r : SchemaRegistry) (order : HashOrders) (eventType : String) (version : Version)
    (schema : Value) : Except ValidationError SchemaRegistry :=
  if version = 0 then .error .invalidVersion
  else do
    validateSchemaShape schema
    enforceLatest order (r.latestSchemaFor eventType version) schema
    return r.insert eventType version schema

/-- `SchemaRegistry::validate`. -/
def validate (r : SchemaRegistry) (order : HashOrders) (eventType : String) (version : Version)
    (payload : Value) : Except ValidationError Unit :=
  if version = 0 then .error .invalidVersion
  else
    match r.schemaOf eventType version with
    | none => .error (.schemaNotFound eventType version)
    | some schema => (validateAgainstSchema order schema payload).mapError .payloadInvalid

/-- The arguments of one call to `register`. -/
structure Registration where
  order : HashOrders
  eventType : String
  version : Version
  schema : Value

/-- One call to `register`.  A rejected call leaves the registry as it was. -/
def apply (r : SchemaRegistry) (c : Registration) : SchemaRegistry :=
  match r.register c.order c.eventType c.version c.schema with
  | .ok r' => r'
  | .error _ => r

/-- The registry a sequence of calls on a new one leads to. -/
def registerAll (calls : List Registration) : SchemaRegistry := calls.foldl apply new

/-- The call is accepted. -/
def Accepts (r : SchemaRegistry) (c : Registration) : Prop :=
  ∃ r', r.register c.order c.eventType c.version c.schema = .ok r'

end SchemaRegistry

end PhenoEvents
