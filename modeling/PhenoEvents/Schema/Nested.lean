import PhenoEvents.Schema.Declared

/-!
# Schemas inside schemas

The schema of a property is a JSON value like the schema itself, and could be read like it: a value
is then accepted if the schema admits it and each of its declared members is accepted by its own
schema, and so on (`AdmitsNested`).  The registry does not read it so.  Of the schema of a property
it looks at `type` and at nothing else, so it sees of a schema what its `Outline` shows, one level
deep.

## What is here

* `AdmitsNested`: an inductive relation, as schemas and payloads nest to any depth.
* `SameOutline`: the two schemas agree on their own keywords and on the type of each property, and
  `Admits.of_sameOutline`: then they admit the same payloads.
* `validate_one_level`: what `validate` does see of the schema of a property, and that it sees no
  more.
* `userWithoutZip_not_admitsNested`: a payload that is accepted, and would not be if the schemas
  inside were read.
-/

set_option autoImplicit false

namespace PhenoEvents

/-- The payload is what the schema declares, and so is every declared member of it, to any depth. -/
inductive AdmitsNested : Value → Value → Prop
  | intro (schema payload : Value) (admits : Admits schema payload)
      (members : ∀ name property value, Declares schema name property →
        payload.get name = some value → AdmitsNested property value) : AdmitsNested schema payload

/-- A property is declared, with this type or with none. -/
def DeclaresType (schema : Value) (name : String) (type : Option String) : Prop :=
  ∃ property, Declares schema name property ∧ schemaType property = type

/-- The two schemas agree on their own keywords and on the type of each property.  What else the
schemas of the properties say may differ. -/
structure SameOutline (schema schema' : Value) : Prop where
  root : ∀ name, NamesType schema name ↔ NamesType schema' name
  required : ∀ field, Requires schema field ↔ Requires schema' field
  properties : ∀ name type, DeclaresType schema name type ↔ DeclaresType schema' name type
  closed : Closed schema ↔ Closed schema'

section Nested

variable {schema schema' payload value : Value} {name : String}

theorem get_eq_none_of_isObject (h : value.isObject = false) (k : String) : value.get k = none := by
  rw [Value.isObject, Option.isSome_eq_false_iff, Option.isNone_iff_eq_none] at h
  rw [Value.get, h]
  rfl

/-- What is not an object need only be of the type. -/
theorem AdmitsNested.of_not_isObject (h : value.isObject = false)
    (htype : ∀ type, NamesType schema type → OfType type value) : AdmitsNested schema value := by
  have hnone := get_eq_none_of_isObject h
  refine .intro schema value ⟨htype, fun hobj ↦ ?_, fun name property v type _ hv ↦ ?_,
    fun _ name v hv ↦ ?_⟩ fun name property v _ hv ↦ ?_
  · rw [h] at hobj
    cases hobj
  all_goals
    rw [hnone] at hv
    cases hv

/-- **The outline is all that is read.** -/
theorem Admits.of_sameOutline (h : Admits schema payload) (hsame : SameOutline schema schema') :
    Admits schema' payload where
  root name hname := h.root name ((hsame.root name).2 hname)
  required hobj field hfield := h.required hobj field ((hsame.required field).2 hfield)
  properties name property value type hp hv ht := by
    obtain ⟨property', hp', htype⟩ := (hsame.properties name type).2
      ⟨property, hp, schemaType_eq_some_iff.2 ht⟩
    exact h.properties name property' value type hp' hv (schemaType_eq_some_iff.1 htype)
  closed hclosed name value hv := by
    obtain ⟨property, hp⟩ := h.closed (hsame.closed.2 hclosed) name value hv
    obtain ⟨property', hp', -⟩ := (hsame.properties name _).1 ⟨property, hp, rfl⟩
    exact ⟨property', hp'⟩

end Nested

namespace SchemaRegistry

/-- **Validation is one level deep.**  If `validate` accepts a payload, every declared property that
is there is of the type its own schema names, and so is accepted by it if it is not an object.
Nothing else of that schema is read: every registered schema with the same outline accepts the
payload too. -/
theorem validate_one_level (calls : List Registration) (order : HashOrders) (t : String)
    (v : Version)
    (schema payload : Value) (hschema : (registerAll calls).schemaOf t v = some schema)
    (hvalid : (registerAll calls).validate order t v payload = .ok ()) :
    (∀ name property value, Declares schema name property → payload.get name = some value →
      (∀ type, NamesType property type → OfType type value) ∧
        (value.isObject = false → AdmitsNested property value)) ∧
    ∀ calls' order' t' v' schema', (registerAll calls').schemaOf t' v' = some schema' →
      SameOutline schema schema' → (registerAll calls').validate order' t' v' payload = .ok () := by
  have hadmits := (validate_registered_iff hschema order payload).1 hvalid
  refine ⟨fun name property value hp hv ↦ ?_, fun calls' order' t' v' schema' hschema' hsame ↦ ?_⟩
  · have htype := hadmits.properties name property value
    exact ⟨fun type ht ↦ htype type hp hv ht,
      fun hobj ↦ .of_not_isObject hobj fun type ht ↦ htype type hp hv ht⟩
  · exact (validate_registered_iff hschema' order' payload).2 (hadmits.of_sameOutline hsame)

/-- An address, which is an object with a zip code. -/
def addressSchema : Value :=
  .ofEntries [("required", .ofElems [.string "zip"]), ("type", .string "object")] (by decide)

/-- A user has an address. -/
def userSchema : Value :=
  .ofEntries [("properties", .ofEntries [("address", addressSchema)] (List.pairwise_singleton _ _)),
    ("type", .string "object")] (by decide)

/-- A user without a zip code. -/
def userWithoutZip : Value :=
  .ofEntries [("address", .emptyObject)] (List.pairwise_singleton _ _)

/-- The schema of users is registered. -/
def userRegistered : List Registration := [⟨.inserted, "user.created", 1, userSchema⟩]

theorem schemaOf_userRegistered :
    (registerAll userRegistered).schemaOf "user.created" 1 = some userSchema := by decide +kernel

theorem validate_userWithoutZip :
    (registerAll userRegistered).validate .inserted "user.created" 1 userWithoutZip = .ok () := by
  decide +kernel

theorem declares_userSchema : Declares userSchema "address" addressSchema :=
  get_objectProperties_iff.1 (by decide +kernel)

/-- The user is accepted, and so the address is an object. -/
theorem userWithoutZip_one_level :
    (registerAll userRegistered).schemaOf "user.created" 1 = some userSchema ∧
      (registerAll userRegistered).validate .inserted "user.created" 1 userWithoutZip = .ok () ∧
      Declares userSchema "address" addressSchema ∧
      userWithoutZip.get "address" = some .emptyObject ∧ OfType "object" .emptyObject := by
  have haddress : userWithoutZip.get "address" = some .emptyObject := by decide +kernel
  have hlevel := (validate_one_level userRegistered .inserted "user.created" 1 userSchema
    userWithoutZip schemaOf_userRegistered validate_userWithoutZip).1 "address" addressSchema
    .emptyObject declares_userSchema haddress
  exact ⟨schemaOf_userRegistered, validate_userWithoutZip, declares_userSchema, haddress,
    hlevel.1 "object" (schemaType_eq_some_iff.1 (by decide +kernel))⟩

/-- **The zip code is required and not missed.** -/
theorem userWithoutZip_not_admitsNested : ¬∀ (calls : List Registration) (order : HashOrders)
    (t : String) (v : Version) (schema payload : Value),
    (registerAll calls).schemaOf t v = some schema → payload.isObject = true →
    (registerAll calls).validate order t v payload = .ok () →
    ∀ name property value, Declares schema name property → payload.get name = some value →
      AdmitsNested property value := by
  intro h
  obtain ⟨-, -, hadmits, -⟩ := h userRegistered .inserted "user.created" 1 userSchema userWithoutZip
    schemaOf_userRegistered rfl validate_userWithoutZip "address" addressSchema .emptyObject
    declares_userSchema (by decide +kernel)
  have hzip : Requires addressSchema "zip" := mem_requiredFields_iff.1 (by decide +kernel)
  have hsome := hadmits.required rfl "zip" hzip
  exact absurd hsome (by decide +kernel)

end SchemaRegistry

end PhenoEvents
