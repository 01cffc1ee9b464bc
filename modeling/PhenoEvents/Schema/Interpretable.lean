import Mathlib.Data.Finset.Sort
import Mathlib.Data.String.Basic
import PhenoEvents.Schema.Declared

/-!
# Schemas the validator cannot interpret

`validate_type` knows seven names.  Any other is an error of the schema, and `validate` reports it
as one of the payload.  `register` does not look at the names, so such a schema can be registered,
and `never_unsupported_iff` says of which schemas `validate` never complains.

The properties are looked at only if the payload is an object and of the type the root names, so an
unknown name in a property is harmless below a root that names anything but `object`.

## How it goes

* A schema that is `Interpretable` is never at fault: every call of `validate_type` is with one of
  the seven names, and no other check has a message that begins in that way.
* For one that is not, a payload has to be built that gets to the unknown name.  If it is the name
  of the root, any payload does.  If it is that of a property, the payload is an object that has the
  required fields and this property, each with a value of the type its own schema names
  (`sampleOf`).
-/

set_option autoImplicit false

namespace PhenoEvents

open Except

/-- The names `validate_type` knows. -/
def typeNames : List String :=
  ["array", "boolean", "integer", "null", "number", "object", "string"]

/-- The message of `validate_type` about any other name. -/
def unsupportedType (name path : String) : String :=
  "unsupported schema type '" ++ name ++ "' at " ++ path

/-- Every type name the validator can get to is one it knows.  Which it can get to depends on the
root: below a root that objects cannot pass no property is looked at.  Where the keyword `type` is
not a string it names no type, and then there is nothing to know. -/
structure Interpretable (schema : Value) : Prop where
  root : ∀ name, NamesType schema name → name ∈ typeNames
  properties : (∀ name, NamesType schema name → name = "object") →
    ∀ name property type, Declares schema name property → NamesType property type → type ∈ typeNames

section Messages

variable {schema value : Value} {expected name path path' : String}

theorem typeMatches_eq_none_iff : typeMatches expected value = none ↔ expected ∉ typeNames := by
  constructor
  · intro h hmem
    simp only [typeNames, List.mem_cons, List.not_mem_nil, or_false] at hmem
    rcases hmem with rfl | rfl | rfl | rfl | rfl | rfl | rfl <;> cases h
  · intro h
    unfold typeMatches
    split
    case h_8 => rfl
    all_goals exact absurd (by decide) h

theorem head_unsupportedType : (unsupportedType name path).toList.head? = some 'u' := by
  show ("unsupported schema type '" ++ name ++ "' at " ++ path).toList.head? = some 'u'
  rw [String.toList_append, String.toList_append, String.toList_append]
  rfl

/-- No other message begins like this one.  The others begin with `e`, `m` or `a`. -/
theorem ne_unsupportedType {message : String} (h : message.toList.head? ≠ some 'u') :
    message ≠ unsupportedType name path :=
  fun heq ↦ h (heq ▸ head_unsupportedType)

theorem validateType_of_not_mem (h : expected ∉ typeNames) :
    validateType expected value path = .error (unsupportedType expected path) := by
  rw [validateType, typeMatches_eq_none_iff.2 h]
  rfl

theorem not_mem_of_validateType
    (h : validateType expected value path = .error (unsupportedType name path')) :
    expected ∉ typeNames := by
  rw [validateType] at h
  split at h
  · rename_i hnone
    exact typeMatches_eq_none_iff.1 hnone
  · cases h
  · exact absurd (Except.error.inj h) (ne_unsupportedType (by simp))

theorem of_validateSchemaType
    (h : validateSchemaType schema value path = .error (unsupportedType name path')) :
    ∃ type, NamesType schema type ∧ type ∉ typeNames := by
  rw [validateSchemaType] at h
  cases htype : schemaType schema with
  | none =>
    rw [htype] at h
    cases h
  | some type =>
    rw [htype] at h
    exact ⟨type, schemaType_eq_some_iff.1 htype, not_mem_of_validateType h⟩

theorem validateRequired_ne {order : HashOrder String} {payload : Map} :
    validateRequired order schema payload ≠ .error (unsupportedType name path) := by
  intro h
  obtain ⟨field, -, hfield⟩ := exists_of_forM_eq_error h
  split at hfield
  · exact absurd (Except.error.inj hfield) (ne_unsupportedType (by simp))
  · cases hfield

theorem validateAdditionalProperties_ne {payload : Map} :
    validateAdditionalProperties schema payload ≠ .error (unsupportedType name path) := by
  intro h
  rw [validateAdditionalProperties] at h
  split at h
  · cases h
  · obtain ⟨field, -, hfield⟩ := exists_of_forM_eq_error h
    split at hfield
    · exact absurd (Except.error.inj hfield) (ne_unsupportedType (by simp))
    · cases hfield

theorem of_validateProperties {order : HashOrder (String × Value)} {payload : Map}
    (h : validateProperties order schema payload = .error (unsupportedType name path)) :
    ∃ name property type, Declares schema name property ∧ NamesType property type ∧
      type ∉ typeNames := by
  obtain ⟨⟨k, property⟩, hmem, herror⟩ := exists_of_forM_eq_error h
  rw [HashOrder.mem_list, Map.mem_entries, get_objectProperties_iff] at hmem
  split at herror
  · cases herror
  · obtain ⟨type, htype, hunknown⟩ := of_validateSchemaType herror
    exact ⟨k, property, type, hmem, htype, hunknown⟩

end Messages

/-- **An interpretable schema is never at fault.**  Below a root that names anything but `object`,
an object does not pass; and of a payload that is no object nothing but the root is looked at. -/
theorem Interpretable.validateAgainstSchema_ne {schema : Value} (h : Interpretable schema)
    (order : HashOrders) (payload : Value) (name path : String) :
    validateAgainstSchema order schema payload ≠ .error (unsupportedType name path) := by
  intro herror
  rw [validateAgainstSchema, check_bind_eq_error_iff] at herror
  rcases herror with hroot | ⟨hroot, herror⟩
  · obtain ⟨type, htype, hunknown⟩ := of_validateSchemaType hroot
    exact hunknown (h.root type htype)
  cases payload with
  | object keys vals =>
    simp only [Value.asObject, check_bind_eq_error_iff] at herror
    rcases herror with herror | ⟨-, herror | ⟨-, herror⟩⟩
    · exact validateRequired_ne herror
    · obtain ⟨k, property, type, hdeclared, htype, hunknown⟩ := of_validateProperties herror
      refine hunknown (h.properties (fun root hname ↦ ?_) k property type hdeclared htype)
      have hobject := validateSchemaType_eq_ok_iff.1 hroot root (schemaType_eq_some_iff.2 hname)
      cases hasType_iff_ofType.1 hobject
      rfl
    · exact validateAdditionalProperties_ne herror
  | _ => cases herror

/-! ## A payload that gets there

The properties are looked at in the order of a hash collection, so another one with an unknown name
may be found first.  Then the complaint is about that one. -/

/-- Some value of the type. -/
def sample (name : String) : Value :=
  match name with
  | "array" => .ofElems []
  | "boolean" => .bool true
  | "integer" => .number (.posInt 0)
  | "number" => .number (.posInt 0)
  | "object" => .emptyObject
  | "string" => .string ""
  | _ => .null

theorem hasType_sample {name : String} (h : name ∈ typeNames) : HasType name (sample name) := by
  simp only [typeNames, List.mem_cons, List.not_mem_nil, or_false] at h
  rcases h with rfl | rfl | rfl | rfl | rfl | rfl | rfl <;> rfl

/-- The map with these keys, in order and each once, as a `serde_json` map has them. -/
def Map.ofKeys (keys : List String) (value : String → Value) : Map :=
  ⟨⟨keys.toFinset.sort, (Finset.sortedLT_sort _).pairwise⟩, fun k ↦ value k.1⟩

theorem Map.mem_keys_ofKeys {keys : List String} {value : String → Value} {k : String} :
    k ∈ (ofKeys keys value).keys.list ↔ k ∈ keys := by
  show k ∈ keys.toFinset.sort ↔ k ∈ keys
  rw [Finset.mem_sort, List.mem_toFinset]

theorem Map.get_ofKeys {keys : List String} {value : String → Value} {k : String} {v : Value}
    (h : (ofKeys keys value).get k = some v) : v = value k := by
  rw [Map.get] at h
  split at h
  · exact (Option.some_inj.1 h).symm
  · cases h

/-- The value at a declared property: one of the type its schema names.  Where that type is not
known there is no such value, and anything will do. -/
def sampleOf (schema : Value) (k : String) : Value :=
  (((objectProperties schema).get k).bind schemaType).elim .null sample

/-- The sample of a property only fails if its type is not known. -/
theorem exists_unsupportedType_of_sampleOf {schema property : Value} {k message : String}
    (hproperty : (objectProperties schema).get k = some property)
    (herror : validateSchemaType property (sampleOf schema k) k = .error message) :
    ∃ name path, message = unsupportedType name path := by
  rw [validateSchemaType] at herror
  cases hname : schemaType property with
  | none =>
    rw [hname] at herror
    cases herror
  | some name =>
    rw [hname] at herror
    by_cases hknown : name ∈ typeNames
    · have hsample : sampleOf schema k = sample name := by
        rw [sampleOf, hproperty, Option.bind_some, hname]
        rfl
      have hok : validateType name (sampleOf schema k) k = .ok () :=
        validateType_eq_ok_iff.2 (hsample ▸ hasType_sample hknown)
      cases hok.symm.trans herror
    · exact ⟨name, k, (Except.error.inj ((validateType_of_not_mem hknown).symm.trans herror)).symm⟩

/-- **An object gets to a property whose type the validator does not know**, with the required
fields and with that property. -/
theorem exists_unsupported_of_property {schema : Value} {k type : String} {property : Value}
    (hroot : ∀ name, NamesType schema name → name = "object")
    (hdeclared : Declares schema k property)
    (htype : NamesType property type) (hunknown : type ∉ typeNames) (order : HashOrders) :
    ∃ payload name path,
      validateAgainstSchema order schema payload = .error (unsupportedType name path) := by
  set payload := Map.ofKeys (k :: requiredFields schema) (sampleOf schema) with hpayload
  have hfirst : validateSchemaType schema (.object payload.keys payload.vals) "$" = .ok () := by
    refine validateSchemaType_eq_ok_iff.2 fun name hname ↦ ?_
    rw [hroot name (schemaType_eq_some_iff.1 hname)]
    rfl
  have hrequired : validateRequired order.required schema payload = .ok () :=
    validateRequired_eq_ok_iff.2 fun field hfield ↦
      Map.mem_keys_ofKeys.2 (List.mem_cons_of_mem k hfield)
  -- Some property fails, and those of a type that is known do not.
  obtain ⟨message, hmessage⟩ : ∃ message,
      validateProperties order.properties schema payload = .error message := by
    cases hcheck : validateProperties order.properties schema payload with
    | error message => exact ⟨message, rfl⟩
    | ok u =>
      obtain ⟨value, hvalue⟩ := Option.isSome_iff_exists.1
        (Map.isSome_get.2 (Map.mem_keys_ofKeys.2 (List.mem_cons_self (l := requiredFields schema))))
      have hhas := validateProperties_eq_ok_iff.1 hcheck k property value type
        (get_objectProperties_iff.2 hdeclared) hvalue (schemaType_eq_some_iff.2 htype)
      rw [HasType, typeMatches_eq_none_iff.2 hunknown] at hhas
      cases hhas
  obtain ⟨name, path, rfl⟩ : ∃ name path, message = unsupportedType name path := by
    obtain ⟨⟨k', property'⟩, hmem, herror⟩ := exists_of_forM_eq_error hmessage
    rw [HashOrder.mem_list, Map.mem_entries] at hmem
    dsimp only at herror
    split at herror
    · cases herror
    · rename_i value hvalue
      obtain rfl := Map.get_ofKeys hvalue
      exact exists_unsupportedType_of_sampleOf hmem herror
  refine ⟨.object payload.keys payload.vals, name, path, ?_⟩
  rw [validateAgainstSchema, check_bind_eq_error_iff]
  refine Or.inr ⟨hfirst, ?_⟩
  show (validateRequired order.required schema payload >>= fun _ ↦ _) = _
  rw [check_bind_eq_error_iff, check_bind_eq_error_iff]
  exact Or.inr ⟨hrequired, Or.inl hmessage⟩

namespace SchemaRegistry

/-- **`validate` never complains about the schema exactly if the schema is interpretable**: it names
no root type or one of the seven, and below a root that objects can pass, so does each property. The
schema is the one that has just been registered, over whatever there was before. -/
theorem never_unsupported_iff {r r' : SchemaRegistry} {order : HashOrders} {t : String}
    {v : Version}
    {schema : Value} (hregister : r.register order t v schema = .ok r') (order' : HashOrders) :
    (∀ payload name path,
      r'.validate order' t v payload ≠ .error (.payloadInvalid (unsupportedType name path))) ↔
        Interpretable schema := by
  obtain ⟨hv, -, -, rfl⟩ := register_eq_ok_iff.1 hregister
  have hschema : (r.insert t v schema).schemaOf t v = some schema := by
    rw [schemaOf_insert, if_pos ⟨rfl, rfl⟩]
  have hresult : ∀ payload name path, (r.insert t v schema).validate order' t v payload =
      .error (.payloadInvalid (unsupportedType name path)) ↔
        validateAgainstSchema order' schema payload = .error (unsupportedType name path) := by
    intro payload name path
    rw [validate, if_neg hv, hschema]
    show (validateAgainstSchema order' schema payload).mapError
      ValidationError.payloadInvalid = _ ↔ _
    cases validateAgainstSchema order' schema payload with
    | error message => simp [Except.mapError]
    | ok u => simp [Except.mapError]
  simp only [Ne, hresult]
  constructor
  · intro h
    refine ⟨fun name hname ↦ ?_, fun hroot k property type hdeclared htype ↦ ?_⟩
    · by_contra hunknown
      refine h .null name "$" ?_
      rw [validateAgainstSchema, check_bind_eq_error_iff, validateSchemaType,
        schemaType_eq_some_iff.2 hname]
      exact Or.inl (validateType_of_not_mem hunknown)
    · by_contra hunknown
      obtain ⟨payload, name, path, herror⟩ :=
        exists_unsupported_of_property hroot hdeclared htype hunknown order'
      exact h payload name path herror
  · exact fun h payload name path ↦ h.validateAgainstSchema_ne order' payload name path

/-- `{"type": "strng"}`. -/
def mistyped : Value := .ofEntries [("type", .string "strng")] (List.pairwise_singleton _ _)

theorem register_mistyped : new.register .inserted "user.created" 1 mistyped =
    .ok (new.insert "user.created" 1 mistyped) := rfl

/-- The validator complains about it sooner or later. -/
theorem mistyped_unsupported : ∃ payload name path,
    (new.insert "user.created" 1 mistyped).validate .inserted "user.created" 1 payload =
      .error (.payloadInvalid (unsupportedType name path)) := by
  by_contra hnever
  push Not at hnever
  have hroot := ((never_unsupported_iff register_mistyped .inserted).1 hnever).root "strng"
    (schemaType_eq_some_iff.1 (by decide +kernel))
  exact absurd hroot (by decide)

/-- **One mistyped keyword is registered**, and every payload is rejected for it. -/
theorem mistyped_registered : ¬∀ (r r' : SchemaRegistry) (order : HashOrders) (t : String)
    (v : Version) (schema : Value), r.register order t v schema = .ok r' →
    ∀ order' payload name path, r'.validate order' t v payload ≠
      .error (.payloadInvalid (unsupportedType name path)) := fun h ↦
  h new _ .inserted "user.created" 1 mistyped register_mistyped .inserted .emptyObject "strng" "$"
    (by decide +kernel)

end SchemaRegistry

end PhenoEvents
