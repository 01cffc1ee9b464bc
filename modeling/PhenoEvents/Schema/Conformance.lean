import PhenoEvents.Library.Checks
import PhenoEvents.Schema.Registry

/-!
# What the schema checks decide

The two algorithms of the registry, stated without loops, orders or messages.

* `Additive previous next` is what `enforce_additive_policy` accepts: no property of `previous` is
  removed or changed, and nothing new is required.  It is a preorder, which is why comparing with
  one neighbour is enough along a chain of versions.
* `Conforms schema payload` is what `validate_against_schema` accepts.  It falls into a condition on
  the root and, for an object, the three conditions of `MembersConform`.

Neither depends on a `HashOrder`: the order only chooses which violation is reported.

`Additive` and `Conforms` still use the readers of the registry, such as `object_properties`.  What
a schema means without them is in `Schema.Declared`, where the two are shown to be the same.
-/

set_option autoImplicit false

namespace PhenoEvents

open Except

/-! ## The policy

A property is kept if the next schema declares it with an equal value, and nothing less: a change
that would only make it more permissive is a change. -/

/-- `next` keeps every property of `previous` and requires nothing new. -/
structure Additive (previous next : Value) : Prop where
  /-- Every property is still declared, with an equal definition. -/
  properties : ∀ name property, (objectProperties previous).get name = some property →
    (objectProperties next).get name = some property
  /-- Every required field was required before. -/
  required : ∀ field ∈ requiredFields next, field ∈ requiredFields previous

theorem Additive.refl (schema : Value) : Additive schema schema :=
  ⟨fun _ _ h ↦ h, fun _ h ↦ h⟩

theorem Additive.trans {a b c : Value} (h : Additive a b) (h' : Additive b c) : Additive a c :=
  ⟨fun name p hp ↦ h'.properties name p (h.properties name p hp),
    fun field hf ↦ h.required field (h'.required field hf)⟩

theorem enforceProperties_eq_ok_iff {order : HashOrder (String × Value)} {previous next : Value} :
    enforceProperties order previous next = .ok () ↔
      ∀ name property, (objectProperties previous).get name = some property →
        (objectProperties next).get name = some property := by
  rw [enforceProperties, forM_eq_ok_iff]
  simp only [HashOrder.mem_list, Prod.forall, Map.mem_entries]
  refine forall₃_congr fun name property hp ↦ ?_
  cases hn : (objectProperties next).get name with
  | none => simp
  | some nextProperty =>
    by_cases hne : nextProperty = property
    · simp [hne]
    · simp [hne]

theorem enforceRequired_eq_ok_iff {order : HashOrder String} {previous next : Value} :
    enforceRequired order previous next = .ok () ↔
      ∀ field ∈ requiredFields next, field ∈ requiredFields previous := by
  rw [enforceRequired]
  split
  · rename_i field hf
    have hmem := order.mem_list.1 (List.mem_of_find?_eq_some hf)
    have hnew : field ∉ requiredFields previous := by simpa using List.find?_some hf
    exact ⟨fun h ↦ by simp at h, fun h ↦ absurd (h field hmem) hnew⟩
  · rename_i hf
    simpa [HashOrder.mem_list] using List.find?_eq_none.1 hf

/-- **The policy accepts exactly the additive changes.**  The order in which the two loops visit the
entries does not matter to whether they find anything. -/
theorem enforceAdditivePolicy_eq_ok_iff {order : HashOrders} {previous next : Value} :
    enforceAdditivePolicy order previous next = .ok () ↔ Additive previous next := by
  rw [enforceAdditivePolicy, check_bind_eq_ok_iff, enforceProperties_eq_ok_iff,
    enforceRequired_eq_ok_iff]
  exact ⟨fun ⟨hp, hr⟩ ↦ ⟨hp, hr⟩, fun h ↦ ⟨h.properties, h.required⟩⟩

/-! ## The checks on payloads

Each loop passes if each of its checks does, and so the order of the entries does not matter here.
-/

/-- The value has the type of the given name, which is one `validate_type` knows. -/
def HasType (expected : String) (value : Value) : Prop := typeMatches expected value = some true

instance (expected : String) (value : Value) : Decidable (HasType expected value) :=
  inferInstanceAs (Decidable (_ = _))

theorem validateType_eq_ok_iff {expected path : String} {value : Value} :
    validateType expected value path = .ok () ↔ HasType expected value := by
  rw [validateType, HasType]
  split <;> simp_all

/-- The check is made only when the keyword is a string. -/
theorem validateSchemaType_eq_ok_iff {schema value : Value} {path : String} :
    validateSchemaType schema value path = .ok () ↔
      ∀ expected, schemaType schema = some expected → HasType expected value := by
  rw [validateSchemaType]
  cases schemaType schema with
  | none => simp
  | some expected => simp [validateType_eq_ok_iff]

/-- What a schema asks of the members of an object. -/
structure MembersConform (schema : Value) (payload : Map) : Prop where
  /-- Every required field is there. -/
  required : ∀ field ∈ requiredFields schema, field ∈ payload.keys.list
  /-- A declared property that is there has the type its own schema names. -/
  properties : ∀ name property value expected, (objectProperties schema).get name = some property →
    payload.get name = some value → schemaType property = some expected → HasType expected value
  /-- A closed schema declares every field. -/
  closed : schema.get "additionalProperties" = some (.bool false) →
    ∀ field ∈ payload.keys.list, field ∈ (objectProperties schema).keys.list

/-- What a schema asks of a payload. -/
structure Conforms (schema payload : Value) : Prop where
  /-- The payload has the root type. -/
  root : ∀ expected, schemaType schema = some expected → HasType expected payload
  /-- If it is an object, its members conform. -/
  members : ∀ obj, payload.asObject = some obj → MembersConform schema obj

theorem validateRequired_eq_ok_iff {order : HashOrder String} {schema : Value} {payload : Map} :
    validateRequired order schema payload = .ok () ↔
      ∀ field ∈ requiredFields schema, field ∈ payload.keys.list := by
  rw [validateRequired, forM_eq_ok_iff]
  simp only [HashOrder.mem_list]
  refine forall₂_congr fun field _ ↦ ?_
  by_cases h : field ∈ payload.keys.list
  · simp [Map.containsKey, h]
  · simp [Map.containsKey, h]

theorem validateProperties_eq_ok_iff {order : HashOrder (String × Value)} {schema : Value}
    {payload : Map} :
    validateProperties order schema payload = .ok () ↔
      ∀ name property value expected, (objectProperties schema).get name = some property →
        payload.get name = some value → schemaType property = some expected →
          HasType expected value := by
  rw [validateProperties, forM_eq_ok_iff]
  simp only [HashOrder.mem_list, Prod.forall, Map.mem_entries]
  constructor
  · intro h name property value expected hp hv
    have hname := h name property hp
    rw [hv, validateSchemaType_eq_ok_iff] at hname
    exact hname expected
  · intro h name property hp
    cases hv : payload.get name with
    | none => rfl
    | some value =>
      exact validateSchemaType_eq_ok_iff.2 fun expected ↦ h name property value expected hp hv

theorem additionalProperties_closed_iff {schema : Value} :
    ((schema.get "additionalProperties").bind Value.asBool).getD true = false ↔
      schema.get "additionalProperties" = some (.bool false) := by
  cases schema.get "additionalProperties" with
  | none => simp
  | some v => cases v <;> simp [Value.asBool]

theorem validateAdditionalProperties_eq_ok_iff {schema : Value} {payload : Map} :
    validateAdditionalProperties schema payload = .ok () ↔
      (schema.get "additionalProperties" = some (.bool false) →
        ∀ field ∈ payload.keys.list, field ∈ (objectProperties schema).keys.list) := by
  rw [validateAdditionalProperties]
  split
  · rename_i h
    refine ⟨fun _ hc ↦ ?_, fun _ ↦ rfl⟩
    rw [additionalProperties_closed_iff.2 hc] at h
    cases h
  · rename_i h
    rw [Bool.not_eq_true, additionalProperties_closed_iff] at h
    rw [forM_eq_ok_iff, forall_prop_of_true h]
    refine forall₂_congr fun field _ ↦ ?_
    by_cases hf : field ∈ (objectProperties schema).keys.list
    · simp [Map.containsKey, hf]
    · simp [Map.containsKey, hf]

/-- **The checker accepts exactly the payloads that conform.**  Again the order does not matter, as
all entries have to pass. -/
theorem validateAgainstSchema_eq_ok_iff {order : HashOrders} {schema payload : Value} :
    validateAgainstSchema order schema payload = .ok () ↔ Conforms schema payload := by
  rw [validateAgainstSchema, check_bind_eq_ok_iff]
  have hroot : validateSchemaType schema payload "$" = .ok () ↔
      ∀ expected, schemaType schema = some expected → HasType expected payload :=
    validateSchemaType_eq_ok_iff
  cases hobj : payload.asObject with
  | none =>
    refine ⟨fun h ↦ ⟨hroot.1 h.1, fun obj ho ↦ ?_⟩, fun h ↦ ⟨hroot.2 h.root, rfl⟩⟩
    rw [hobj] at ho
    cases ho
  | some obj =>
    simp only [check_bind_eq_ok_iff, validateRequired_eq_ok_iff, validateProperties_eq_ok_iff,
      validateAdditionalProperties_eq_ok_iff]
    constructor
    · rintro ⟨ht, hr, hp, hc⟩
      refine ⟨hroot.1 ht, fun obj' ho ↦ ?_⟩
      rw [hobj, Option.some_inj] at ho
      exact ho ▸ ⟨hr, hp, hc⟩
    · intro h
      have hm := h.members obj hobj
      exact ⟨hroot.2 h.root, hm.required, hm.properties, hm.closed⟩

end PhenoEvents
