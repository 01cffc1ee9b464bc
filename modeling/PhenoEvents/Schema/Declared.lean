import PhenoEvents.Schema.Evolution

/-!
# What a schema declares

The meaning of a schema, read off the JSON text without any of the functions of the registry: which
payloads it `Admits`.  `conforms_iff_admits` says that the checks decide it, and `validate_decides`
what `validate` answers after any sequence of calls to `register`.

The schema in force for a type and a version is that of the last call that was accepted for them
(`inForce`); calls that were rejected, and calls for other keys, leave no trace.

## What is here

* `OfType`, `NamesType`, `Requires`, `Declares` and `Closed`: what a value is, and what the keywords
  of a schema say, as relations between JSON values.
* `Admits`: the payload is what the schema declares.  The keywords about members concern objects
  only.
* `inForce`, a function of the list of calls.
* `validate_decides`, with the error in each of the cases in which the payload is not accepted.
* `AdmitsNew` and `validate_later_iff_admitsNew`: what a later version can object to, in the same
  terms.
-/

set_option autoImplicit false

namespace PhenoEvents

/-! ## The meaning of a schema

The definitions are about values and their members, and use nothing that the registry has for
reading them. -/

/-- The value is of the type of that name.  An integer is a number that `serde_json` keeps as one,
so that `1.0` is a number and no integer. -/
inductive OfType : String → Value → Prop
  | array (n : ℕ) (elems : Fin n → Value) : OfType "array" (.array n elems)
  | boolean (b : Bool) : OfType "boolean" (.bool b)
  | natural (n : UInt64) : OfType "integer" (.number (.posInt n))
  | negative (n : Int64) (neg : n < 0) : OfType "integer" (.number (.negInt n neg))
  | null : OfType "null" .null
  | number (n : Number) : OfType "number" (.number n)
  | object (keys : Keys) (vals : {k // k ∈ keys.list} → Value) : OfType "object" (.object keys vals)
  | string (s : String) : OfType "string" (.string s)

/-- The keyword `type` is this string. -/
def NamesType (schema : Value) (name : String) : Prop := schema.get "type" = some (.string name)

/-- The field is one of the strings of the keyword `required`. -/
def Requires (schema : Value) (field : String) : Prop :=
  ∃ n elems i, schema.get "required" = some (.array n elems) ∧ elems i = .string field

/-- The keyword `properties` has this entry. -/
def Declares (schema : Value) (name : String) (property : Value) : Prop :=
  ∃ properties, schema.get "properties" = some properties ∧ properties.get name = some property

/-- The keyword `additionalProperties` is `false`.  A schema in its place, or any other value, does
not close anything. -/
def Closed (schema : Value) : Prop := schema.get "additionalProperties" = some (.bool false)

/-- The payload is what the schema declares: of the named type and, if it is an object, with the
required fields, with members of the declared types, and with no others if the schema is closed. -/
structure Admits (schema payload : Value) : Prop where
  /-- It is of the type the schema names. -/
  root : ∀ name, NamesType schema name → OfType name payload
  /-- An object has the required fields. -/
  required : payload.isObject = true → ∀ field, Requires schema field → (payload.get field).isSome
  /-- A declared property that is there is of the type its own schema names. -/
  properties : ∀ name property value type, Declares schema name property →
    payload.get name = some value → NamesType property type → OfType type value
  /-- If the schema is closed, every field is declared. -/
  closed : Closed schema → ∀ name value, payload.get name = some value →
    ∃ property, Declares schema name property

/-! ## The checks decide it

There is one lemma for each reader of the registry, and `conforms_iff_admits` puts them together. -/

section Readers

variable {schema value : Value} {name : String}

theorem hasType_iff_ofType : HasType name value ↔ OfType name value := by
  constructor
  · intro h
    unfold HasType typeMatches at h
    split at h
    case h_3 =>
      cases value with
      | number n =>
        cases n with
        | posInt n => exact .natural n
        | negInt n neg => exact .negative n neg
        | float x => cases h
      | _ => cases h
    case h_8 => cases h
    all_goals
      cases value <;> first
        | constructor
        | cases h
  · rintro (_ | _ | n | _ | _ | _ | _ | _)
    case natural =>
      have hu : (Value.number (.posInt n)).asU64.isSome = true := rfl
      rw [HasType, typeMatches, hu, Bool.or_true]
    all_goals rfl

theorem schemaType_eq_some_iff : schemaType schema = some name ↔ NamesType schema name := by
  rw [schemaType, NamesType]
  cases schema.get "type" with
  | none => simp
  | some v => cases v <;> simp [Value.asStr]

theorem mem_requiredFields_iff : name ∈ requiredFields schema ↔ Requires schema name := by
  rw [requiredFields, List.mem_dedup, Requires]
  cases schema.get "required" with
  | none => simp
  | some v =>
    cases v with
    | array n elems =>
      simp only [Option.bind_some, Value.asArray, Option.getD_some, List.mem_filterMap,
        List.mem_ofFn, Option.some_inj, Value.array.injEq]
      constructor
      · rintro ⟨_, ⟨i, rfl⟩, hi⟩
        refine ⟨n, elems, i, ⟨rfl, HEq.rfl⟩, ?_⟩
        cases he : elems i with
        | string s =>
          rw [he, Value.asStr, Option.some_inj] at hi
          exact congrArg _ hi
        | _ => simp [he, Value.asStr] at hi
      · rintro ⟨n', elems', i, ⟨rfl, helems⟩, hi⟩
        obtain rfl := eq_of_heq helems
        exact ⟨elems i, ⟨i, rfl⟩, by rw [hi]; rfl⟩
    | _ => simp [Value.asArray]

theorem get_objectProperties_iff {property : Value} :
    (objectProperties schema).get name = some property ↔ Declares schema name property := by
  rw [objectProperties, Declares]
  cases schema.get "properties" with
  | none => simp [Map.get, Map.empty]
  | some v =>
    cases hobj : v.asObject with
    | none => simp [hobj, Value.get, Map.get, Map.empty]
    | some properties => simp [hobj, Value.get]

theorem get_of_asObject {obj : Map} (h : value.asObject = some obj) (k : String) :
    value.get k = obj.get k := by
  rw [Value.get, h, Option.bind_some]

end Readers

/-- **The checks decide what the schema declares.**  The left side is made of the readers of the
registry, and the right side mentions none of them.  So the right side can be read without knowing
the code. -/
theorem conforms_iff_admits {schema payload : Value} :
    Conforms schema payload ↔ Admits schema payload := by
  constructor
  · intro h
    refine ⟨fun name hname ↦ ?_, fun hobj field hfield ↦ ?_,
      fun name property value type hp hv ht ↦ ?_,
      fun hclosed name value hv ↦ ?_⟩
    · exact hasType_iff_ofType.1 (h.root name (schemaType_eq_some_iff.2 hname))
    · obtain ⟨obj, ho⟩ := Option.isSome_iff_exists.1 hobj
      rw [get_of_asObject ho, Map.isSome_get]
      exact (h.members obj ho).required field (mem_requiredFields_iff.2 hfield)
    · obtain ⟨obj, ho, hval⟩ := Option.bind_eq_some_iff.1 hv
      exact hasType_iff_ofType.1 ((h.members obj ho).properties name property value type
        (get_objectProperties_iff.2 hp) hval (schemaType_eq_some_iff.2 ht))
    · obtain ⟨obj, ho, hval⟩ := Option.bind_eq_some_iff.1 hv
      have hmem := (h.members obj ho).closed hclosed name (Map.mem_keys_of_get hval)
      obtain ⟨property, hp⟩ := Option.isSome_iff_exists.1 (Map.isSome_get.2 hmem)
      exact ⟨property, get_objectProperties_iff.1 hp⟩
  · intro h
    refine ⟨fun expected he ↦ ?_, fun obj ho ↦ ⟨fun field hfield ↦ ?_,
      fun name property value expected hp hv he ↦ ?_, fun hclosed field hfield ↦ ?_⟩⟩
    · exact hasType_iff_ofType.2 (h.root expected (schemaType_eq_some_iff.1 he))
    · have hobj : payload.isObject = true := Option.isSome_of_eq_some ho
      have hsome := h.required hobj field (mem_requiredFields_iff.1 hfield)
      rwa [get_of_asObject ho, Map.isSome_get] at hsome
    · refine hasType_iff_ofType.2 (h.properties name property value expected
        (get_objectProperties_iff.1 hp) ?_ (schemaType_eq_some_iff.1 he))
      rw [get_of_asObject ho, hv]
    · obtain ⟨value, hv⟩ := Option.isSome_iff_exists.1 (Map.isSome_get.2 hfield)
      obtain ⟨property, hp⟩ := h.closed hclosed field value (by rw [get_of_asObject ho, hv])
      exact Map.mem_keys_of_get (get_objectProperties_iff.2 hp)

namespace SchemaRegistry

/-! ## The schema in force

A registry is what the accepted calls have made of it, and of these the last one for a key counts.
-/

/-- The calls of a sequence that `register` accepts. -/
def acceptedCalls (r : SchemaRegistry) : List Registration → List Registration
  | [] => []
  | c :: calls =>
    match r.register c.order c.eventType c.version c.schema with
    | .ok r' => c :: r'.acceptedCalls calls
    | .error _ => r.acceptedCalls calls

/-- The schema of the last call that is accepted for a type and a version. -/
def inForce (calls : List Registration) (t : String) (v : Version) : Option Value :=
  ((new.acceptedCalls calls).reverse.find? fun c ↦ c.eventType = t ∧ c.version = v).map
    Registration.schema

theorem schemaOf_insert (r : SchemaRegistry) (t t' : String) (v v' : Version) (s : Value) :
    (r.insert t v s).schemaOf t' v' = if t = t' ∧ v = v' then some s else r.schemaOf t' v' := by
  by_cases ht : t = t'
  · subst ht
    rw [schemaOf_insert_self, Function.update_apply]
    simp [eq_comm]
  · rw [schemaOf_insert_of_ne r (Ne.symm ht), if_neg fun h ↦ ht h.1]

/-- The last accepted call for a key decides, and if there is none, the registry the calls were made
on. -/
theorem schemaOf_foldl (r : SchemaRegistry) (calls : List Registration) (t : String) (v : Version) :
    (calls.foldl apply r).schemaOf t v =
      (((r.acceptedCalls calls).reverse.find? fun c ↦ c.eventType = t ∧ c.version = v).map
        Registration.schema).or (r.schemaOf t v) := by
  induction calls generalizing r with
  | nil => rfl
  | cons c calls ih =>
    rw [List.foldl_cons, ih, acceptedCalls, apply]
    cases hr : r.register c.order c.eventType c.version c.schema with
    | error e => rfl
    | ok r' =>
      obtain ⟨-, -, -, rfl⟩ := register_eq_ok_iff.1 hr
      simp only [List.reverse_cons, List.find?_append, schemaOf_insert]
      cases ((r.insert c.eventType c.version c.schema).acceptedCalls calls).reverse.find?
          fun c ↦ decide (c.eventType = t ∧ c.version = v) with
      | some last => rfl
      | none => by_cases hkey : c.eventType = t ∧ c.version = v <;> simp [hkey]

/-- **The registry holds the schema of the last accepted call.**  Calls for another type or version,
and calls that were rejected, do not show.  An accepted call for the same key replaces the schema,
without being compared with it. -/
theorem schemaOf_registerAll (calls : List Registration) (t : String) (v : Version) :
    (registerAll calls).schemaOf t v = inForce calls t v := by
  rw [registerAll, schemaOf_foldl, schemaOf_new, Option.or_none, inForce]

theorem version_ne_zero_of_mem_acceptedCalls {r : SchemaRegistry} {calls : List Registration}
    {c : Registration} (h : c ∈ r.acceptedCalls calls) : c.version ≠ 0 := by
  induction calls generalizing r with
  | nil => cases h
  | cons c' calls ih =>
    rw [acceptedCalls] at h
    split at h
    · rename_i r' hr
      rcases List.mem_cons.1 h with rfl | h
      · exact (register_eq_ok_iff.1 hr).1
      · exact ih h
    · exact ih h

theorem version_ne_zero_of_inForce {calls : List Registration} {t : String}
    {v : Version} {s : Value} (h : inForce calls t v = some s) : v ≠ 0 := by
  obtain ⟨c, hc, -⟩ := Option.map_eq_some_iff.1 h
  have hkey : c.eventType = t ∧ c.version = v := by simpa using List.find?_some hc
  have hmem := List.mem_reverse.1 (List.mem_of_find?_eq_some hc)
  exact hkey.2 ▸ version_ne_zero_of_mem_acceptedCalls hmem

/-- A call that is rejected might as well not have been made. -/
theorem registerAll_of_rejected {before after : List Registration} {c : Registration}
    (hc : ¬(registerAll before).Accepts c) :
    registerAll (before ++ c :: after) = registerAll (before ++ after) := by
  have hsame := apply_of_not_accepts hc
  rw [registerAll] at hsame
  rw [registerAll, registerAll, List.foldl_append, List.foldl_append, List.foldl_cons, hsame]

/-- The verdict on a registered version is what its schema means. -/
theorem validate_registered_iff {calls : List Registration} {t : String} {v : Version} {s : Value}
    (hs : (registerAll calls).schemaOf t v = some s) (order : HashOrders) (payload : Value) :
    (registerAll calls).validate order t v payload = .ok () ↔ Admits s payload := by
  have hv : v ≠ 0 := version_ne_zero_of_inForce ((schemaOf_registerAll calls t v).symm.trans hs)
  rw [validate_eq_ok_iff, hs, ← conforms_iff_admits]
  simp [hv]

/-- **`validate` decides what the schema in force declares.**  Version 0 is invalid; a key for which
nothing was accepted is not found; otherwise the payload is accepted exactly if the schema of the
last accepted call admits it, and reported as invalid if not.  Rejected calls change no verdict. -/
theorem validate_decides (calls : List Registration) (order : HashOrders) (t : String) (v : Version)
    (payload : Value) :
    (v = 0 → (registerAll calls).validate order t v payload = .error .invalidVersion) ∧
    (v ≠ 0 → inForce calls t v = none →
      (registerAll calls).validate order t v payload = .error (.schemaNotFound t v)) ∧
    (∀ s, inForce calls t v = some s →
      ((registerAll calls).validate order t v payload = .ok () ↔ Admits s payload) ∧
      (¬Admits s payload → ∃ message,
        (registerAll calls).validate order t v payload = .error (.payloadInvalid message))) ∧
    ∀ before c after, calls = before ++ c :: after → ¬(registerAll before).Accepts c →
      (registerAll calls).validate order t v payload =
        (registerAll (before ++ after)).validate order t v payload := by
  refine ⟨fun hv ↦ if_pos hv, fun hv hnone ↦ ?_, fun s hs ↦ ?_, fun before c after hcalls hc ↦ ?_⟩
  · rw [validate, if_neg hv, schemaOf_registerAll, hnone]
  · have hv := version_ne_zero_of_inForce hs
    have hschema : (registerAll calls).schemaOf t v = some s :=
      (schemaOf_registerAll calls t v).trans hs
    have hiff := validate_registered_iff hschema order payload
    refine ⟨hiff, fun hnot ↦ ?_⟩
    have hresult : (registerAll calls).validate order t v payload =
        (validateAgainstSchema order s payload).mapError .payloadInvalid := by
      rw [validate, if_neg hv, hschema]
    cases hcheck : validateAgainstSchema order s payload with
    | error message => exact ⟨message, by rw [hresult, hcheck]; rfl⟩
    | ok u => exact absurd (hiff.1 (by rw [hresult, hcheck]; rfl)) hnot
  · rw [hcalls, registerAll_of_rejected hc]

/-! ## Later versions

What a later version of a type adds, in terms of what the two schemas declare.  A payload of the
earlier version can be turned away for these reasons and for no others. -/

/-- What a later schema asks that an earlier one does not. -/
structure AdmitsNew (previous next payload : Value) : Prop where
  /-- The payload is of the type the later schema names. -/
  root : ∀ name, NamesType next name → OfType name payload
  /-- A property that only the later schema declares is of the type its own schema names. -/
  properties : ∀ name property value type, Declares next name property →
    (∀ property', ¬Declares previous name property') → payload.get name = some value →
      NamesType property type → OfType type value
  /-- If the later schema is closed, every field is declared. -/
  closed : Closed next → ∀ name value, payload.get name = some value →
    ∃ property, Declares next name property

theorem newConstraints_iff_admitsNew {previous next payload : Value} :
    NewConstraints previous next payload ↔ AdmitsNew previous next payload := by
  have hnone : ∀ name, (objectProperties previous).get name = none ↔
      ∀ property, ¬Declares previous name property := fun name ↦ by
    rw [Option.eq_none_iff_forall_ne_some]
    exact forall_congr' fun property ↦ not_congr get_objectProperties_iff
  constructor
  · intro h
    refine ⟨fun name hname ↦ ?_, fun name property value type hp hnew hv ht ↦ ?_,
      fun hclosed name value hv ↦ ?_⟩
    · exact hasType_iff_ofType.1 (h.root name (schemaType_eq_some_iff.2 hname))
    · obtain ⟨obj, ho, hval⟩ := Option.bind_eq_some_iff.1 hv
      exact hasType_iff_ofType.1 (h.properties obj ho name property value type
        (get_objectProperties_iff.2 hp) ((hnone name).2 hnew) hval (schemaType_eq_some_iff.2 ht))
    · obtain ⟨obj, ho, hval⟩ := Option.bind_eq_some_iff.1 hv
      have hmem := h.closed obj ho hclosed name (Map.mem_keys_of_get hval)
      obtain ⟨property, hp⟩ := Option.isSome_iff_exists.1 (Map.isSome_get.2 hmem)
      exact ⟨property, get_objectProperties_iff.1 hp⟩
  · intro h
    refine ⟨fun expected he ↦ ?_, fun obj ho name property value expected hp hnew hv he ↦ ?_,
      fun obj ho hclosed field hfield ↦ ?_⟩
    · exact hasType_iff_ofType.2 (h.root expected (schemaType_eq_some_iff.1 he))
    · refine hasType_iff_ofType.2 (h.properties name property value expected
        (get_objectProperties_iff.1 hp) ((hnone name).1 hnew) ?_ (schemaType_eq_some_iff.1 he))
      rw [get_of_asObject ho, hv]
    · obtain ⟨value, hv⟩ := Option.isSome_iff_exists.1 (Map.isSome_get.2 hfield)
      obtain ⟨property, hp⟩ := h.closed hclosed field value (by rw [get_of_asObject ho, hv])
      exact Map.mem_keys_of_get (get_objectProperties_iff.2 hp)

/-- **What a later version can object to**, in terms of what the schemas declare. -/
theorem validate_later_iff_admitsNew {calls : List Registration}
    (hinc : Transition.StepsMeet step AboveRegistered new calls) {t : String} {v w : Version}
    {previous next : Value} (hvw : v < w) (hp : (registerAll calls).schemaOf t v = some previous)
    (hn : (registerAll calls).schemaOf t w = some next) (order order' : HashOrders)
    (payload : Value) (hv : (registerAll calls).validate order t v payload = .ok ()) :
    (registerAll calls).validate order' t w payload = .ok () ↔ AdmitsNew previous next payload :=
  (validate_later_eq_ok_iff_newConstraints (additiveVersions_of_increasing hinc) hvw hp hn hv
    order').2.trans newConstraints_iff_admitsNew

end SchemaRegistry

end PhenoEvents
