import PhenoEvents.Schema.Interpretable

/-!
# Which violation is reported

`register` and `validate` stop at the first violation they find and report that one.  Which one is
the first is up to the iteration order of a hash collection, and may be another one the next time.

So a report is not a function of the schema and the payload.  But it is not arbitrary either.  The
checks are made in stages, and only within a stage the order is open: `Violation` lists what
`validate` can say about a payload, and `Breaks` what `register` can say about a new version.  Each
entry names what is wrong, and each of them is reported under some order (`validate_reports_iff`,
`register_reports_iff`).

## What is here

* `exists_forM_eq_error_iff`: a loop over a hash collection can end with the error of any of its
  entries, and with no other.  `HashOrder.first` is the order that begins with the entry in
  question.
* `Mistyped` and `Violation`: one constructor for each message of `validate`, with the path and the
  names the source puts into it.  A constructor of a later stage says that the stages before it have
  passed.
* `Misshapen` and `Breaks`: the same for `register`.
* For each check of the source the lemma that its errors are the ones listed, and then the stages.

A caller that repairs what is reported and tries again therefore comes to the end: each of the
reports is about something that is wrong, whichever comes first.
-/

set_option autoImplicit false

namespace PhenoEvents

open Except

/-! ## Choosing the order

One entry at the front and the others as they are; this is a permutation, and nothing else is asked
of an order. -/

/-- The order that begins with one entry and leaves the others as they are.  It is a permutation of
every list, also of one in which the entry does not occur, so it is an order a hash collection may
have. -/
def HashOrder.first {α : Type} [DecidableEq α] (a : α) : HashOrder α where
  list l := if a ∈ l then a :: l.erase a else l
  perm l := by
    split
    · rename_i ha
      exact (List.perm_cons_erase ha).symm
    · exact List.Perm.refl l

theorem HashOrder.list_first {α : Type} [DecidableEq α] {a : α} {l : List α} (ha : a ∈ l) :
    (HashOrder.first a).list l = a :: l.erase a := if_pos ha

/-- **A loop over a hash collection can end with the error of any of its entries**, and with no
other. It is enough that the entry comes first, since the loop stops at the first error. -/
theorem exists_forM_eq_error_iff {α : Type} [DecidableEq α] {ε : Type} {l : List α}
    {f : α → Except ε Unit} {e : ε} :
    (∃ order : HashOrder α, forM (order.list l) f = .error e) ↔ ∃ a ∈ l, f a = .error e := by
  constructor
  · rintro ⟨order, h⟩
    obtain ⟨a, ha, hfa⟩ := exists_of_forM_eq_error h
    exact ⟨a, order.mem_list.1 ha, hfa⟩
  · rintro ⟨a, ha, hfa⟩
    refine ⟨.first a, ?_⟩
    rw [HashOrder.list_first ha, List.forM_cons, hfa]
    rfl

/-! ## Payloads

There are four stages: the root, the required fields, the declared properties, and the fields that
are not declared.  The last one goes through the keys of the payload, which are in order, so there
it is always the first that is reported. -/

/-- What is said of a value that is not of the type its schema names: that it should be of that
type, or that the type is not supported.  The second is a fault of the schema, but it is found only
when there is a value to be compared with it. -/
inductive Mistyped (schema value : Value) (path : String) : String → Prop
  | unsupported {name : String} (hname : NamesType schema name) (hunknown : name ∉ typeNames) :
      Mistyped schema value path (unsupportedType name path)
  | mismatch {name : String} (hname : NamesType schema name) (hknown : name ∈ typeNames)
      (hother : ¬OfType name value) :
      Mistyped schema value path ("expected " ++ path ++ " to be " ++ name)

/-- What can be said of a payload.  A violation is reported only if the stages before it have
passed, and a constructor has that as a condition.  There is one constructor for a stage, and its
message is the text the source builds from the field it is about. -/
inductive Violation (schema payload : Value) : String → Prop
  | root {message : String} (h : Mistyped schema payload "$" message) :
      Violation schema payload message
  | missing {field : String} (hroot : ∀ name, NamesType schema name → OfType name payload)
      (hobject : payload.isObject = true) (hrequires : Requires schema field)
      (hmissing : payload.get field = none) :
      Violation schema payload ("missing required property '" ++ field ++ "'")
  | mistyped {name message : String} {property value : Value}
      (hroot : ∀ name, NamesType schema name → OfType name payload)
      (hrequired : ∀ field, Requires schema field → (payload.get field).isSome)
      (hdeclares : Declares schema name property) (hvalue : payload.get name = some value)
      (h : Mistyped property value name message) : Violation schema payload message
  | undeclared {keys : Keys} {vals : {k // k ∈ keys.list} → Value} {front back : List String}
      {field : String} (hroot : ∀ name, NamesType schema name → OfType name payload)
      (hrequired : ∀ field, Requires schema field → (payload.get field).isSome)
      (hproperties : ∀ name property value type, Declares schema name property →
        payload.get name = some value → NamesType property type → OfType type value)
      (hclosed : Closed schema) (hpayload : payload = .object keys vals)
      (hkeys : keys.list = front ++ field :: back)
      (hfront : ∀ name ∈ front, ∃ property, Declares schema name property)
      (hfield : ∀ property, ¬Declares schema field property) :
      Violation schema payload ("additional property '" ++ field ++ "' is not allowed")

section Payloads

variable {schema payload value : Value} {obj : Map} {path message : String} {order : HashOrders}

theorem validateType_eq_error_iff {expected : String} :
    validateType expected value path = .error message ↔
      expected ∉ typeNames ∧ message = unsupportedType expected path ∨
        expected ∈ typeNames ∧ ¬OfType expected value ∧
          message = "expected " ++ path ++ " to be " ++ expected := by
  rw [← hasType_iff_ofType, HasType]
  by_cases hknown : expected ∈ typeNames
  · have hsome : typeMatches expected value ≠ none :=
      mt typeMatches_eq_none_iff.1 (not_not_intro hknown)
    rw [validateType]
    cases hmatch : typeMatches expected value with
    | none => exact absurd hmatch hsome
    | some b => cases b <;> simp [hknown, eq_comm]
  · rw [validateType_of_not_mem hknown]
    simp [hknown, eq_comm]

theorem validateSchemaType_eq_error_iff :
    validateSchemaType schema value path = .error message ↔ Mistyped schema value path message := by
  rw [validateSchemaType]
  constructor
  · intro h
    cases hname : schemaType schema with
    | none =>
      rw [hname] at h
      cases h
    | some name =>
      rw [hname] at h
      have hnames := schemaType_eq_some_iff.1 hname
      rcases validateType_eq_error_iff.1 h with ⟨hunknown, rfl⟩ | ⟨hknown, hother, rfl⟩
      · exact .unsupported hnames hunknown
      · exact .mismatch hnames hknown hother
  · rintro (⟨hname, hunknown⟩ | ⟨hname, hknown, hother⟩)
    · rw [schemaType_eq_some_iff.2 hname]
      exact validateType_eq_error_iff.2 (Or.inl ⟨hunknown, rfl⟩)
    · rw [schemaType_eq_some_iff.2 hname]
      exact validateType_eq_error_iff.2 (Or.inr ⟨hknown, hother, rfl⟩)

theorem rootPasses_iff :
    validateSchemaType schema payload "$" = .ok () ↔
      ∀ name, NamesType schema name → OfType name payload := by
  rw [validateSchemaType_eq_ok_iff]
  exact forall_congr' fun name ↦ by rw [schemaType_eq_some_iff, hasType_iff_ofType]

/-- The stages of `validate_against_schema`, one after the other: the type of the root, the required
fields, the declared properties, and what is not declared.  A stage is come to if those before it
have passed, and all but the first are for objects only. -/
theorem validateAgainstSchema_eq_error_iff :
    validateAgainstSchema order schema payload = .error message ↔
      validateSchemaType schema payload "$" = .error message ∨
        validateSchemaType schema payload "$" = .ok () ∧ ∃ obj, payload.asObject = some obj ∧
          (validateRequired order.required schema obj = .error message ∨
            validateRequired order.required schema obj = .ok () ∧
              (validateProperties order.properties schema obj = .error message ∨
                validateProperties order.properties schema obj = .ok () ∧
                  validateAdditionalProperties schema obj = .error message)) := by
  rw [validateAgainstSchema, check_bind_eq_error_iff]
  refine or_congr_right (and_congr_right fun _ ↦ ?_)
  cases payload.asObject with
  | none => exact iff_of_false (fun h ↦ by cases h) (by simp)
  | some obj => simp only [check_bind_eq_error_iff, Option.some_inj, exists_eq_left']

theorem mem_keys_iff_declares {name : String} :
    name ∈ (objectProperties schema).keys.list ↔ ∃ property, Declares schema name property := by
  rw [← Map.isSome_get, Option.isSome_iff_exists]
  exact exists_congr fun property ↦ get_objectProperties_iff

theorem get_eq_none_iff_not_mem {name : String} : obj.get name = none ↔ name ∉ obj.keys.list := by
  rw [← Map.isSome_get, Bool.not_eq_true, Option.isSome_eq_false_iff, Option.isNone_iff_eq_none]

/-- Any field that is missing may be the one that is reported. -/
theorem exists_validateRequired_eq_error_iff :
    (∃ order, validateRequired order schema obj = .error message) ↔
      ∃ field, Requires schema field ∧ obj.get field = none ∧
        message = "missing required property '" ++ field ++ "'" := by
  simp only [validateRequired, exists_forM_eq_error_iff]
  refine exists_congr fun field ↦ ?_
  rw [mem_requiredFields_iff, get_eq_none_iff_not_mem]
  refine and_congr_right fun _ ↦ ?_
  by_cases hfield : field ∈ obj.keys.list
  · simp [Map.containsKey, hfield]
  · simp [Map.containsKey, hfield, eq_comm]

/-- Any property of the wrong type may be the one that is reported.  A property that the payload
does not have is skipped here; whether it may be left out is the business of `required`. -/
theorem exists_validateProperties_eq_error_iff :
    (∃ order, validateProperties order schema obj = .error message) ↔
      ∃ name property value, Declares schema name property ∧ obj.get name = some value ∧
        Mistyped property value name message := by
  simp only [validateProperties, exists_forM_eq_error_iff, Prod.exists, Map.mem_entries,
    get_objectProperties_iff]
  refine exists₂_congr fun name property ↦ ?_
  cases hvalue : obj.get name with
  | none => simp
  | some value => simp [validateSchemaType_eq_error_iff]

/-- The additional property that is reported is the first one.  The loop goes through the keys of
the payload, which are in order in a `serde_json` map, so here the report is determined. -/
theorem validateAdditionalProperties_eq_error_iff :
    validateAdditionalProperties schema obj = .error message ↔
      Closed schema ∧ ∃ front field back, obj.keys.list = front ++ field :: back ∧
        (∀ name ∈ front, ∃ property, Declares schema name property) ∧
        (∀ property, ¬Declares schema field property) ∧
        message = "additional property '" ++ field ++ "' is not allowed" := by
  rw [validateAdditionalProperties]
  split
  · rename_i hopen
    refine iff_of_false (fun h ↦ by cases h) fun h ↦ ?_
    rw [additionalProperties_closed_iff.2 h.1] at hopen
    cases hopen
  · rename_i hclosed
    rw [Bool.not_eq_true, additionalProperties_closed_iff] at hclosed
    rw [forM_eq_error_iff, Closed, and_iff_right hclosed]
    refine exists₃_congr fun front field back ↦ and_congr_right fun _ ↦ and_congr ?_ ?_
    · refine forall₂_congr fun name _ ↦ ?_
      rw [← mem_keys_iff_declares]
      by_cases hname : name ∈ (objectProperties schema).keys.list <;> simp [Map.containsKey, hname]
    · rw [← not_exists, ← mem_keys_iff_declares]
      by_cases hfield : field ∈ (objectProperties schema).keys.list
      · simp [Map.containsKey, hfield]
      · simp [Map.containsKey, hfield, eq_comm]

theorem requiredPasses_iff (hobj : payload.asObject = some obj) {order : HashOrder String} :
    validateRequired order schema obj = .ok () ↔
      ∀ field, Requires schema field → (payload.get field).isSome := by
  rw [validateRequired_eq_ok_iff]
  refine forall_congr' fun field ↦ ?_
  rw [mem_requiredFields_iff, get_of_asObject hobj, Map.isSome_get]

theorem propertiesPass_iff (hobj : payload.asObject = some obj)
    {order : HashOrder (String × Value)} :
    validateProperties order schema obj = .ok () ↔
      ∀ name property value type, Declares schema name property →
        payload.get name = some value → NamesType property type → OfType type value := by
  rw [validateProperties_eq_ok_iff]
  refine forall₄_congr fun name property value type ↦ ?_
  rw [get_objectProperties_iff, get_of_asObject hobj, schemaType_eq_some_iff, hasType_iff_ofType]

theorem eq_object_of_asObject {keys : Keys} {vals : {k // k ∈ keys.list} → Value}
    (hobj : payload.asObject = some ⟨keys, vals⟩) : payload = .object keys vals := by
  cases payload with
  | object keys' vals' => cases hobj; rfl
  | _ => cases hobj

/-- **What is reported of a payload is a violation, and every violation may be.**  One order of the
collections serves for one violation: the entry it is about comes first in its own collection. -/
theorem exists_validateAgainstSchema_eq_error_iff :
    (∃ order, validateAgainstSchema order schema payload = .error message) ↔
      Violation schema payload message := by
  constructor
  -- one case for each stage that may have failed, with the stages before it passed
  · rintro ⟨order, h⟩
    rcases validateAgainstSchema_eq_error_iff.1 h with hroot | ⟨hroot, obj, hobj, hstages⟩
    · exact .root (validateSchemaType_eq_error_iff.1 hroot)
    have hroot' := rootPasses_iff.1 hroot
    rcases hstages with hmissing | ⟨hrequired, hmistyped | ⟨hproperties, hadditional⟩⟩
    · obtain ⟨field, hrequires, hget, rfl⟩ :=
        exists_validateRequired_eq_error_iff.1 ⟨order.required, hmissing⟩
      exact .missing hroot' (Option.isSome_of_eq_some hobj) hrequires
        ((get_of_asObject hobj field).trans hget)
    · obtain ⟨name, property, value, hdeclares, hvalue, htype⟩ :=
        exists_validateProperties_eq_error_iff.1 ⟨order.properties, hmistyped⟩
      exact .mistyped hroot' (requiredPasses_iff hobj |>.1 hrequired) hdeclares
        ((get_of_asObject hobj name).trans hvalue) htype
    · obtain ⟨hclosed, front, field, back, hkeys, hfront, hfield, rfl⟩ :=
        validateAdditionalProperties_eq_error_iff.1 hadditional
      obtain ⟨keys, vals⟩ := obj
      exact .undeclared hroot' (requiredPasses_iff hobj |>.1 hrequired)
        (propertiesPass_iff hobj |>.1 hproperties) hclosed (eq_object_of_asObject hobj) hkeys hfront
        hfield
  -- the order is chosen for the collection in which the violation is
  · intro h
    cases h with
    | root h =>
      exact ⟨.inserted, validateAgainstSchema_eq_error_iff.2
        (Or.inl (validateSchemaType_eq_error_iff.2 h))⟩
    | missing hroot hobject hrequires hmissing =>
      obtain ⟨obj, hobj⟩ := Option.isSome_iff_exists.1 hobject
      obtain ⟨required, herror⟩ := exists_validateRequired_eq_error_iff.2
        ⟨_, hrequires, (get_of_asObject hobj _).symm.trans hmissing, rfl⟩
      exact ⟨⟨.inserted _, required⟩, validateAgainstSchema_eq_error_iff.2
        (Or.inr ⟨rootPasses_iff.2 hroot, obj, hobj, Or.inl herror⟩)⟩
    | mistyped hroot hrequired hdeclares hvalue htype =>
      obtain ⟨obj, hobj, hget⟩ := Option.bind_eq_some_iff.1 hvalue
      obtain ⟨properties, herror⟩ := exists_validateProperties_eq_error_iff.2
        ⟨_, _, _, hdeclares, hget, htype⟩
      exact ⟨⟨properties, .inserted _⟩, validateAgainstSchema_eq_error_iff.2
        (Or.inr ⟨rootPasses_iff.2 hroot, obj, hobj,
          Or.inr ⟨(requiredPasses_iff hobj).2 hrequired, Or.inl herror⟩⟩)⟩
    | @undeclared keys vals front back field hroot hrequired hproperties hclosed hpayload
        hkeys hfront hfield =>
      have hobj : payload.asObject = some ⟨keys, vals⟩ := by rw [hpayload]; rfl
      have herror : validateAdditionalProperties schema ⟨keys, vals⟩ =
          .error ("additional property '" ++ field ++ "' is not allowed") :=
        validateAdditionalProperties_eq_error_iff.2
          ⟨hclosed, front, field, back, hkeys, hfront, hfield, rfl⟩
      exact ⟨.inserted, validateAgainstSchema_eq_error_iff.2
        (Or.inr ⟨rootPasses_iff.2 hroot, ⟨keys, vals⟩, hobj,
          Or.inr ⟨(requiredPasses_iff hobj).2 hrequired,
            Or.inr ⟨(propertiesPass_iff hobj).2 hproperties, herror⟩⟩⟩)⟩

end Payloads

/-! ## Schemas

The shape of a schema is looked at in a fixed order, without a hash collection.  What breaks a
version is found in two loops, and the first one has to come to its end before the second begins. -/

/-- What is said of a schema that is not of the right shape.  The keywords are looked at one after
the other, so there is only one report. -/
inductive Misshapen (schema : Value) : String → Prop
  | schema (hobject : schema.isObject = false) : Misshapen schema "schema must be a JSON object"
  | properties {properties : Value} (hobject : schema.isObject = true)
      (hget : schema.get "properties" = some properties) (hother : properties.isObject = false) :
      Misshapen schema "properties must be an object"
  | required {required : Value} (hobject : schema.isObject = true)
      (hproperties : ∀ p, schema.get "properties" = some p → p.isObject = true)
      (hget : schema.get "required" = some required) (hother : required.asArray = none) :
      Misshapen schema "required must be an array"
  | entries {required field : Value} {fields : List Value} (hobject : schema.isObject = true)
      (hproperties : ∀ p, schema.get "properties" = some p → p.isObject = true)
      (hget : schema.get "required" = some required) (harray : required.asArray = some fields)
      (hfield : field ∈ fields) (hother : field.isString = false) :
      Misshapen schema "required entries must be strings"

/-- What can be said of a version that follows another one: a property of the earlier version that
is removed or changed, or a field that is newly required, if no property is. -/
inductive Breaks (previous next : Value) : String → Prop
  | removed {name : String} {property : Value} (hdeclared : Declares previous name property)
      (hgone : ∀ property', ¬Declares next name property') :
      Breaks previous next ("property '" ++ name ++ "' was removed")
  | changed {name : String} {property property' : Value}
      (hdeclared : Declares previous name property)
      (hdeclares : Declares next name property') (hne : property' ≠ property) :
      Breaks previous next ("property '" ++ name ++ "' changed")
  | required {field : String}
      (hkept : ∀ name property, Declares previous name property → Declares next name property)
      (hrequires : Requires next field) (hnew : ¬Requires previous field) :
      Breaks previous next ("new required property '" ++ field ++ "' is not additive")

section Schemas

variable {schema previous next : Value} {e : ValidationError} {message : String}

/-- Any property that was removed or changed may be the one that is reported.  Changed means another
JSON value, whatever the difference comes to for a payload. -/
theorem exists_enforceProperties_eq_error_iff :
    (∃ order, enforceProperties order previous next = .error e) ↔
      ∃ name property, Declares previous name property ∧
        ((∀ property', ¬Declares next name property') ∧
            e = .breakingChange ("property '" ++ name ++ "' was removed") ∨
          ∃ property', Declares next name property' ∧ property' ≠ property ∧
            e = .breakingChange ("property '" ++ name ++ "' changed")) := by
  simp only [enforceProperties, exists_forM_eq_error_iff, Prod.exists, Map.mem_entries,
    get_objectProperties_iff]
  refine exists₂_congr fun name property ↦ and_congr_right fun _ ↦ ?_
  simp only [← get_objectProperties_iff]
  cases hnext : (objectProperties next).get name with
  | none => simp [eq_comm]
  | some property' =>
    by_cases hsame : property' = property
    · simp [hsame]
    · simp [hsame, Ne.symm hsame, eq_comm]

/-- Any field that is newly required may be the one that is reported, be its property new or as old
as the schema. -/
theorem exists_enforceRequired_eq_error_iff :
    (∃ order, enforceRequired order previous next = .error e) ↔
      ∃ field, Requires next field ∧ ¬Requires previous field ∧
        e = .breakingChange ("new required property '" ++ field ++ "' is not additive") := by
  constructor
  · rintro ⟨order, h⟩
    rw [enforceRequired] at h
    split at h
    · rename_i field hfind
      have hnew : field ∉ requiredFields previous := by simpa using List.find?_some hfind
      exact ⟨field, mem_requiredFields_iff.1 (order.mem_list.1 (List.mem_of_find?_eq_some hfind)),
        mt mem_requiredFields_iff.2 hnew, (Except.error.inj h).symm⟩
    · cases h
  · rintro ⟨field, hrequires, hnew, rfl⟩
    have hfirst : ((HashOrder.first field).list (requiredFields next)).find?
        (fun f ↦ f ∉ requiredFields previous) = some field := by
      rw [HashOrder.list_first (mem_requiredFields_iff.2 hrequires)]
      exact List.find?_cons_of_pos (by simpa using mt mem_requiredFields_iff.1 hnew)
    exact ⟨.first field, by rw [enforceRequired, hfirst]⟩

/-- **What is reported of a version is a breaking change, and every breaking change may be.**  The
loop over the properties comes first, so a newly required field is only reported when every property
has been kept. -/
theorem exists_enforceAdditivePolicy_eq_error_iff :
    (∃ order, enforceAdditivePolicy order previous next = .error e) ↔
      ∃ message, e = .breakingChange message ∧ Breaks previous next message := by
  have hpass : ∀ {order : HashOrder (String × Value)},
      enforceProperties order previous next = .ok () ↔
        ∀ name property, Declares previous name property → Declares next name property := by
    intro order
    simp only [enforceProperties_eq_ok_iff, get_objectProperties_iff]
  simp only [enforceAdditivePolicy, check_bind_eq_error_iff]
  constructor
  · rintro ⟨order, hproperties | ⟨hproperties, hrequired⟩⟩
    · obtain ⟨name, property, hdeclared, ⟨hgone, rfl⟩ | ⟨property', hdeclares, hne, rfl⟩⟩ :=
        exists_enforceProperties_eq_error_iff.1 ⟨order.properties, hproperties⟩
      · exact ⟨_, rfl, .removed hdeclared hgone⟩
      · exact ⟨_, rfl, .changed hdeclared hdeclares hne⟩
    · obtain ⟨field, hrequires, hnew, rfl⟩ :=
        exists_enforceRequired_eq_error_iff.1 ⟨order.required, hrequired⟩
      exact ⟨_, rfl, .required (hpass.1 hproperties) hrequires hnew⟩
  · rintro ⟨message, rfl, hbreaks⟩
    cases hbreaks with
    | removed hdeclared hgone =>
      obtain ⟨properties, herror⟩ := exists_enforceProperties_eq_error_iff.2
        ⟨_, _, hdeclared, Or.inl ⟨hgone, rfl⟩⟩
      exact ⟨⟨properties, .inserted _⟩, Or.inl herror⟩
    | changed hdeclared hdeclares hne =>
      obtain ⟨properties, herror⟩ := exists_enforceProperties_eq_error_iff.2
        ⟨_, _, hdeclared, Or.inr ⟨_, hdeclares, hne, rfl⟩⟩
      exact ⟨⟨properties, .inserted _⟩, Or.inl herror⟩
    | required hkept hrequires hnew =>
      obtain ⟨required, herror⟩ := exists_enforceRequired_eq_error_iff.2 ⟨_, hrequires, hnew, rfl⟩
      exact ⟨⟨.inserted _, required⟩, Or.inr ⟨hpass.2 hkept, herror⟩⟩

theorem validatePropertiesShape_eq_ok_iff :
    validatePropertiesShape schema = .ok () ↔
      ∀ p, schema.get "properties" = some p → p.isObject = true := by
  rw [validatePropertiesShape]
  cases schema.get "properties" with
  | none => simp
  | some p => cases hp : p.isObject <;> simp [hp]

theorem validatePropertiesShape_eq_error_iff :
    validatePropertiesShape schema = .error e ↔
      ∃ p, schema.get "properties" = some p ∧ p.isObject = false ∧
        e = .invalidSchema "properties must be an object" := by
  rw [validatePropertiesShape]
  constructor
  · intro h
    split at h
    · rename_i p hget
      split at h
      · rename_i hother
        exact ⟨p, hget, by simpa using hother, (Except.error.inj h).symm⟩
      · cases h
    · cases h
  · rintro ⟨p, hget, hother, rfl⟩
    simp [hget, hother]

theorem validateRequiredShape_eq_error_iff :
    validateRequiredShape schema = .error e ↔
      ∃ r, schema.get "required" = some r ∧
        (r.asArray = none ∧ e = .invalidSchema "required must be an array" ∨
          ∃ fields, r.asArray = some fields ∧ ∃ field ∈ fields, field.isString = false ∧
            e = .invalidSchema "required entries must be strings") := by
  rw [validateRequiredShape]
  constructor
  · intro h
    split at h
    · rename_i r hget
      split at h
      · rename_i harray
        exact ⟨r, hget, Or.inl ⟨harray, (Except.error.inj h).symm⟩⟩
      · rename_i fields harray
        split at h
        · rename_i hany
          obtain ⟨field, hfield, hother⟩ := List.any_eq_true.1 hany
          exact ⟨r, hget, Or.inr ⟨fields, harray, field, hfield, by simpa using hother,
            (Except.error.inj h).symm⟩⟩
        · cases h
    · cases h
  · rintro ⟨r, hget, ⟨harray, rfl⟩ | ⟨fields, harray, field, hfield, hother, rfl⟩⟩
    · simp [hget, harray]
    · have hany : (fields.any fun field ↦ !field.isString) = true :=
        List.any_eq_true.2 ⟨field, hfield, by rw [hother]; rfl⟩
      simp only [hget, harray, hany, if_true]

/-- **What is reported of the shape of a schema.**  There is no choice here: the keywords are looked
at in the order of the source, and the report is the first that applies. -/
theorem validateSchemaShape_eq_error_iff :
    validateSchemaShape schema = .error e ↔
      ∃ message, e = .invalidSchema message ∧ Misshapen schema message := by
  rw [validateSchemaShape]
  cases hobject : schema.isObject with
  | false =>
    constructor
    · intro h
      exact ⟨_, (Except.error.inj h).symm, .schema hobject⟩
    · rintro ⟨message, rfl, hshape⟩
      cases hshape with
      | schema _ => rfl
      | properties hobject' | required hobject' | entries hobject' =>
        rw [hobject] at hobject'
        cases hobject'
  | true =>
    rw [if_neg (by decide), check_bind_eq_error_iff, validatePropertiesShape_eq_error_iff,
      validatePropertiesShape_eq_ok_iff, validateRequiredShape_eq_error_iff]
    constructor
    · rintro (⟨p, hget, hother, rfl⟩ | ⟨hproperties, r, hget, ⟨hother, rfl⟩ |
        ⟨fields, harray, field, hfield, hother, rfl⟩⟩)
      · exact ⟨_, rfl, .properties hobject hget hother⟩
      · exact ⟨_, rfl, .required hobject hproperties hget hother⟩
      · exact ⟨_, rfl, .entries hobject hproperties hget harray hfield hother⟩
    · rintro ⟨message, rfl, hshape⟩
      cases hshape with
      | schema hnot =>
        rw [hobject] at hnot
        cases hnot
      | properties _ hget hother => exact Or.inl ⟨_, hget, hother, rfl⟩
      | required _ hproperties hget hother =>
        exact Or.inr ⟨hproperties, _, hget, Or.inl ⟨hother, rfl⟩⟩
      | entries _ hproperties hget harray hfield hother =>
        exact Or.inr ⟨hproperties, _, hget, Or.inr ⟨_, harray, _, hfield, hother, rfl⟩⟩

/-- The shape is right if there is nothing to say about it. -/
theorem validateSchemaShape_eq_ok_iff :
    validateSchemaShape schema = .ok () ↔ ∀ message, ¬Misshapen schema message := by
  cases hshape : validateSchemaShape schema with
  | ok u =>
    refine iff_of_true rfl fun message hmisshapen ↦ ?_
    have herror := validateSchemaShape_eq_error_iff.2 ⟨message, rfl, hmisshapen⟩
    rw [hshape] at herror
    cases herror
  | error e =>
    obtain ⟨message, rfl, hmisshapen⟩ := validateSchemaShape_eq_error_iff.1 hshape
    exact iff_of_false (fun h ↦ by cases h) fun h ↦ h message hmisshapen

end Schemas

/-! ## The registry

Both methods look at the registry before they look at a schema: `validate` for the schema that is in
force, `register` for the latest version below.  What has been registered is a matter of the calls
so far, so the results are about lists of calls. -/

namespace SchemaRegistry

/-- **What `validate` can report of a payload**, whatever calls of `register` there have been:
exactly the violations of the schema in force, each under some order of the hash collections. -/
theorem validate_reports_iff (calls : List Registration) (t : String) (v : Version)
    (payload : Value) (message : String) :
    (∃ order, (registerAll calls).validate order t v payload = .error (.payloadInvalid message)) ↔
      ∃ s, inForce calls t v = some s ∧ Violation s payload message := by
  by_cases hv : v = 0
  · refine iff_of_false ?_ ?_
    · rintro ⟨order, h⟩
      rw [validate, if_pos hv] at h
      cases h
    · rintro ⟨s, hs, -⟩
      exact version_ne_zero_of_inForce hs hv
  · simp only [validate, if_neg hv, schemaOf_registerAll]
    cases hs : inForce calls t v with
    | none => simp
    | some s =>
      simp only [Option.some_inj, exists_eq_left', ← exists_validateAgainstSchema_eq_error_iff]
      refine exists_congr fun order ↦ ?_
      cases validateAgainstSchema order s payload <;> simp [Except.mapError]

/-- The stages of `register`: the version, the shape, and the comparison with the latest version
below, if there is one. -/
theorem register_eq_error_iff {r : SchemaRegistry} {order : HashOrders} {t : String} {v : Version}
    {s : Value} {e : ValidationError} :
    r.register order t v s = .error e ↔ v = 0 ∧ e = .invalidVersion ∨
      v ≠ 0 ∧ (validateSchemaShape s = .error e ∨
        validateSchemaShape s = .ok () ∧ enforceLatest order (r.latestSchemaFor t v) s =
          .error e) := by
  rw [register]
  by_cases hv : v = 0
  · simp [hv, eq_comm]
  · rw [if_neg hv, check_bind_eq_error_iff, check_bind_eq_error_iff]
    simp [hv, pure, Except.pure]

/-- The comparison with the latest version below reports what breaks it. -/
theorem exists_enforceLatest_eq_error_iff {r : SchemaRegistry} {t : String}
    {v : Version} {s : Value} {e : ValidationError} :
    (∃ order, enforceLatest order (r.latestSchemaFor t v) s = .error e) ↔
      ∃ u previous message, Versioned.IsLatestBelow (r.schemaOf t) v u ∧
        r.schemaOf t u = some previous ∧ e = .breakingChange message ∧
        Breaks previous s message := by
  constructor
  · rintro ⟨order, h⟩
    cases hlatest : r.latestSchemaFor t v with
    | none =>
      rw [hlatest] at h
      cases h
    | some previous =>
      rw [hlatest] at h
      obtain ⟨u, hu, hprevious⟩ := latestSchemaFor_eq_some_iff.1 hlatest
      obtain ⟨message, rfl, hbreaks⟩ := exists_enforceAdditivePolicy_eq_error_iff.1 ⟨order, h⟩
      exact ⟨u, previous, message, hu, hprevious, rfl, hbreaks⟩
  · rintro ⟨u, previous, message, hu, hprevious, rfl, hbreaks⟩
    rw [latestSchemaFor_eq_some_iff.2 ⟨u, hu, hprevious⟩]
    exact exists_enforceAdditivePolicy_eq_error_iff.2 ⟨message, rfl, hbreaks⟩

/-- **What `register` can report of a version**, whatever calls there have been: a version of zero,
what is wrong with the shape, or a change that breaks the latest version below. -/
theorem register_reports_iff (calls : List Registration) (t : String) (v : Version) (s : Value)
    (e : ValidationError) :
    (∃ order, (registerAll calls).register order t v s = .error e) ↔
      v = 0 ∧ e = .invalidVersion ∨
      v ≠ 0 ∧ ((∃ message, e = .invalidSchema message ∧ Misshapen s message) ∨
        (∀ message, ¬Misshapen s message) ∧ ∃ u previous message,
          Versioned.IsLatestBelow (inForce calls t) v u ∧ inForce calls t u = some previous ∧
            e = .breakingChange message ∧ Breaks previous s message) := by
  have hforce : inForce calls t = (registerAll calls).schemaOf t :=
    funext fun u ↦ (schemaOf_registerAll calls t u).symm
  rw [hforce, ← validateSchemaShape_eq_error_iff, ← validateSchemaShape_eq_ok_iff,
    ← exists_enforceLatest_eq_error_iff]
  simp only [register_eq_error_iff]
  constructor
  · rintro ⟨order, hzero | ⟨hv, hshape | ⟨hshape, hlatest⟩⟩⟩
    · exact Or.inl hzero
    · exact Or.inr ⟨hv, Or.inl hshape⟩
    · exact Or.inr ⟨hv, Or.inr ⟨hshape, order, hlatest⟩⟩
  · rintro (hzero | ⟨hv, hshape | ⟨hshape, order, hlatest⟩⟩)
    · exact ⟨.inserted, Or.inl hzero⟩
    · exact ⟨.inserted, Or.inr ⟨hv, Or.inl hshape⟩⟩
    · exact ⟨order, Or.inr ⟨hv, Or.inr ⟨hshape, hlatest⟩⟩⟩

end SchemaRegistry

end PhenoEvents
