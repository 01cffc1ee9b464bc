import PhenoEvents.Schema.Runs

/-!
# Evolution of the schemas of an event type

What a registry guarantees about the versions of one event type, and what that means for payloads.

`register` compares a schema with the latest lower version only.  By transitivity of `Additive` this
is enough when versions arrive in increasing order (`additiveVersions_of_increasing`), but a version
that arrives late, or again, is never compared with the versions *above* it: the versions stay
additive along a run exactly when every accepted schema also satisfies the policy towards its next
higher neighbour (`visits_additiveVersions_iff`).

For payloads, `Additive previous next` protects what `previous` asks of the members it declares or
requires.  What it does not protect is `NewConstraints`, and a payload of `previous` is one of
`next` exactly when it meets them (`Additive.conforms_iff`).

## What is here

* `Additive.conforms_iff`: three kinds of constraints are all that a later version can add for a
  payload of an earlier one.
* `AdditiveVersions` and the exact condition for it to last along a run.
* `validate_later_eq_ok_iff`: the same for `validate`, for any two versions that were registered in
  increasing order, neighbours or not.
* `validate_later_of_preserved`: under a version that keeps the root type and closes nothing, only
  the values at new properties count, so a payload without any of these stays valid.
* For each kind of constraint a registration that adds it and a payload that is turned away.
-/

set_option autoImplicit false

namespace PhenoEvents

/-! ## What a later schema can add

Additivity is about what both schemas declare.  What only the later one declares is free, and a
payload of the earlier version may have such a field, with any value. -/

/-- What `next` can ask of a payload that conforms to `previous`, of which it is an additive change:
the type of the root, the types of properties `previous` does not declare, and that nothing else is
there. -/
structure NewConstraints (previous next payload : Value) : Prop where
  /-- The root type of `next`. -/
  root : ∀ expected, schemaType next = some expected → HasType expected payload
  /-- The types of the properties only `next` declares. -/
  properties : ∀ obj, payload.asObject = some obj → ∀ name property value expected,
    (objectProperties next).get name = some property →
      (objectProperties previous).get name = none → obj.get name = some value →
        schemaType property = some expected → HasType expected value
  /-- A closed `next` declares every field. -/
  closed : ∀ obj, payload.asObject = some obj →
    next.get "additionalProperties" = some (.bool false) →
      ∀ field ∈ obj.keys.list, field ∈ (objectProperties next).keys.list

/-- **A required field of the later schema is there.** -/
theorem Additive.required_of_conforms {previous next payload : Value} (h : Additive previous next)
    (hc : Conforms previous payload) {obj : Map} (ho : payload.asObject = some obj) :
    ∀ field ∈ requiredFields next, field ∈ obj.keys.list := fun field hf ↦
  (hc.members obj ho).required field (h.required field hf)

/-- **A property the earlier schema declares is declared in the same way, and has its type.** -/
theorem Additive.property_of_conforms {previous next payload : Value} (h : Additive previous next)
    (hc : Conforms previous payload) {obj : Map} (ho : payload.asObject = some obj) {name : String}
    {property : Value} (hp : (objectProperties previous).get name = some property) :
    (objectProperties next).get name = some property ∧ ∀ value expected,
      obj.get name = some value → schemaType property = some expected → HasType expected value :=
  ⟨h.properties name property hp, fun value expected ↦
    (hc.members obj ho).properties name property value expected hp⟩

/-- **The reach of the policy.** -/
theorem Additive.conforms_iff {previous next payload : Value} (h : Additive previous next)
    (hc : Conforms previous payload) :
    Conforms next payload ↔ NewConstraints previous next payload := by
  constructor
  · intro hn
    refine ⟨hn.root, fun obj ho name property value expected hp _ ↦ ?_, fun obj ho ↦ ?_⟩
    · exact (hn.members obj ho).properties name property value expected hp
    · exact (hn.members obj ho).closed
  · intro hn
    refine ⟨hn.root, fun obj ho ↦ ⟨h.required_of_conforms hc ho, ?_, hn.closed obj ho⟩⟩
    intro name property value expected hp hv he
    cases hprev : (objectProperties previous).get name with
    | none => exact hn.properties obj ho name property value expected hp hprev hv he
    | some property' =>
      obtain ⟨hsame, hty⟩ := h.property_of_conforms hc ho hprev
      rw [hp, Option.some_inj] at hsame
      subst hsame
      exact hty value expected hv he

/-- A later schema that keeps the root type and closes nothing can only constrain the properties it
adds. -/
theorem newConstraints_of_preserved {previous next payload : Value} (hc : Conforms previous payload)
    (hp : ∀ name property, (objectProperties previous).get name = some property →
      (objectProperties next).get name = some property)
    (hroot : ∀ expected, schemaType next = some expected → schemaType previous = some expected)
    (hclosed : next.get "additionalProperties" = some (.bool false) →
      previous.get "additionalProperties" = some (.bool false))
    (hnew : ∀ obj, payload.asObject = some obj → ∀ name property value expected,
      (objectProperties next).get name = some property →
        (objectProperties previous).get name = none → obj.get name = some value →
          schemaType property = some expected → HasType expected value) :
    NewConstraints previous next payload := by
  refine ⟨fun expected he ↦ hc.root expected (hroot expected he), hnew, fun obj ho hn field hf ↦ ?_⟩
  have hmem := (hc.members obj ho).closed (hclosed hn) field hf
  rw [← Map.isSome_get, Option.isSome_iff_exists] at hmem
  obtain ⟨property, hprop⟩ := hmem
  exact Map.mem_keys_of_get (hp field property hprop)

/-! ## Small schemas

For the sequences of calls that are evaluated. -/

/-- The schema `{}`. -/
def anything : Value := .emptyObject

/-- The schema `{"type": expected}`. -/
def ofType (expected : String) : Value :=
  .ofEntries [("type", .string expected)] (List.pairwise_singleton _ _)

/-- The schema `{"properties": {name: property}}`. -/
def declaring (name : String) (property : Value) : Value :=
  .ofEntries [("properties", .ofEntries [(name, property)] (List.pairwise_singleton _ _))]
    (List.pairwise_singleton _ _)

theorem schemaType_ofType (expected : String) : schemaType (ofType expected) = some expected := by
  simp [schemaType, ofType, Value.get_ofEntries, Value.asStr]

theorem get_objectProperties_declaring (name k : String) (property : Value) :
    (objectProperties (declaring name property)).get k =
      if name = k then some property else none := by
  rw [objectProperties, declaring, Value.get_ofEntries]
  by_cases h : name = k <;> simp [Map.get_ofList, h]

/-- The payload `{field: value}`. -/
def payloadOf (field : String) (value : Value) : Value :=
  .ofEntries [(field, value)] (List.pairwise_singleton _ _)

/-- A declared property of a named type, in a payload that has it with a value of that type. -/
theorem typeMatches_of_declaring {name expected : String} {value : Value}
    (h : typeMatches expected value = some true) {obj : Map}
    (ho : (payloadOf name value).asObject = some obj) {name' expected' : String}
    {property value' : Value}
    (hp : (objectProperties (declaring name (ofType expected))).get name' = some property)
    (hv : obj.get name' = some value') (he : schemaType property = some expected') :
    typeMatches expected' value' = some true := by
  rw [get_objectProperties_declaring] at hp
  split at hp
  · rename_i hname
    subst hname
    rw [payloadOf, Value.asObject_ofEntries, Option.some_inj] at ho
    subst ho
    obtain rfl := Option.some_inj.1 hp
    rw [schemaType_ofType, Option.some_inj] at he
    have hval : value = value' := by simpa [Map.get_ofList] using hv
    exact he ▸ hval ▸ h
  · cases hp

namespace SchemaRegistry

open Transition Versioned

/-! ## Additive versions

The versions of a type are a chain in the sense of `Versioned.Chain`, for each type by itself. -/

/-- For every event type and all registered versions `v < w`, the schema of `w` is additive over the
schema of `v`. -/
def AdditiveVersions (r : SchemaRegistry) : Prop :=
  ∀ eventType, Chain Additive (r.schemaOf eventType)

theorem additiveVersions_new : new.AdditiveVersions := by
  intro t v w p n _ hp
  rw [schemaOf_new] at hp
  cases hp

/-- The call passes the checks `register` makes: the version, the shape, and the comparison with the
latest version below. -/
def PassesChecks (r : SchemaRegistry) (c : Registration) : Prop :=
  c.version ≠ 0 ∧ validateSchemaShape c.schema = .ok () ∧
    enforceLatest c.order (r.latestSchemaFor c.eventType c.version) c.schema = .ok ()

theorem accepts_iff_passesChecks {r : SchemaRegistry} {c : Registration} :
    r.Accepts c ↔ r.PassesChecks c := by
  rw [PassesChecks, enforceLatest_eq_ok_iff]
  constructor
  · rintro ⟨r', hr⟩
    obtain ⟨hv, hs, hl, -⟩ := register_eq_ok_iff.1 hr
    exact ⟨hv, hs, hl⟩
  · rintro ⟨hv, hs, hl⟩
    exact ⟨_, register_eq_ok_iff.2 ⟨hv, hs, hl, rfl⟩⟩

/-- If the call passes the checks, its schema also satisfies the policy towards the next registered
version above it. -/
def AdditiveToNext (r : SchemaRegistry) (c : Registration) : Prop :=
  r.PassesChecks c → ∀ w next, IsNextAbove (r.schemaOf c.eventType) c.version w →
    r.schemaOf c.eventType w = some next → enforceAdditivePolicy c.order c.schema next = .ok ()

/-- One accepted call: the versions of its type change at one place. -/
theorem additiveVersions_insert_iff {r : SchemaRegistry} (h : r.AdditiveVersions) (t : String)
    (v : Version) (s : Value) :
    (r.insert t v s).AdditiveVersions ↔
      Chain Additive (Function.update (r.schemaOf t) v (some s)) := by
  rw [← schemaOf_insert_self]
  refine ⟨fun h' ↦ h' t, fun ht t' ↦ ?_⟩
  by_cases htt : t' = t
  · exact htt ▸ ht
  · rw [schemaOf_insert_of_ne r htt]
    exact h t'

theorem additiveVersions_apply_iff {r : SchemaRegistry} (h : r.AdditiveVersions)
    (c : Registration) : (r.apply c).AdditiveVersions ↔ r.AdditiveToNext c := by
  by_cases hc : r.Accepts c
  · have hpass := accepts_iff_passesChecks.1 hc
    have hlatest := enforceLatest_eq_ok_iff.1 hpass.2.2
    rw [apply_of_accepts hc, additiveVersions_insert_iff h,
      chain_update_iff (R := Additive) (fun _ _ _ ↦ Additive.trans) (Set.toFinite _)
        (h c.eventType), AdditiveToNext]
    simp only [enforceAdditivePolicy_eq_ok_iff]
    exact ⟨fun h' _ ↦ h'.2, fun h' ↦ ⟨hlatest, h' hpass⟩⟩
  · rw [apply_of_not_accepts hc]
    exact ⟨fun _ hpass ↦ absurd (accepts_iff_passesChecks.2 hpass) hc, fun _ ↦ h⟩

/-- **The versions stay additive along a run exactly when no accepted call breaks the policy towards
the version above it.**  Towards the version below it is kept by `register`, and the versions
further away follow, since additivity is transitive. -/
theorem visits_additiveVersions_iff (calls : List Registration) :
    (∀ r, Visits step new calls r → r.AdditiveVersions) ↔
      StepsMeet step AdditiveToNext new calls := by
  refine visits_iff_stepsMeet (I := fun _ ↦ True) (fun _ _ _ _ _ ↦ trivial) ?_ trivial
    additiveVersions_new calls
  intro r c r' _ hr hstep
  obtain rfl := Option.some_inj.1 hstep
  exact additiveVersions_apply_iff hr c

/-- Version 2 of a type, and after it a version 1 with another property. -/
def lateVersion : List Registration :=
  [⟨.inserted, "user.created", 2, declaring "email" anything⟩,
    ⟨.inserted, "user.created", 1, declaring "id" anything⟩]

/-- Both calls are accepted, and version 2 does not declare the property of version 1.  Version 1
has no version below it, so it is not compared with anything. -/
theorem lateVersion_not_additiveVersions : ¬(registerAll lateVersion).AdditiveVersions := by
  intro h
  have hadd : Additive (declaring "id" anything) (declaring "email" anything) :=
    h "user.created" 1 2 _ _ (by decide) (by decide) (by decide)
  have hid := hadd.properties "id" anything (by decide)
  exact absurd hid (by decide)

/-! ## Versions registered in increasing order

Then the latest version below is the greatest of all, and every version has been compared with the
one before it. -/

/-- An accepted version is greater than every version of its type registered before.  A call that is
rejected may have any version. -/
def AboveRegistered (r : SchemaRegistry) (c : Registration) : Prop :=
  r.Accepts c → ∀ v s, r.schemaOf c.eventType v = some s → v < c.version

theorem additiveVersions_apply_of_aboveRegistered {r : SchemaRegistry} (h : r.AdditiveVersions)
    {c : Registration} (hc : r.AboveRegistered c) : (r.apply c).AdditiveVersions := by
  by_cases ha : r.Accepts c
  · have hlatest := enforceLatest_eq_ok_iff.1 (accepts_iff_passesChecks.1 ha).2.2
    rw [apply_of_accepts ha, additiveVersions_insert_iff h]
    exact chain_update_of_top (R := Additive) (fun _ _ _ ↦ Additive.trans) (Set.toFinite _)
      (h c.eventType) (fun w s hs ↦ hc ha w s hs) hlatest
  · rw [apply_of_not_accepts ha]
    exact h

/-- **Versions registered in increasing order are additive**, distant ones as well as neighbours. -/
theorem additiveVersions_of_increasing {calls : List Registration}
    (h : StepsMeet step AboveRegistered new calls) : (registerAll calls).AdditiveVersions := by
  refine StepsMeet.invariant (fun r c r' hr hc hstep ↦ ?_) additiveVersions_new h
    (visits_registerAll calls)
  obtain rfl := Option.some_inj.1 hstep
  exact additiveVersions_apply_of_aboveRegistered hr hc

/-- A version that declares nothing, and one that adds an optional property. -/
def addedProperty : List Registration :=
  [⟨.inserted, "user.created", 1, anything⟩,
    ⟨.inserted, "user.created", 2, declaring "age" (ofType "integer")⟩]

/-- `AboveRegistered` looks at the rows of the hash map only. -/
theorem aboveRegistered_of_rows {r : SchemaRegistry} {c : Registration}
    (h : ∀ e ∈ r.schemas.rows, e.eventType = c.eventType → e.version < c.version) :
    r.AboveRegistered c :=
  fun _ v s hs ↦ h ⟨c.eventType, v, s⟩ (schemaOf_eq_some_iff.1 hs) rfl

/-- Two calls on a new registry: only the second one has a row to be compared with. -/
theorem stepsMeet_two_calls {c c' : Registration}
    (h : ∀ e ∈ (new.apply c).schemas.rows, e.eventType = c'.eventType → e.version < c'.version) :
    StepsMeet step AboveRegistered new [c, c'] := by
  refine fun r hr ↦ ⟨aboveRegistered_of_rows fun e he ↦ ?_, fun r' _ ↦ ⟨?_, trivial⟩⟩
  · cases he
  obtain rfl := Option.some_inj.1 hr
  exact aboveRegistered_of_rows h

theorem stepsMeet_addedProperty : StepsMeet step AboveRegistered new addedProperty :=
  stepsMeet_two_calls (by decide)

/-! ## Payloads of a later version

`v` and `w` need not be neighbours, as the versions in between are additive too. -/

/-- What `validate` says about a payload of version `v` at a later version `w`. -/
theorem validate_later_eq_ok_iff_newConstraints {r : SchemaRegistry} (hr : r.AdditiveVersions)
    {t : String} {v w : Version} {previous next : Value} (hvw : v < w)
    (hp : r.schemaOf t v = some previous) (hn : r.schemaOf t w = some next)
    {order : HashOrders} {payload : Value} (hv : r.validate order t v payload = .ok ())
    (order' : HashOrders) :
    Conforms previous payload ∧
      (r.validate order' t w payload = .ok () ↔ NewConstraints previous next payload) := by
  obtain ⟨-, s, hs, hc⟩ := validate_eq_ok_iff.1 hv
  rw [hp, Option.some_inj] at hs
  subst hs
  have hw : w ≠ 0 := (lt_of_le_of_lt (Fin.zero_le v) hvw).ne'
  refine ⟨hc, ?_⟩
  rw [validate_eq_ok_iff, ← (hr t v w previous next hvw hp hn).conforms_iff hc, hn]
  simp [hw]

/-- **Exact reach of the policy.**  Of a payload accepted at `v`, a later version `w` can only
object to the root type, to the types of properties `v` does not declare, and to undeclared fields;
no required field of `w` and no property of `v` is ever the cause. -/
theorem validate_later_eq_ok_iff {calls : List Registration}
    (hinc : StepsMeet step AboveRegistered new calls) {t : String} {v w : Version}
    {previous next : Value} (hvw : v < w) (hp : (registerAll calls).schemaOf t v = some previous)
    (hn : (registerAll calls).schemaOf t w = some next) (order order' : HashOrders)
    (payload : Value) (hv : (registerAll calls).validate order t v payload = .ok ()) :
    ((registerAll calls).validate order' t w payload = .ok () ↔
      (∀ expected, schemaType next = some expected → typeMatches expected payload = some true) ∧
        ∀ obj, payload.asObject = some obj →
          (∀ name property value expected, (objectProperties next).get name = some property →
            (objectProperties previous).get name = none → obj.get name = some value →
              schemaType property = some expected → typeMatches expected value = some true) ∧
          (next.get "additionalProperties" = some (.bool false) →
            ∀ field ∈ obj.keys.list, field ∈ (objectProperties next).keys.list)) ∧
      ∀ obj, payload.asObject = some obj →
        validateRequired order'.required next obj = .ok () ∧
          ∀ name property, (objectProperties previous).get name = some property →
            (objectProperties next).get name = some property ∧ ∀ value, obj.get name = some value →
              validateSchemaType property value name = .ok () := by
  have hadd := additiveVersions_of_increasing hinc
  obtain ⟨hc, hiff⟩ := validate_later_eq_ok_iff_newConstraints hadd hvw hp hn hv order'
  have hpn : Additive previous next := hadd t v w previous next hvw hp hn
  refine ⟨hiff.trans ⟨fun h ↦ ?_, fun h ↦ ?_⟩, fun obj ho ↦ ⟨?_, fun name property hprop ↦ ?_⟩⟩
  · exact ⟨h.root, fun obj ho ↦ ⟨h.properties obj ho, h.closed obj ho⟩⟩
  · exact ⟨h.1, fun obj ho ↦ (h.2 obj ho).1, fun obj ho ↦ (h.2 obj ho).2⟩
  · exact validateRequired_eq_ok_iff.2 (hpn.required_of_conforms hc ho)
  · obtain ⟨hsame, hty⟩ := hpn.property_of_conforms hc ho hprop
    exact ⟨hsame, fun value hval ↦
      validateSchemaType_eq_ok_iff.2 fun expected ↦ hty value expected hval⟩

/-- An integer age meets everything version 2 adds. -/
theorem addedProperty_age_integer :
    (registerAll addedProperty).validate .inserted "user.created" 2
      (payloadOf "age" (.number (.posInt 7))) = .ok () := by
  have hp : (registerAll addedProperty).schemaOf "user.created" 1 = some anything := by decide
  have hn : (registerAll addedProperty).schemaOf "user.created" 2 =
      some (declaring "age" (ofType "integer")) := by decide
  have h := validate_later_eq_ok_iff stepsMeet_addedProperty (by decide) hp hn .inserted .inserted
    (payloadOf "age" (.number (.posInt 7))) (by decide)
  refine h.1.2 ⟨fun expected he ↦ ?_, fun obj ho ↦ ⟨fun name property value expected hp _ ↦ ?_, ?_⟩⟩
  · have hnone : schemaType (declaring "age" (ofType "integer")) = none := by decide
    rw [hnone] at he
    cases he
  · exact typeMatches_of_declaring (by decide) ho hp
  · exact fun hclosed ↦ absurd hclosed (by decide)

/-- **Backward compatibility.**  A payload accepted at `v` is accepted at a later version that keeps
the root type and closes nothing, if its values at the properties `v` does not declare have the
types `w` gives them. -/
theorem validate_later_of_preserved {calls : List Registration}
    (hinc : StepsMeet step AboveRegistered new calls) {t : String} {v w : Version}
    {previous next : Value} (hvw : v < w) (hp : (registerAll calls).schemaOf t v = some previous)
    (hn : (registerAll calls).schemaOf t w = some next)
    (hroot : ∀ expected, schemaType next = some expected → schemaType previous = some expected)
    (hclosed : next.get "additionalProperties" = some (.bool false) →
      previous.get "additionalProperties" = some (.bool false))
    (order order' : HashOrders) (payload : Value)
    (hnew : ∀ obj, payload.asObject = some obj → ∀ name property value expected,
      (objectProperties next).get name = some property →
        (objectProperties previous).get name = none → obj.get name = some value →
          schemaType property = some expected → typeMatches expected value = some true)
    (hv : (registerAll calls).validate order t v payload = .ok ()) :
    (registerAll calls).validate order' t w payload = .ok () := by
  have hadd := additiveVersions_of_increasing hinc
  obtain ⟨hc, hiff⟩ := validate_later_eq_ok_iff_newConstraints hadd hvw hp hn hv order'
  exact hiff.2 (newConstraints_of_preserved hc (hadd t v w previous next hvw hp hn).properties
    hroot hclosed hnew)

/-- Both versions are open and name no root type, and the age is an integer. -/
theorem addedProperty_preserved :
    (registerAll addedProperty).validate .inserted "user.created" 2
      (payloadOf "age" (.number (.posInt 30))) = .ok () := by
  have hp : (registerAll addedProperty).schemaOf "user.created" 1 = some anything := by decide
  have hn : (registerAll addedProperty).schemaOf "user.created" 2 =
      some (declaring "age" (ofType "integer")) := by decide
  refine validate_later_of_preserved stepsMeet_addedProperty (by decide) hp hn ?_ ?_ .inserted
    .inserted _ (fun _ ho _ _ _ _ hprop _ ↦ typeMatches_of_declaring (by decide) ho hprop)
    (by decide)
  · have hnone : schemaType (declaring "age" (ofType "integer")) = none := by decide
    intro expected he
    rw [hnone] at he
    cases he
  · exact fun hclosed ↦ absurd hclosed (by decide)

/-- Version 1 accepts any age. -/
theorem addedProperty_age_string :
    StepsMeet step AboveRegistered new addedProperty ∧
      (registerAll addedProperty).validate .inserted "user.created" 1
        (payloadOf "age" (.string "x")) = .ok () ∧
      (registerAll addedProperty).validate .inserted "user.created" 2
        (payloadOf "age" (.string "x")) =
          .error (.payloadInvalid "expected age to be integer") :=
  ⟨stepsMeet_addedProperty, by decide, by decide⟩

/-! ## What the policy does not look at

Properties are one of three ways in which a later version can turn away a payload.  The policy
compares neither the type of the root nor `additionalProperties`, so the other two are accepted as
well. -/

/-- Version 2 wants a string instead of anything. -/
def addedRootType : List Registration :=
  [⟨.inserted, "user.created", 1, anything⟩, ⟨.inserted, "user.created", 2, ofType "string"⟩]

/-- The empty object is no string. -/
theorem addedRootType_emptyObject :
    StepsMeet step AboveRegistered new addedRootType ∧
      (registerAll addedRootType).validate .inserted "user.created" 1 .emptyObject = .ok () ∧
      (registerAll addedRootType).validate .inserted "user.created" 2 .emptyObject =
        .error (.payloadInvalid "expected $ to be string") :=
  ⟨stepsMeet_two_calls (by decide), by decide, by decide⟩

/-- Version 2 declares nothing, as version 1 does, and allows nothing else. -/
def addedClosing : List Registration :=
  [⟨.inserted, "user.created", 1, anything⟩,
    ⟨.inserted, "user.created", 2,
      .ofEntries [("additionalProperties", .bool false)] (List.pairwise_singleton _ _)⟩]

/-- A field that was let through is not any more. -/
theorem addedClosing_age :
    StepsMeet step AboveRegistered new addedClosing ∧
      (registerAll addedClosing).validate .inserted "user.created" 1
        (payloadOf "age" (.string "x")) = .ok () ∧
      (registerAll addedClosing).validate .inserted "user.created" 2
        (payloadOf "age" (.string "x")) =
          .error (.payloadInvalid "additional property 'age' is not allowed") :=
  ⟨stepsMeet_two_calls (by decide), by decide, by decide⟩

end SchemaRegistry

end PhenoEvents
