import PhenoEvents.Schema.Declared
import PhenoEvents.Schema.Evolution

/-!
# Registering in any order

Services that start at the same time register their schemas in the order in which they happen to
come up.  `register` compares a schema with the latest lower version only, and with that as it is at
the moment, so what it accepts depends on the order.

There is an exact condition under which it does not (`Compatible`): every two versions of a type are
additive, not only neighbours (`any_order_iff`).  Versions that were accepted one after another in
increasing order are always like that, so what one service has registered version by version another
one may register in any order, and end up with a registry that cannot be told apart
(`increasing_in_any_order`).

## How it goes

* If the calls are compatible, each of them is additive over whatever is there when it is made.
* If all orders are accepted, then so is the one in which two given calls come first, the lower
  version before the higher; and the second is compared with the first, since there is nothing else.
* A registry is all that its schemas are (`Alike`): what comes after two runs that leave the same
  schemas is the same for both.
-/

set_option autoImplicit false

namespace PhenoEvents

namespace SchemaRegistry

/-- Every schema can be registered, and the later versions of a type are additive over the earlier
ones. This is about every two calls, and does not mention the order in which they are made.  Two
calls for the same type and version need not agree: the later one replaces the earlier. -/
structure Compatible (calls : List Registration) : Prop where
  version : ∀ c ∈ calls, c.version ≠ 0
  shape : ∀ c ∈ calls, validateSchemaShape c.schema = .ok ()
  additive : ∀ c ∈ calls, ∀ c' ∈ calls, c.eventType = c'.eventType → c.version < c'.version →
    Additive c.schema c'.schema

variable {r : SchemaRegistry} {calls calls' : List Registration} {c c' : Registration}

theorem Compatible.of_perm (h : Compatible calls) (hperm : calls'.Perm calls) :
    Compatible calls' where
  version c hc := h.version c (hperm.mem_iff.1 hc)
  shape c hc := h.shape c (hperm.mem_iff.1 hc)
  additive c hc c' hc' := h.additive c (hperm.mem_iff.1 hc) c' (hperm.mem_iff.1 hc')

theorem Compatible.tail (h : Compatible (c :: calls)) : Compatible calls where
  version c' hc' := h.version c' (List.mem_cons_of_mem c hc')
  shape c' hc' := h.shape c' (List.mem_cons_of_mem c hc')
  additive c' hc' c'' hc'' :=
    h.additive c' (List.mem_cons_of_mem c hc') c'' (List.mem_cons_of_mem c hc'')

/-! ## Every call is accepted

A call that is rejected is not made up for by a later one, so the number of accepted calls is that
of all calls only if each of them is accepted. -/

theorem acceptedCalls_cons_of_accepts (h : r.Accepts c) :
    r.acceptedCalls (c :: calls) = c :: (r.apply c).acceptedCalls calls := by
  obtain ⟨r', hr⟩ := h
  rw [acceptedCalls, apply, hr]

theorem acceptedCalls_cons_of_not_accepts (h : ¬r.Accepts c) :
    r.acceptedCalls (c :: calls) = r.acceptedCalls calls := by
  rw [acceptedCalls]
  split
  · rename_i r' hr
    exact absurd ⟨r', hr⟩ h
  · rfl

theorem length_acceptedCalls_le (r : SchemaRegistry) (calls : List Registration) :
    (r.acceptedCalls calls).length ≤ calls.length := by
  induction calls generalizing r with
  | nil => exact Nat.le_refl 0
  | cons c calls ih =>
    by_cases h : r.Accepts c
    · rw [acceptedCalls_cons_of_accepts h]
      exact Nat.succ_le_succ (ih _)
    · rw [acceptedCalls_cons_of_not_accepts h]
      exact (ih r).trans (Nat.le_succ _)

/-- All calls are accepted exactly if the first is, and then all others. -/
theorem acceptedCalls_cons_eq_self_iff :
    r.acceptedCalls (c :: calls) = c :: calls ↔
      r.Accepts c ∧ (r.apply c).acceptedCalls calls = calls := by
  by_cases h : r.Accepts c
  · rw [acceptedCalls_cons_of_accepts h]
    simp [h]
  · rw [acceptedCalls_cons_of_not_accepts h]
    refine iff_of_false (fun heq ↦ ?_) fun hand ↦ h hand.1
    have hle := r.length_acceptedCalls_le calls
    rw [heq, List.length_cons] at hle
    omega

/-- Compatible calls are accepted, if they are additive over what is there. -/
theorem Compatible.acceptedCalls_eq_self (h : Compatible calls)
    (hr : ∀ c ∈ calls, ∀ v s, r.schemaOf c.eventType v = some s → v < c.version →
      Additive s c.schema) : r.acceptedCalls calls = calls := by
  induction calls generalizing r with
  | nil => rfl
  | cons c calls ih =>
    have hmem : c ∈ c :: calls := List.mem_cons_self
    have haccepts : r.Accepts c := ⟨_, register_eq_ok_iff.2 ⟨h.version c hmem, h.shape c hmem,
      fun u p hu hp ↦ hr c hmem u p hp hu.1.1, rfl⟩⟩
    refine acceptedCalls_cons_eq_self_iff.2 ⟨haccepts, ih h.tail fun c' hc' v s hs hlt ↦ ?_⟩
    rw [apply_of_accepts haccepts, schemaOf_insert] at hs
    split at hs
    · -- what is there is the schema that has just been registered
      rename_i hkey
      obtain ⟨ht, rfl⟩ := hkey
      obtain rfl := Option.some_inj.1 hs
      exact h.additive c hmem c' (List.mem_cons_of_mem c hc') ht hlt
    · exact hr c' (List.mem_cons_of_mem c hc') v s hs hlt

/-- If a version is accepted right after a lower one, it is additive over it. -/
theorem additive_of_accepts_apply (hc : r.Accepts c) (hc' : (r.apply c).Accepts c')
    (hnone : ∀ v, r.schemaOf c.eventType v = none) (ht : c.eventType = c'.eventType)
    (hlt : c.version < c'.version) : Additive c.schema c'.schema := by
  obtain ⟨r', hregister⟩ := hc'
  obtain ⟨-, -, hlatest, -⟩ := register_eq_ok_iff.1 hregister
  rw [apply_of_accepts hc, ← ht] at hlatest
  have honly : ∀ v, (r.insert c.eventType c.version c.schema).schemaOf c.eventType v =
      if c.version = v then some c.schema else none := by
    intro v
    rw [schemaOf_insert, hnone]
    simp
  refine hlatest c.version c.schema ⟨⟨hlt, ?_⟩, ?_⟩ ?_
  · rw [honly, if_pos rfl]
    rfl
  · rintro u ⟨-, hu⟩
    rw [honly] at hu
    split at hu
    · rename_i heq
      exact heq.ge
    · cases hu
  · rw [honly, if_pos rfl]

theorem Compatible.acceptedCalls_new (h : Compatible calls) : new.acceptedCalls calls = calls :=
  h.acceptedCalls_eq_self fun c _ v s hs ↦ by
    rw [schemaOf_new] at hs
    cases hs

/-- Two calls can be made first. -/
theorem exists_perm_cons_cons (hc : c ∈ calls) (hc' : c' ∈ calls) (hne : c ≠ c') :
    ∃ rest, (c :: c' :: rest).Perm calls := by
  obtain ⟨front, back, rfl⟩ := List.append_of_mem hc
  have hrest : c' ∈ front ++ back := by
    rcases List.mem_append.1 hc' with hfront | hback
    · exact List.mem_append_left _ hfront
    · exact List.mem_append_right _ ((List.mem_cons.1 hback).resolve_left hne.symm)
  obtain ⟨front', back', hsplit⟩ := List.append_of_mem hrest
  refine ⟨front' ++ back', (List.Perm.cons c ?_).trans List.perm_middle.symm⟩
  rw [hsplit]
  exact List.perm_middle.symm

/-- **The order of the calls does not matter to `register` exactly if all versions are compatible.**
What the registry holds in the end may still depend on it, if a version is registered twice. -/
theorem any_order_iff (calls : List Registration) :
    (∀ calls', calls'.Perm calls → new.acceptedCalls calls' = calls') ↔ Compatible calls := by
  constructor
  · intro h
    have hfirst : ∀ c ∈ calls, new.Accepts c := by
      intro c hc
      obtain ⟨front, back, rfl⟩ := List.append_of_mem hc
      exact (acceptedCalls_cons_eq_self_iff.1 (h (c :: (front ++ back)) List.perm_middle.symm)).1
    refine ⟨fun c hc ↦ ?_, fun c hc ↦ ?_, fun c hc c' hc' ht hlt ↦ ?_⟩
    · obtain ⟨r', hregister⟩ := hfirst c hc
      exact (register_eq_ok_iff.1 hregister).1
    · obtain ⟨r', hregister⟩ := hfirst c hc
      exact (register_eq_ok_iff.1 hregister).2.1
    · obtain ⟨rest, hperm⟩ := exists_perm_cons_cons hc hc' fun heq ↦ hlt.ne (congrArg _ heq)
      obtain ⟨haccepts, hrest⟩ := acceptedCalls_cons_eq_self_iff.1 (h _ hperm)
      exact additive_of_accepts_apply haccepts (acceptedCalls_cons_eq_self_iff.1 hrest).1
        (fun v ↦ schemaOf_new _ v) ht hlt
  · exact fun h calls' hperm ↦ (h.of_perm hperm).acceptedCalls_new

/-! ## The registries are the same

A key is registered once, so the order of the calls does not matter to what is in the registry. -/

/-- The type and the version a call is about. -/
def Registration.key (c : Registration) : String × Version := (c.eventType, c.version)

/-- If every key is registered once, and every call is accepted, the registry holds the schemas of
the calls. -/
theorem schemaOf_registerAll_eq_some_iff (haccepted : new.acceptedCalls calls = calls)
    (hkeys : (calls.map Registration.key).Nodup) {t : String} {v : Version} {s : Value} :
    (registerAll calls).schemaOf t v = some s ↔ ∃ c ∈ calls, c.key = (t, v) ∧ c.schema = s := by
  rw [schemaOf_registerAll, inForce, haccepted, Option.map_eq_some_iff]
  constructor
  · rintro ⟨c, hc, hs⟩
    have hkey : c.eventType = t ∧ c.version = v := by simpa using List.find?_some hc
    exact ⟨c, List.mem_reverse.1 (List.mem_of_find?_eq_some hc), Prod.ext hkey.1 hkey.2, hs⟩
  · rintro ⟨c, hc, hkey, rfl⟩
    cases hfind : calls.reverse.find? fun c ↦ c.eventType = t ∧ c.version = v with
    | none =>
      obtain ⟨ht, hv⟩ := Prod.mk.inj hkey
      simpa [ht, hv] using List.find?_eq_none.1 hfind c (List.mem_reverse.2 hc)
    | some c' =>
      have hkey' : c'.eventType = t ∧ c'.version = v := by simpa using List.find?_some hfind
      have hmem' : c' ∈ calls := List.mem_reverse.1 (List.mem_of_find?_eq_some hfind)
      have hsame : c'.key = c.key := (Prod.ext hkey'.1 hkey'.2).trans hkey.symm
      exact ⟨c', rfl, congrArg _ (List.inj_on_of_nodup_map hkeys hmem' hc hsame)⟩

theorem schemaOf_registerAll_of_perm (h : Compatible calls)
    (hkeys : (calls.map Registration.key).Nodup) (hperm : calls'.Perm calls) (t : String)
    (v : Version) : (registerAll calls').schemaOf t v = (registerAll calls).schemaOf t v := by
  have hkeys' : (calls'.map Registration.key).Nodup := (hperm.map _).nodup_iff.2 hkeys
  refine Option.ext fun s ↦ ?_
  rw [schemaOf_registerAll_eq_some_iff h.acceptedCalls_new hkeys,
    schemaOf_registerAll_eq_some_iff (h.of_perm hperm).acceptedCalls_new hkeys']
  exact exists_congr fun c ↦ and_congr_left fun _ ↦ hperm.mem_iff

/-! ## Versions registered in increasing order

Each version was compared with the one before it, and additivity is transitive. -/

/-- What is accepted could be accepted. -/
theorem exists_accepts_of_mem (haccepted : r.acceptedCalls calls = calls) (hc : c ∈ calls) :
    ∃ r' : SchemaRegistry, r'.Accepts c := by
  induction calls generalizing r with
  | nil => cases hc
  | cons c' calls ih =>
    obtain ⟨hfirst, hrest⟩ := acceptedCalls_cons_eq_self_iff.1 haccepted
    rcases List.mem_cons.1 hc with rfl | hc
    · exact ⟨r, hfirst⟩
    · exact ih hrest hc

/-- Versions that increase are never registered again: each of them is above all that is there. -/
theorem nodup_of_increasing (h : Transition.StepsMeet step AboveRegistered r calls)
    (haccepted : r.acceptedCalls calls = calls) :
    (calls.map Registration.key).Nodup ∧
      ∀ c ∈ calls, r.schemaOf c.eventType c.version = none := by
  induction calls generalizing r with
  | nil => exact ⟨List.nodup_nil, fun _ hc ↦ absurd hc List.not_mem_nil⟩
  | cons c calls ih =>
    obtain ⟨hfirst, hrest⟩ := acceptedCalls_cons_eq_self_iff.1 haccepted
    obtain ⟨habove, hsteps⟩ := h (r.apply c) rfl
    obtain ⟨hnodup, hnew⟩ := ih hsteps hrest
    have hlater : ∀ c' ∈ calls, c.key ≠ c'.key ∧ r.schemaOf c'.eventType c'.version = none := by
      intro c' hc'
      have hnone := hnew c' hc'
      rw [apply_of_accepts hfirst, schemaOf_insert] at hnone
      split at hnone
      · cases hnone
      · rename_i hkey
        exact ⟨fun hsame ↦ hkey (Prod.mk.inj hsame), hnone⟩
    refine ⟨List.nodup_cons.2 ⟨fun hmem ↦ ?_, hnodup⟩, List.forall_mem_cons.2 ⟨?_, fun c' hc' ↦ ?_⟩⟩
    · obtain ⟨c', hc', hsame⟩ := List.mem_map.1 hmem
      exact (hlater c' hc').1 hsame.symm
    · cases hs : r.schemaOf c.eventType c.version with
      | none => rfl
      | some s => exact absurd (habove hfirst c.version s hs) (lt_irrefl _)
    · exact (hlater c' hc').2

/-- **Versions that were accepted in increasing order are compatible.** -/
theorem compatible_of_increasing (h : Transition.StepsMeet step AboveRegistered new calls)
    (haccepted : new.acceptedCalls calls = calls) : Compatible calls := by
  have hkeys := (nodup_of_increasing h haccepted).1
  have hadditive := additiveVersions_of_increasing h
  have hschema : ∀ c ∈ calls, (registerAll calls).schemaOf c.eventType c.version = some c.schema :=
    fun c hc ↦ (schemaOf_registerAll_eq_some_iff haccepted hkeys).2 ⟨c, hc, rfl, rfl⟩
  have hchecks : ∀ c ∈ calls, c.version ≠ 0 ∧ validateSchemaShape c.schema = .ok () := by
    intro c hc
    obtain ⟨r, haccepts⟩ := exists_accepts_of_mem haccepted hc
    obtain ⟨hversion, hshape, -⟩ := accepts_iff_passesChecks.1 haccepts
    exact ⟨hversion, hshape⟩
  refine ⟨fun c hc ↦ (hchecks c hc).1, fun c hc ↦ (hchecks c hc).2, fun c hc c' hc' ht hlt ↦ ?_⟩
  exact hadditive c.eventType c.version c'.version _ _ hlt (hschema c hc) (ht ▸ hschema c' hc')

/-! ## What nobody can tell apart

`schemaOf` is all that `register` and `validate` read of a registry, whatever the order of its hash
map.  So two registries with the same schemas give the same answers, and go on to have the same
schemas. -/

/-- What a call of `register` answers: nothing if it is accepted, and otherwise its error. -/
def outcome (r : SchemaRegistry) (c : Registration) : Except ValidationError Unit :=
  (r.register c.order c.eventType c.version c.schema).map fun _ ↦ ()

/-- The two registries hold the same schemas.  Their hash maps may have been filled in different
orders. -/
def Alike (r r' : SchemaRegistry) : Prop := ∀ t v, r.schemaOf t v = r'.schemaOf t v

section Alike

variable {r' : SchemaRegistry}

theorem Alike.latestSchemaFor (h : r.Alike r') (t : String) (v : Version) :
    r.latestSchemaFor t v = r'.latestSchemaFor t v := by
  refine Option.ext fun s ↦ ?_
  rw [latestSchemaFor_eq_some_iff, latestSchemaFor_eq_some_iff, funext (h t)]

theorem Alike.outcome (h : r.Alike r') (c : Registration) : r.outcome c = r'.outcome c := by
  rw [SchemaRegistry.outcome, SchemaRegistry.outcome, register, register, h.latestSchemaFor]
  split
  · rfl
  · cases validateSchemaShape c.schema with
    | error => rfl
    | ok =>
      cases enforceLatest c.order (r'.latestSchemaFor c.eventType c.version) c.schema <;> rfl

theorem Alike.validate (h : r.Alike r') (order : HashOrders) (t : String) (v : Version)
    (payload : Value) : r.validate order t v payload = r'.validate order t v payload := by
  rw [SchemaRegistry.validate, SchemaRegistry.validate, h]

theorem accepts_iff_outcome : r.Accepts c ↔ r.outcome c = .ok () := by
  rw [Accepts, outcome]
  cases r.register c.order c.eventType c.version c.schema <;> simp [Except.map]

/-- Registries that are alike stay so.  The call is accepted by both or by neither, and inserts the
same schema. -/
theorem Alike.apply (h : r.Alike r') (c : Registration) : (r.apply c).Alike (r'.apply c) := by
  by_cases hc : r.Accepts c
  · have hc' : r'.Accepts c := accepts_iff_outcome.2 (h.outcome c ▸ accepts_iff_outcome.1 hc)
    intro t v
    rw [apply_of_accepts hc, apply_of_accepts hc', schemaOf_insert, schemaOf_insert, h]
  · have hc' : ¬r'.Accepts c := fun hc' ↦
      hc (accepts_iff_outcome.2 ((h.outcome c).trans (accepts_iff_outcome.1 hc')))
    rw [apply_of_not_accepts hc, apply_of_not_accepts hc']
    exact h

theorem Alike.foldl (h : r.Alike r') (more : List Registration) :
    (more.foldl SchemaRegistry.apply r).Alike (more.foldl SchemaRegistry.apply r') := by
  induction more generalizing r r' with
  | nil => exact h
  | cons c more ih => exact ih (h.apply c)

end Alike

/-- **What was accepted in increasing order is accepted in any order, and nobody can tell the
difference**: whatever is registered afterwards, every payload gets the same verdict at every
version, and every call of `register` the same answer. -/
theorem increasing_in_any_order (calls calls' : List Registration)
    (h : Transition.StepsMeet step AboveRegistered new calls)
    (haccepted : new.acceptedCalls calls = calls) (hperm : calls'.Perm calls) :
    new.acceptedCalls calls' = calls' ∧ ∀ more,
      (∀ order t v payload, (registerAll (calls' ++ more)).validate order t v payload =
        (registerAll (calls ++ more)).validate order t v payload) ∧
      ∀ c, (registerAll (calls' ++ more)).outcome c = (registerAll (calls ++ more)).outcome c := by
  have hcompatible := compatible_of_increasing h haccepted
  have hsame : Alike (registerAll calls') (registerAll calls) :=
    schemaOf_registerAll_of_perm hcompatible (nodup_of_increasing h haccepted).1 hperm
  refine ⟨(hcompatible.of_perm hperm).acceptedCalls_new, fun more ↦ ?_⟩
  have hlater : (registerAll (calls' ++ more)).Alike (registerAll (calls ++ more)) := by
    rw [registerAll, registerAll, List.foldl_append, List.foldl_append]
    exact Alike.foldl hsame more
  exact ⟨hlater.validate, hlater.outcome⟩

/-- The second version is registered first. -/
theorem addedProperty_reversed :
    new.acceptedCalls addedProperty.reverse = addedProperty.reverse ∧
      ∀ order t v payload, (registerAll addedProperty.reverse).validate order t v payload =
        (registerAll addedProperty).validate order t v payload := by
  obtain ⟨haccepted, hmore⟩ := increasing_in_any_order addedProperty addedProperty.reverse
    stepsMeet_addedProperty rfl (List.reverse_perm addedProperty)
  exact ⟨haccepted, (hmore []).1⟩

end SchemaRegistry

end PhenoEvents
