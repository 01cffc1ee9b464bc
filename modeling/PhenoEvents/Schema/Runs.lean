import PhenoEvents.Library.Transition
import PhenoEvents.Library.Versioned
import PhenoEvents.Schema.Conformance

/-!
# Runs of the registry

What one call does to the function `schemaOf`, and the induction over a run of calls.

`latestSchemaFor` scans the hash map; `latestSchemaFor_eq_some_iff` says that it finds the schema of
the latest lower version, in the sense of `Versioned.IsLatestBelow`, whatever the order of the scan.
Everything after that is about `schemaOf` only: an accepted call is a `Function.update`
(`schemaOf_insert_self`), a rejected one changes nothing (`apply_of_not_accepts`).

A sequence of calls is a run of a transition system in which every call is enabled, so that the
rules about runs can be used (`run_step`).  The iteration order of the hash collections may be
another one in every call; it is part of the call, and no result depends on it.

## What is here

* `latestSchemaFor_eq_some_iff`, the only place that looks at the rows of the map.
* `register_eq_ok_iff`: a call is accepted if its version is not zero, its schema has the right
  shape, and it is additive over the latest version below; then it inserts its schema.
* `validate_eq_ok_iff`: a payload is accepted if it conforms to the schema of its version.
* `step` and `run_step`, for what is said about runs of calls elsewhere.

The comparison is with one version only.  A version that is registered below another one is not
compared with it, and a version that is registered again is not compared with what it replaces.
-/

set_option autoImplicit false

namespace PhenoEvents

namespace SchemaRegistry

open Except

theorem schemaOf_eq_some_iff {r : SchemaRegistry} {t : String} {v : Version} {s : Value} :
    r.schemaOf t v = some s ↔ (⟨t, v, s⟩ : SchemaEntry) ∈ r.schemas.rows := by
  rw [schemaOf, Option.map_eq_some_iff]
  constructor
  · rintro ⟨e, he, rfl⟩
    have hkey : e.key = (t, v) := KeyedTable.key_of_lookup he
    obtain ⟨rfl, rfl⟩ := Prod.mk.inj hkey
    exact KeyedTable.mem_of_lookup he
  · intro h
    exact ⟨⟨t, v, s⟩, KeyedTable.lookup_of_mem h, rfl⟩

@[simp] theorem schemaOf_new (t : String) (v : Version) : new.schemaOf t v = none := rfl

/-- **The scan finds the latest lower version.**  There is at most one row for a type and a version,
so the greatest version is in one row only. -/
theorem latestSchemaFor_eq_some_iff {r : SchemaRegistry} {t : String} {v : Version} {s : Value} :
    r.latestSchemaFor t v = some s ↔
      ∃ u, Versioned.IsLatestBelow (r.schemaOf t) v u ∧ r.schemaOf t u = some s := by
  have hmem : ∀ e : SchemaEntry,
      e ∈ (r.schemas.rows.filter fun e : SchemaEntry ↦ e.eventType = t ∧ e.version < v) ↔
        r.schemaOf t e.version = some e.schema ∧ e.eventType = t ∧ e.version < v := by
    intro e
    rw [List.mem_filter, decide_eq_true_eq, schemaOf_eq_some_iff]
    exact and_congr_left fun h ↦ by rw [← h.1]
  rw [latestSchemaFor, Option.map_eq_some_iff]
  constructor
  · rintro ⟨e, he, rfl⟩
    obtain ⟨hs, -, hlt⟩ := (hmem e).1 (List.argmax_mem he)
    refine ⟨e.version, ⟨⟨hlt, by rw [hs]; rfl⟩, ?_⟩, hs⟩
    rintro u ⟨hu, hsome⟩
    obtain ⟨s', hs'⟩ := Option.isSome_iff_exists.1 hsome
    exact List.le_of_mem_argmax ((hmem ⟨t, u, s'⟩).2 ⟨hs', rfl, hu⟩) he
  · rintro ⟨u, hu, hs⟩
    have hu' := (hmem ⟨t, u, s⟩).2 ⟨hs, rfl, hu.1.1⟩
    obtain ⟨e, he⟩ := Option.ne_none_iff_exists'.1
      (mt (List.argmax_eq_none (f := SchemaEntry.version)).1 (List.ne_nil_of_mem hu'))
    obtain ⟨hse, -, hlt⟩ := (hmem e).1 (List.argmax_mem he)
    have heu : e.version = u :=
      le_antisymm (hu.2 ⟨hlt, by rw [hse]; rfl⟩) (List.le_of_mem_argmax hu' he)
    rw [heu, hs, Option.some_inj] at hse
    exact ⟨e, he, hse.symm⟩

/-! ## One call

A call of `register` is about one event type, and inserts under one version of it or nothing. -/

/-- Inserting under a version replaces what was there under it, and keeps the other versions. -/
theorem schemaOf_insert_self (r : SchemaRegistry) (t : String) (v : Version) (s : Value) :
    (r.insert t v s).schemaOf t = Function.update (r.schemaOf t) v (some s) := by
  funext u
  by_cases hu : u = v
  · subst hu
    rw [Function.update_self, schemaOf, insert]
    have h := r.schemas.lookup_upsert_self ⟨t, u, s⟩ (fun _ ↦ ⟨t, u, s⟩) fun _ h ↦ h.symm
    rw [show (t, u) = SchemaEntry.key ⟨t, u, s⟩ from rfl, h]
    cases r.schemas.lookup (SchemaEntry.key ⟨t, u, s⟩) <;> rfl
  · rw [Function.update_of_ne hu, schemaOf, insert, KeyedTable.lookup_upsert_of_ne, schemaOf]
    exact fun h ↦ hu (Prod.mk.inj h).2.symm

theorem schemaOf_insert_of_ne (r : SchemaRegistry) {t t' : String} (h : t' ≠ t) (v : Version)
    (s : Value) : (r.insert t v s).schemaOf t' = r.schemaOf t' := by
  funext u
  rw [schemaOf, insert, KeyedTable.lookup_upsert_of_ne, schemaOf]
  exact fun h' ↦ h (Prod.mk.inj h').1.symm

/-- The comparison passes if there is no version below, or the schema is additive over the latest
one. -/
theorem enforceLatest_eq_ok_iff {r : SchemaRegistry} {order : HashOrders} {t : String}
    {v : Version} {s : Value} :
    enforceLatest order (r.latestSchemaFor t v) s = .ok () ↔
      ∀ u p, Versioned.IsLatestBelow (r.schemaOf t) v u → r.schemaOf t u = some p →
        Additive p s := by
  cases hl : r.latestSchemaFor t v with
  | none =>
    refine ⟨fun _ u p hu hp ↦ ?_, fun _ ↦ rfl⟩
    rw [latestSchemaFor_eq_some_iff.2 ⟨u, hu, hp⟩] at hl
    cases hl
  | some previous =>
    obtain ⟨u, hu, hp⟩ := latestSchemaFor_eq_some_iff.1 hl
    rw [enforceLatest, enforceAdditivePolicy_eq_ok_iff]
    refine ⟨fun h u' p hu' hp' ↦ ?_, fun h ↦ h u previous hu hp⟩
    rw [Versioned.isLatestBelow_unique hu' hu, hp, Option.some_inj] at hp'
    exact hp' ▸ h

/-- **What `register` accepts**, and what it leaves.  The order of the hash collections decides
which error is reported, but not whether there is one. -/
theorem register_eq_ok_iff {r r' : SchemaRegistry} {order : HashOrders} {t : String} {v : Version}
    {s : Value} :
    r.register order t v s = .ok r' ↔ v ≠ 0 ∧ validateSchemaShape s = .ok () ∧
      (∀ u p, Versioned.IsLatestBelow (r.schemaOf t) v u → r.schemaOf t u = some p →
        Additive p s) ∧ r' = r.insert t v s := by
  rw [register]
  by_cases hv : v = 0
  · simp [hv]
  · rw [if_neg hv, check_bind_eq_ok_iff, check_bind_eq_ok_iff, enforceLatest_eq_ok_iff]
    simp [hv, pure, Except.pure, eq_comm]

theorem apply_of_accepts {r : SchemaRegistry} {c : Registration} (h : r.Accepts c) :
    r.apply c = r.insert c.eventType c.version c.schema := by
  obtain ⟨r', hr⟩ := h
  rw [apply, hr]
  exact (register_eq_ok_iff.1 hr).2.2.2

theorem apply_of_not_accepts {r : SchemaRegistry} {c : Registration} (h : ¬r.Accepts c) :
    r.apply c = r := by
  rw [apply]
  split
  · rename_i r' hr; exact absurd ⟨r', hr⟩ h
  · rfl

/-- **`validate` accepts exactly the conforming payloads of a registered version.** -/
theorem validate_eq_ok_iff {r : SchemaRegistry} {order : HashOrders} {t : String} {v : Version}
    {payload : Value} :
    r.validate order t v payload = .ok () ↔
      v ≠ 0 ∧ ∃ s, r.schemaOf t v = some s ∧ Conforms s payload := by
  rw [validate]
  by_cases hv : v = 0
  · simp [hv]
  · rw [if_neg hv]
    cases hs : r.schemaOf t v with
    | none => simp
    | some s => simp [mapError_eq_ok_iff, validateAgainstSchema_eq_ok_iff, hv]

/-! ## Sequences of calls

A call that is rejected is a step as well, one that changes nothing. -/

/-- The registry as a transition system: every call is enabled. -/
def step (r : SchemaRegistry) (c : Registration) : Option SchemaRegistry := some (r.apply c)

theorem run_step (r : SchemaRegistry) (calls : List Registration) :
    Transition.run step r calls = some (calls.foldl apply r) := by
  induction calls generalizing r with
  | nil => rfl
  | cons c calls ih => rw [Transition.run, step, Option.bind_some, ih, List.foldl_cons]

theorem visits_registerAll (calls : List Registration) :
    Transition.Visits step new calls (registerAll calls) :=
  Transition.visits_of_run (run_step new calls)

end SchemaRegistry

end PhenoEvents
