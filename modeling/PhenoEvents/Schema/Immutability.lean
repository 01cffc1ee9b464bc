import PhenoEvents.Schema.Declared
import PhenoEvents.Schema.Evolution

/-!
# Registering a version again

A consumer that is pinned to a version relies on its verdicts never changing.  Versions do not
disturb each other, but `register` does not look whether the version it is given exists: it inserts,
and an insert replaces.  `verdicts_stable_iff` says that the verdicts of all registered versions
last exactly as long as no accepted call gives a version another meaning.

## What is here

* `SameMeaning`: the two schemas admit the same payloads.  They need not be the same text: the order
  of the required fields, or a keyword nobody reads, makes no difference.
* `Preserves`: every registered version is still there, with the same meaning.  It is a preorder on
  registries, so it holds between any two moments of a run exactly if it holds for every step.
* `KeepsMeaning`: the condition on a call, and `verdicts_stable_iff`.
* `verdicts_stable_of_unchanged`: what a caller can keep to without knowing what a schema means.

What replaces a version still has to be additive over the version below.  That does not help: it may
declare the type of the root for the first time.
-/

set_option autoImplicit false

namespace PhenoEvents

namespace SchemaRegistry

open Transition

/-- The two schemas admit the same payloads. -/
def SameMeaning (s s' : Value) : Prop := ∀ payload, Admits s payload ↔ Admits s' payload

/-- Every registered version is still there, with the same meaning.  Versions may have been added.
-/
def Preserves (r r' : SchemaRegistry) : Prop :=
  ∀ t v s, r.schemaOf t v = some s → ∃ s', r'.schemaOf t v = some s' ∧ SameMeaning s s'

theorem Preserves.refl (r : SchemaRegistry) : r.Preserves r := fun _ _ s hs ↦
  ⟨s, hs, fun _ ↦ Iff.rfl⟩

theorem Preserves.trans {a b c : SchemaRegistry} (h : a.Preserves b) (h' : b.Preserves c) :
    a.Preserves c := by
  intro t v s hs
  obtain ⟨s', hs', hsame⟩ := h t v s hs
  obtain ⟨s'', hs'', hsame'⟩ := h' t v s' hs'
  exact ⟨s'', hs'', fun payload ↦ (hsame payload).trans (hsame' payload)⟩

/-- If the call passes the checks and its version is registered, its schema means the same.  Every
other call meets this. -/
def KeepsMeaning (r : SchemaRegistry) (c : Registration) : Prop :=
  r.PassesChecks c → ∀ s, r.schemaOf c.eventType c.version = some s → SameMeaning s c.schema

theorem preserves_apply_iff {r : SchemaRegistry} {c : Registration} :
    r.Preserves (r.apply c) ↔ r.KeepsMeaning c := by
  by_cases hc : r.Accepts c
  · rw [apply_of_accepts hc]
    constructor
    · intro h _ s hs
      obtain ⟨s', hs', hsame⟩ := h _ _ s hs
      rw [schemaOf_insert, if_pos ⟨rfl, rfl⟩, Option.some_inj] at hs'
      exact hs' ▸ hsame
    · intro h t v s hs
      rw [schemaOf_insert]
      by_cases hkey : c.eventType = t ∧ c.version = v
      · obtain ⟨rfl, rfl⟩ := hkey
        exact ⟨c.schema, if_pos ⟨rfl, rfl⟩, h (accepts_iff_passesChecks.1 hc) s hs⟩
      · exact ⟨s, by rw [if_neg hkey, hs], fun _ ↦ Iff.rfl⟩
  · rw [apply_of_not_accepts hc]
    exact ⟨fun _ hpass ↦ absurd (accepts_iff_passesChecks.2 hpass) hc, fun _ ↦ .refl r⟩

/-- A registered version stays registered. -/
theorem isSome_schemaOf_foldl {r : SchemaRegistry} {t : String} {v : Version}
    (h : (r.schemaOf t v).isSome) (calls : List Registration) :
    ((calls.foldl apply r).schemaOf t v).isSome := by
  rw [schemaOf_foldl, Option.isSome_or, h, Bool.or_true]

/-- Verdicts on the versions registered before last exactly if these versions are preserved. -/
theorem preserves_iff_verdicts (before later : List Registration) :
    (registerAll before).Preserves (registerAll (before ++ later)) ↔
      ∀ t v, ((registerAll before).schemaOf t v).isSome → ∀ order order' payload,
        ((registerAll (before ++ later)).validate order' t v payload = .ok () ↔
          (registerAll before).validate order t v payload = .ok ()) := by
  constructor
  · intro h t v hsome order order' payload
    obtain ⟨s, hs⟩ := Option.isSome_iff_exists.1 hsome
    obtain ⟨s', hs', hsame⟩ := h t v s hs
    rw [validate_registered_iff hs, validate_registered_iff hs']
    exact (hsame payload).symm
  · intro h t v s hs
    have hstays : ((registerAll (before ++ later)).schemaOf t v).isSome := by
      rw [registerAll, List.foldl_append]
      exact isSome_schemaOf_foldl (Option.isSome_of_eq_some hs) later
    obtain ⟨s', hs'⟩ := Option.isSome_iff_exists.1 hstays
    refine ⟨s', hs', fun payload ↦ ?_⟩
    have hverdict := h t v (Option.isSome_of_eq_some hs) .inserted .inserted payload
    rw [validate_registered_iff hs, validate_registered_iff hs'] at hverdict
    exact hverdict.symm

/-- Registered versions are preserved from any call to any later one exactly if each call preserves
them: the relation is a preorder, and a call that is rejected changes nothing. -/
theorem preserves_iff_stepsMeet (calls : List Registration) :
    (∀ before later, before ++ later <+: calls →
      (registerAll before).Preserves (registerAll (before ++ later))) ↔
      StepsMeet step KeepsMeaning new calls := by
  have hlater : _ ↔ StepsMeet step (fun r c ↦ ∀ t, step r c = some t → Preserves r t) new calls :=
    later_related_iff_stepsMeet Preserves.refl fun _ _ _ ↦ Preserves.trans
  simp only [run_step, step, Option.some_inj, forall_eq', preserves_apply_iff] at hlater
  rw [← hlater]
  refine forall₂_congr fun before later ↦ ⟨?_, fun h hpre ↦ ?_⟩
  · rintro h _ _ hpre rfl rfl
    have hpreserves := h hpre
    rwa [registerAll, registerAll, List.foldl_append] at hpreserves
  · rw [registerAll, registerAll, List.foldl_append]
    exact h _ _ hpre rfl rfl

/-- **The verdicts on registered versions never change exactly if no accepted call gives one of them
another meaning.**  Only a call for a version that is there can do so; `register` replaces the
schema without looking at the one it replaces. -/
theorem verdicts_stable_iff (calls : List Registration) :
    (∀ before later, before ++ later <+: calls →
      ∀ t v, ((registerAll before).schemaOf t v).isSome → ∀ order order' payload,
        ((registerAll (before ++ later)).validate order' t v payload = .ok () ↔
          (registerAll before).validate order t v payload = .ok ())) ↔
      StepsMeet step KeepsMeaning new calls := by
  rw [← preserves_iff_stepsMeet]
  exact forall₂_congr fun before later ↦ forall_congr' fun _ ↦
    (preserves_iff_verdicts before later).symm

/-! ## Schemas that are never replaced

The condition is one on meanings.  A caller can keep to a simpler one, on the arguments of the calls
alone: not to register a version again, or only with the schema it has. -/

/-- No version is given two different schemas. -/
def Unchanged (calls : List Registration) : Prop :=
  ∀ c ∈ calls, ∀ c' ∈ calls, c.eventType = c'.eventType → c.version = c'.version →
    c.schema = c'.schema

/-- What is registered was registered by one of the calls. -/
theorem exists_mem_of_schemaOf {calls : List Registration} {t : String} {v : Version} {s : Value}
    (h : (registerAll calls).schemaOf t v = some s) :
    ∃ c ∈ calls, c.eventType = t ∧ c.version = v ∧ c.schema = s := by
  induction calls using List.reverseRecOn with
  | nil => cases h
  | append_singleton calls c ih =>
    rw [registerAll, List.foldl_append, ← registerAll, List.foldl_cons, List.foldl_nil] at h
    have hold : (registerAll calls).schemaOf t v = some s →
        ∃ c' ∈ calls ++ [c], c'.eventType = t ∧ c'.version = v ∧ c'.schema = s := fun hs ↦
      (ih hs).imp fun c' hc' ↦ ⟨List.mem_append_left _ hc'.1, hc'.2⟩
    by_cases hc : (registerAll calls).Accepts c
    · rw [apply_of_accepts hc, schemaOf_insert] at h
      split at h
      · rename_i hkey
        exact ⟨c, List.mem_append_right _ List.mem_cons_self, hkey.1, hkey.2, Option.some_inj.1 h⟩
      · exact hold h
    · rw [apply_of_not_accepts hc] at h
      exact hold h

/-- **If no version is given two schemas, no call gives one another meaning.** -/
theorem keepsMeaning_of_unchanged {calls : List Registration} (h : Unchanged calls) :
    StepsMeet step KeepsMeaning new calls := by
  refine stepsMeet_of_forall fun front c r _ hpre hrun _ _ s hs payload ↦ ?_
  obtain rfl := Option.some_inj.1 ((run_step new front).symm.trans hrun)
  obtain ⟨c', hc', ht, hv, rfl⟩ := exists_mem_of_schemaOf hs
  have hmem : ∀ d ∈ front ++ [c], d ∈ calls := fun d hd ↦ hpre.subset hd
  rw [h c' (hmem c' (List.mem_append_left _ hc')) c
    (hmem c (List.mem_append_right _ List.mem_cons_self)) ht hv]

/-- **If no version is given two schemas, no verdict ever changes.** -/
theorem verdicts_stable_of_unchanged {calls before later : List Registration} (h : Unchanged calls)
    (hpre : before ++ later <+: calls) {t : String} {v : Version}
    (hsome : ((registerAll before).schemaOf t v).isSome) (order order' : HashOrders)
    (payload : Value) : (registerAll (before ++ later)).validate order' t v payload = .ok () ↔
      (registerAll before).validate order t v payload = .ok () := by
  have hpreserves :=
    (preserves_iff_stepsMeet calls).2 (keepsMeaning_of_unchanged h) before later hpre
  exact (preserves_iff_verdicts before later).1 hpreserves t v hsome order order' payload

/-- Version 1 accepts anything, and after a second call only strings. -/
def overwritten : List Registration :=
  [⟨.inserted, "user.created", 1, anything⟩, ⟨.inserted, "user.created", 1, ofType "string"⟩]

/-- Both calls are accepted, and the payload `{}` is no longer valid. -/
theorem overwritten_not_stable :
    ¬∀ before later : List Registration, ∀ t v, ((registerAll before).schemaOf t v).isSome →
      ∀ order order' payload,
        ((registerAll (before ++ later)).validate order' t v payload = .ok () ↔
          (registerAll before).validate order t v payload = .ok ()) := by
  intro h
  have hverdict := h (overwritten.take 1) (overwritten.drop 1) "user.created" 1
    (by decide) .inserted
    .inserted .emptyObject
  exact absurd (hverdict.2 (by decide)) (by decide)

end SchemaRegistry

end PhenoEvents
