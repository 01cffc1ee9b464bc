import Mathlib.Data.Finset.Card
import Mathlib.Data.List.Nodup

/-!
# The first of each key

What is left of a list when everything that repeats an earlier key is thrown away: the contents of a
table after a sequence of `INSERT OR IGNORE`s.  `firsts_concat` is the induction step: a new element
is dropped if its key has been there, and goes to the end if not.

## What is here

* `firsts`, with what it keeps and what it does not: nothing is added (`mem_of_mem_firsts`), no key
  is lost (`mem_map_firsts_iff`) and none is repeated (`nodup_map_firsts`).
* `firsts_concat`, by which a proof that goes along a history never looks at the recursion.
* `firsts_isPrefix`: the firsts of a longer history begin with those of a shorter one.  An element
  that has been the first of its key stays it.
* `length_firsts`: there are as many as there are keys.
* `concat_isPrefix` and `subset_of_isPrefix`, for a list that is being worked off from the front.
  They say when one more element can be taken and what must have been taken before it.
-/

set_option autoImplicit false

universe u v

namespace List

variable {α : Type u} {κ : Type v} [DecidableEq κ] {key : α → κ}

/-- The elements of a list that do not repeat the key of an earlier one. -/
def firsts (key : α → κ) : List α → List α
  | [] => []
  | a :: l => a :: (firsts key l).filter fun b ↦ key b ≠ key a

/-- Nothing is added. -/
theorem mem_of_mem_firsts {l : List α} {a : α} (h : a ∈ l.firsts key) : a ∈ l := by
  induction l with
  | nil => exact h
  | cons b l ih =>
    rcases mem_cons.1 h with rfl | ha
    · exact mem_cons_self
    · exact mem_cons_of_mem b (ih (mem_of_mem_filter ha))

/-- No key is lost. -/
theorem mem_map_firsts_iff {l : List α} {k : κ} : k ∈ (l.firsts key).map key ↔ k ∈ l.map key := by
  induction l with
  | nil => exact Iff.rfl
  | cons a l ih =>
    rw [firsts, map_cons, map_cons, mem_cons, mem_cons, ← ih]
    by_cases hk : k = key a
    · simp [hk]
    · simp only [hk, false_or, mem_map, mem_filter, decide_eq_true_eq]
      exact exists_congr fun b ↦ ⟨fun ⟨⟨hb, _⟩, h⟩ ↦ ⟨hb, h⟩, fun ⟨hb, h⟩ ↦ ⟨⟨hb, h ▸ hk⟩, h⟩⟩

/-- No key is repeated. -/
theorem nodup_map_firsts (key : α → κ) (l : List α) : ((l.firsts key).map key).Nodup := by
  induction l with
  | nil => exact nodup_nil
  | cons a l ih =>
    rw [firsts, map_cons, nodup_cons]
    refine ⟨fun ha ↦ ?_, ih.sublist (filter_sublist.map key)⟩
    obtain ⟨b, hb, hkey⟩ := mem_map.1 ha
    simp [hkey] at hb

/-- **A new element is dropped if its key has been there, and goes to the end if not.** -/
theorem firsts_concat (l : List α) (a : α) :
    (l ++ [a]).firsts key = if key a ∈ l.map key then l.firsts key else l.firsts key ++ [a] := by
  induction l with
  | nil => rfl
  | cons b l ih =>
    rw [cons_append, firsts, ih, firsts, map_cons]
    by_cases hl : key a ∈ l.map key
    · rw [if_pos hl, if_pos (mem_cons_of_mem _ hl)]
    · rw [if_neg hl, filter_append]
      by_cases hb : key a = key b
      · rw [if_pos (hb ▸ mem_cons_self), filter_singleton]
        simp [hb]
      · rw [if_neg fun h ↦ (mem_cons.1 h).elim hb hl, filter_singleton]
        simp [hb]

/-- A longer list keeps the firsts. -/
theorem firsts_isPrefix {l l' : List α} (h : l <+: l') : l.firsts key <+: l'.firsts key := by
  obtain ⟨rest, rfl⟩ := h
  induction rest using reverseRecOn with
  | nil => rw [append_nil]
  | append_singleton rest a ih =>
    rw [← append_assoc, firsts_concat]
    split
    · exact ih
    · exact ih.trans (prefix_append _ _)

/-- There is one element for each key. -/
theorem length_firsts (key : α → κ) (l : List α) :
    (l.firsts key).length = (l.map key).toFinset.card := by
  have hkeys : ((l.firsts key).map key).toFinset = (l.map key).toFinset := by
    ext k
    rw [mem_toFinset, mem_toFinset, mem_map_firsts_iff]
  rw [← hkeys, toFinset_card_of_nodup (nodup_map_firsts key l), length_map]

/-! ## Prefixes

Somebody takes the elements of a list one by one.  What has been taken is a front of the list, as
long as the next one taken is the oldest of those that are left. -/

/-- A front of a list that has all that comes before an element can be continued with it. -/
theorem concat_isPrefix {l before behind : List α} {a : α} (hl : l <+: before ++ a :: behind)
    (hbefore : ∀ b ∈ before, b ∈ l) (ha : a ∉ l) (hnodup : (before ++ a :: behind).Nodup) :
    l ++ [a] <+: before ++ a :: behind := by
  induction before generalizing l with
  | nil =>
    cases l with
    | nil => exact ⟨behind, rfl⟩
    | cons b l => exact absurd (mem_cons.2 (Or.inl (cons_prefix_cons.1 hl).1.symm)) ha
  | cons b before ih =>
    cases l with
    | nil => exact absurd (hbefore b mem_cons_self) not_mem_nil
    | cons c l =>
      obtain ⟨rfl, hrest⟩ := cons_prefix_cons.1 hl
      obtain ⟨hc, hnodup⟩ := nodup_cons.1 hnodup
      refine cons_prefix_cons.2 ⟨rfl, ih hrest (fun b hb ↦ ?_) (fun h ↦ ha (mem_cons_of_mem _ h))
        hnodup⟩
      refine (mem_cons.1 (hbefore b (mem_cons_of_mem _ hb))).resolve_left fun h ↦ hc ?_
      exact mem_append_left _ (h ▸ hb)

/-- A front of a list that has an element has all that comes before it. -/
theorem subset_of_isPrefix {l before behind : List α} {a : α} (hl : l <+: before ++ a :: behind)
    (ha : a ∈ l) (hnodup : (before ++ a :: behind).Nodup) : before ⊆ l := by
  rcases prefix_or_prefix_of_prefix hl (prefix_append before (a :: behind)) with h | h
  · exact absurd (h.subset ha) fun hmem ↦ (nodup_append.1 hnodup).2.2 a hmem a mem_cons_self rfl
  · exact h.subset

end List
