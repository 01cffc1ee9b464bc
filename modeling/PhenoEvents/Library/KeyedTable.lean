import Mathlib.Algebra.BigOperators.Group.List.Basic
import Mathlib.Data.List.Nodup
import Mathlib.Data.List.MinMax
import Mathlib.Order.OrderDual
import Mathlib.Tactic.Abel

/-!
# Tables with a primary key

A table is a list of rows, in the order in which they were first inserted, no two of which have the
same key.  The operations are the SQL statements a program sends to such a table, and the lemmas say
what each of them does to a lookup, so that no proof ever has to look at the list.

That the keys are different is a field of the table and not an assumption of the lemmas.  An
operation that might change a key, such as an update, takes the proof that it does not as an
argument.

## What is here

* `insertOrIgnore` is `INSERT OR IGNORE`, `upsert` is `INSERT … ON CONFLICT DO UPDATE`, and
  `updateWhere` is `UPDATE … WHERE`, which must leave the key alone.
* `KeyedTable.firstBy` is `SELECT … ORDER BY … LIMIT 1`: the order of rows that tie is not specified
  by SQL, so the caller hands over a number that picks among them.
* `KeyedTable.mapRows` rewrites every row without touching the key, which is how two tables are
  compared up to a column.
* `KeyedTable.filterRows` keeps the rows with a property, which is how a table is compared with what
  it would be without the others.

For each operation there are the same few lemmas: what it does to the row that is looked up, that it
does nothing to the others, what becomes of the keys, when it changes nothing at all
(`…_eq_self_iff`), and when it commutes with `mapRows` and `filterRows`.  Two kinds are used where
the rows are counted or summed up: `rows_updateWhere_of_split` puts the row that is updated between
those in front of it and those behind, and `sum_rows_updateWhere` says what this adds to a sum.

The rows are never deleted, so a row keeps its position for ever: position `i` is rowid `i + 1`.
-/

set_option autoImplicit false

universe u v w

/-- A list of rows in insertion order, no two with the same key. -/
structure KeyedTable {κ : Type u} {ρ : Type v} (key : ρ → κ) where
  /-- The rows, in the order of their first insertion. -/
  rows : List ρ
  /-- The key is unique. -/
  nodup : (rows.map key).Nodup

namespace KeyedTable

variable {κ : Type u} {ρ : Type v} {key : ρ → κ}

/-- The table without rows. -/
def empty : KeyedTable key := ⟨[], List.nodup_nil⟩

theorem ext {t u : KeyedTable key} (h : t.rows = u.rows) : t = u := by
  cases t; cases u; cases h; rfl

/-- Rows with the same key are the same row. -/
theorem eq_of_mem_of_key_eq (t : KeyedTable key) {r s : ρ} (hr : r ∈ t.rows) (hs : s ∈ t.rows)
    (h : key r = key s) : r = s :=
  List.inj_on_of_nodup_map t.nodup hr hs h

section Lookup

variable [DecidableEq κ]

/-- The row with key `k`, if there is one.  There is no other, as keys are different. -/
def lookup (t : KeyedTable key) (k : κ) : Option ρ := t.rows.find? fun r ↦ key r = k

theorem lookup_eq_some_iff {t : KeyedTable key} {k : κ} {r : ρ} :
    t.lookup k = some r ↔ r ∈ t.rows ∧ key r = k := by
  constructor
  · intro h
    exact ⟨List.mem_of_find?_eq_some h, by simpa using List.find?_some h⟩
  · rintro ⟨hr, rfl⟩
    cases h : t.lookup (key r) with
    | none => simpa using List.find?_eq_none.1 h r hr
    | some s =>
      have hs : key s = key r := by simpa using List.find?_some h
      rw [t.eq_of_mem_of_key_eq (List.mem_of_find?_eq_some h) hr hs]

theorem lookup_eq_none_iff {t : KeyedTable key} {k : κ} :
    t.lookup k = none ↔ ∀ r ∈ t.rows, key r ≠ k := by
  simp [lookup]

theorem lookup_of_mem {t : KeyedTable key} {r : ρ} (h : r ∈ t.rows) : t.lookup (key r) = some r :=
  lookup_eq_some_iff.2 ⟨h, rfl⟩

theorem key_of_lookup {t : KeyedTable key} {k : κ} {r : ρ} (h : t.lookup k = some r) : key r = k :=
  (lookup_eq_some_iff.1 h).2

theorem mem_of_lookup {t : KeyedTable key} {k : κ} {r : ρ} (h : t.lookup k = some r) :
    r ∈ t.rows :=
  (lookup_eq_some_iff.1 h).1

theorem mem_keys_iff {t : KeyedTable key} {k : κ} : k ∈ t.rows.map key ↔ t.lookup k ≠ none := by
  rw [Ne, lookup_eq_none_iff, List.mem_map]
  push Not
  exact Iff.rfl

end Lookup

/-! ## Updating rows in place

An update selects rows by a predicate and rewrites them by a function.  Most statements select by
key, and then at most one row is rewritten; the lemmas for that case have `hr` and `hp`, which say
that the predicate accepts a row and that it accepts no other key. -/

/-- `UPDATE … SET f WHERE p`: rewrite the rows satisfying `p`, leaving their key alone. -/
def updateWhere (t : KeyedTable key) (p : ρ → Bool) (f : ρ → ρ)
    (hf : ∀ r, p r = true → key (f r) = key r) : KeyedTable key where
  rows := t.rows.map fun r ↦ if p r then f r else r
  nodup := by
    have h : (fun r ↦ key (if p r then f r else r)) = key := by
      funext r
      split
      · rename_i hp; exact hf r hp
      · rfl
    rw [List.map_map, Function.comp_def, h]
    exact t.nodup

theorem mem_updateWhere {t : KeyedTable key} {p : ρ → Bool} {f : ρ → ρ}
    {hf : ∀ r, p r = true → key (f r) = key r} {s : ρ} :
    s ∈ (t.updateWhere p f hf).rows ↔ ∃ r ∈ t.rows, (if p r then f r else r) = s :=
  List.mem_map

theorem key_ite_updateWhere {p : ρ → Bool} {f : ρ → ρ} (hf : ∀ r, p r = true → key (f r) = key r)
    (r : ρ) : key (if p r then f r else r) = key r := by
  split
  · rename_i hp; exact hf r hp
  · rfl

/-- An update does not show in a column it leaves alone. -/
theorem map_rows_updateWhere {τ : Type*} (t : KeyedTable key) {p : ρ → Bool} {f : ρ → ρ}
    (hf : ∀ r, p r = true → key (f r) = key r) {g : ρ → τ} (hg : ∀ r, p r = true → g (f r) = g r) :
    (t.updateWhere p f hf).rows.map g = t.rows.map g := by
  rw [updateWhere, List.map_map]
  refine List.map_congr_left fun r _ ↦ ?_
  show g (if p r then f r else r) = g r
  split
  · rename_i hp; exact hg r hp
  · rfl

theorem keys_updateWhere (t : KeyedTable key) {p : ρ → Bool} {f : ρ → ρ}
    (hf : ∀ r, p r = true → key (f r) = key r) :
    (t.updateWhere p f hf).rows.map key = t.rows.map key :=
  t.map_rows_updateWhere hf hf

/-- A row has its key to itself. -/
theorem key_ne_of_split {t : KeyedTable key} {before behind : List ρ} {r : ρ}
    (h : t.rows = before ++ r :: behind) : ∀ s ∈ before ++ behind, key s ≠ key r := by
  have hnodup := t.nodup
  rw [h, List.map_append, List.map_cons, List.nodup_middle, ← List.map_append,
    List.nodup_cons] at hnodup
  exact fun s hs hkey ↦ hnodup.1 (hkey ▸ List.mem_map_of_mem hs)

/-- An update of one row stays in its place, between the rows before and behind it. -/
theorem rows_updateWhere_of_split {t : KeyedTable key} {p : ρ → Bool} {f : ρ → ρ}
    (hf : ∀ r, p r = true → key (f r) = key r) {before behind : List ρ} {r : ρ}
    (h : t.rows = before ++ r :: behind) (hr : p r = true)
    (hp : ∀ s, p s = true → key s = key r) :
    (t.updateWhere p f hf).rows = before ++ f r :: behind := by
  have hnodup : (before ++ r :: behind).Nodup := h ▸ t.nodup.of_map key
  have hne : r ∉ before ++ behind := (List.nodup_cons.1 (List.nodup_middle.1 hnodup)).1
  have hother : ∀ s ∈ before ++ behind, (if p s then f s else s) = s := by
    intro s hs
    have hmem : s ∈ t.rows := by
      rw [h]
      exact List.mem_append.2 ((List.mem_append.1 hs).imp_right (List.mem_cons_of_mem r))
    have hmem' : r ∈ t.rows := h ▸ List.mem_append_right _ List.mem_cons_self
    exact if_neg fun hps ↦ hne (t.eq_of_mem_of_key_eq hmem hmem' (hp s hps) ▸ hs)
  have hbefore : before.map (fun s ↦ if p s then f s else s) = before :=
    (List.map_congr_left fun s hs ↦ hother s (List.mem_append_left _ hs)).trans (List.map_id _)
  have hbehind : behind.map (fun s ↦ if p s then f s else s) = behind :=
    (List.map_congr_left fun s hs ↦ hother s (List.mem_append_right _ hs)).trans (List.map_id _)
  show t.rows.map (fun s ↦ if p s then f s else s) = before ++ f r :: behind
  rw [h, List.map_append, List.map_cons, if_pos hr, hbefore, hbehind]

/-- What an update of one row adds to a sum over the rows: its new value, in place of the old one.
-/
theorem sum_rows_updateWhere {M : Type w} [AddCommGroup M] {t : KeyedTable key} {p : ρ → Bool}
    {f : ρ → ρ} (hf : ∀ r, p r = true → key (f r) = key r) {r : ρ} (hmem : r ∈ t.rows)
    (hr : p r = true) (hp : ∀ s, p s = true → key s = key r) (g : ρ → M) :
    ((t.updateWhere p f hf).rows.map g).sum + g r = (t.rows.map g).sum + g (f r) := by
  obtain ⟨before, behind, hrows⟩ := List.append_of_mem hmem
  rw [rows_updateWhere_of_split hf hrows hr hp, hrows]
  simp only [List.map_append, List.map_cons, List.sum_append, List.sum_cons]
  abel

/-- Rewrite every row, leaving its key alone. -/
def mapRows (t : KeyedTable key) (f : ρ → ρ) (hf : ∀ r, key (f r) = key r) : KeyedTable key :=
  t.updateWhere (fun _ ↦ true) f fun r _ ↦ hf r

@[simp] theorem rows_mapRows (t : KeyedTable key) (f : ρ → ρ) (hf : ∀ r, key (f r) = key r) :
    (t.mapRows f hf).rows = t.rows.map f := by
  simp [mapRows, updateWhere]

/-- An update changes nothing exactly if it leaves every row it selects as it is. -/
theorem updateWhere_eq_self_iff (t : KeyedTable key) {p : ρ → Bool} {f : ρ → ρ}
    (hf : ∀ r, p r = true → key (f r) = key r) :
    t.updateWhere p f hf = t ↔ ∀ r ∈ t.rows, p r = true → f r = r := by
  have hrow : t.updateWhere p f hf = t ↔ ∀ r ∈ t.rows, (if p r then f r else r) = id r := by
    rw [← List.map_inj_left, List.map_id]
    exact ⟨fun h ↦ congrArg rows h, fun h ↦ ext h⟩
  rw [hrow]
  refine forall₂_congr fun r _ ↦ ?_
  by_cases hp : p r = true <;> simp [hp]

/-- Updating twice is updating once, if the first update leaves nothing to do. -/
theorem updateWhere_updateWhere (t : KeyedTable key) {p : ρ → Bool} {f : ρ → ρ}
    (hf : ∀ r, p r = true → key (f r) = key r) (hidem : ∀ r, f (f r) = f r) :
    (t.updateWhere p f hf).updateWhere p f hf = t.updateWhere p f hf := by
  refine (updateWhere_eq_self_iff _ hf).2 fun s hs hp ↦ ?_
  obtain ⟨r, -, rfl⟩ := mem_updateWhere.1 hs
  by_cases hr : p r = true
  · rw [if_pos hr]
    exact hidem r
  · rw [if_neg hr] at hp
    exact absurd hp hr

/-- Rewriting every row commutes with an update that does not see the difference. -/
theorem mapRows_updateWhere (t : KeyedTable key) {p : ρ → Bool} {f f' g : ρ → ρ}
    (hf : ∀ r, p r = true → key (f r) = key r) (hf' : ∀ r, p r = true → key (f' r) = key r)
    (hg : ∀ r, key (g r) = key r) (hp : ∀ r, p (g r) = p r) (hfg : ∀ r, g (f r) = f' (g r)) :
    (t.updateWhere p f hf).mapRows g hg = (t.mapRows g hg).updateWhere p f' hf' := by
  refine ext ?_
  rw [rows_mapRows]
  simp only [updateWhere, rows_mapRows, List.map_map]
  refine List.map_congr_left fun r _ ↦ ?_
  by_cases hr : p r = true <;> simp [hr, hp, hfg]

section Lookup

variable [DecidableEq κ]

/-- An update does to the row that is looked up what it does to every row. -/
theorem lookup_updateWhere (t : KeyedTable key) (p : ρ → Bool) (f : ρ → ρ)
    (hf : ∀ r, p r = true → key (f r) = key r) (k : κ) :
    (t.updateWhere p f hf).lookup k = (t.lookup k).map fun r ↦ if p r then f r else r := by
  cases h : t.lookup k with
  | none =>
    rw [Option.map_none, lookup_eq_none_iff]
    intro s hs
    obtain ⟨r, hr, rfl⟩ := mem_updateWhere.1 hs
    rw [key_ite_updateWhere hf]
    exact lookup_eq_none_iff.1 h r hr
  | some r =>
    obtain ⟨hr, rfl⟩ := lookup_eq_some_iff.1 h
    rw [Option.map_some, lookup_eq_some_iff]
    exact ⟨mem_updateWhere.2 ⟨r, hr, rfl⟩, key_ite_updateWhere hf r⟩

theorem isSome_lookup_updateWhere (t : KeyedTable key) (p : ρ → Bool) (f : ρ → ρ)
    (hf : ∀ r, p r = true → key (f r) = key r) (k : κ) :
    ((t.updateWhere p f hf).lookup k).isSome = (t.lookup k).isSome := by
  rw [lookup_updateWhere, Option.isSome_map]

theorem lookup_updateWhere_of_true {t : KeyedTable key} {p : ρ → Bool} {f : ρ → ρ}
    (hf : ∀ r, p r = true → key (f r) = key r) {k : κ} {r : ρ} (h : t.lookup k = some r)
    (hp : p r = true) : (t.updateWhere p f hf).lookup k = some (f r) := by
  rw [lookup_updateWhere, h, Option.map_some, if_pos hp]

/-- An update that selects by key rewrites the row with that key. -/
theorem lookup_updateWhere_key {t : KeyedTable key} {p : ρ → Bool} {f : ρ → ρ}
    (hf : ∀ r, p r = true → key (f r) = key r) {k : κ} (hp : ∀ r, key r = k → p r = true) :
    (t.updateWhere p f hf).lookup k = (t.lookup k).map f := by
  rw [lookup_updateWhere]
  cases h : t.lookup k with
  | none => rfl
  | some r => rw [Option.map_some, Option.map_some, if_pos (hp r (key_of_lookup h))]

/-- An update that selects by key leaves the rows with other keys alone. -/
theorem lookup_updateWhere_of_false {t : KeyedTable key} {p : ρ → Bool} {f : ρ → ρ}
    (hf : ∀ r, p r = true → key (f r) = key r) {k : κ} (hp : ∀ r, key r = k → p r = false) :
    (t.updateWhere p f hf).lookup k = t.lookup k := by
  rw [lookup_updateWhere]
  cases h : t.lookup k with
  | none => rfl
  | some r => rw [Option.map_some, hp r (key_of_lookup h), if_neg Bool.false_ne_true]

/-- A row after an update that selects by key: rewritten, or as it was. -/
theorem lookup_updateWhere_cases (t : KeyedTable key) {p : ρ → Bool} {f : ρ → ρ}
    (hf : ∀ r, p r = true → key (f r) = key r) {k k' : κ} (hp : ∀ r, p r = decide (key r = k))
    {r : ρ} (h : (t.updateWhere p f hf).lookup k' = some r) :
    (∃ old, k = k' ∧ t.lookup k = some old ∧ r = f old) ∨ k ≠ k' ∧ t.lookup k' = some r := by
  by_cases hk : k = k'
  · subst hk
    rw [lookup_updateWhere_key hf fun r hr ↦ (hp r).trans (decide_eq_true hr),
      Option.map_eq_some_iff] at h
    obtain ⟨old, hold, hr⟩ := h
    exact Or.inl ⟨old, rfl, hold, hr.symm⟩
  · rw [lookup_updateWhere_of_false hf
      fun r hr ↦ (hp r).trans (decide_eq_false fun hr' ↦ hk (hr'.symm.trans hr))] at h
    exact Or.inr ⟨hk, h⟩

theorem lookup_mapRows (t : KeyedTable key) (f : ρ → ρ) (hf : ∀ r, key (f r) = key r) (k : κ) :
    (t.mapRows f hf).lookup k = (t.lookup k).map f := by
  rw [mapRows, lookup_updateWhere]
  rfl

/-- Tables with the same keys in the same order are the same up to a rewriting, if their rows are.
The order of the keys has to be asked for, since a lookup does not tell it. -/
theorem mapRows_congr {t u : KeyedTable key} {f : ρ → ρ} (hf : ∀ r, key (f r) = key r)
    (hkeys : t.rows.map key = u.rows.map key)
    (h : ∀ k, (t.lookup k).map f = (u.lookup k).map f) : t.mapRows f hf = u.mapRows f hf := by
  have hrows : ∀ w : KeyedTable key,
      (w.rows.map f).map some = (w.rows.map key).map fun k ↦ (w.lookup k).map f := by
    intro w
    rw [List.map_map, List.map_map]
    refine List.map_congr_left fun r hr ↦ ?_
    show some (f r) = (w.lookup (key r)).map f
    rw [lookup_of_mem hr, Option.map_some]
  refine ext (List.map_injective_iff.2 (Option.some_injective ρ) ?_)
  rw [rows_mapRows, rows_mapRows, hrows, hrows, hkeys]
  exact congrArg (List.map · _) (funext h)

/-! ## Inserting rows

An insertion appends a row or finds its key taken.  `INSERT OR IGNORE` then leaves the row that is
there, and an upsert rewrites it in its place; so neither moves a row. -/

/-- `INSERT OR IGNORE`: append the row unless its key is taken. -/
def insertOrIgnore (t : KeyedTable key) (r : ρ) : KeyedTable key :=
  if h : key r ∈ t.rows.map key then t
  else ⟨t.rows ++ [r], by
    rw [List.map_append, List.map_singleton]
    exact List.Nodup.append t.nodup (List.nodup_singleton _) (by simpa using h)⟩

/-- If the key is taken, nothing happens. -/
theorem insertOrIgnore_of_some {t : KeyedTable key} {r s : ρ} (h : t.lookup (key r) = some s) :
    t.insertOrIgnore r = t := by
  rw [insertOrIgnore, dif_pos (mem_keys_iff.2 (by simp [h]))]

theorem rows_insertOrIgnore_of_none {t : KeyedTable key} {r : ρ} (h : t.lookup (key r) = none) :
    (t.insertOrIgnore r).rows = t.rows ++ [r] := by
  rw [insertOrIgnore, dif_neg (by simp [mem_keys_iff, h])]

/-- The row that was there first is there afterwards. -/
theorem lookup_insertOrIgnore_self (t : KeyedTable key) (r : ρ) :
    (t.insertOrIgnore r).lookup (key r) = some ((t.lookup (key r)).getD r) := by
  cases h : t.lookup (key r) with
  | some s => rw [insertOrIgnore_of_some h, h, Option.getD_some]
  | none =>
    rw [Option.getD_none, lookup_eq_some_iff, rows_insertOrIgnore_of_none h]
    simp

theorem lookup_insertOrIgnore_of_ne (t : KeyedTable key) {r : ρ} {k : κ} (hk : key r ≠ k) :
    (t.insertOrIgnore r).lookup k = t.lookup k := by
  cases h : t.lookup (key r) with
  | some s => rw [insertOrIgnore_of_some h]
  | none =>
    rw [lookup, rows_insertOrIgnore_of_none h, List.find?_append]
    simp [hk, lookup]

theorem mem_keys_insertOrIgnore (t : KeyedTable key) {r : ρ} {k : κ} :
    k ∈ (t.insertOrIgnore r).rows.map key ↔ k ∈ t.rows.map key ∨ k = key r := by
  rw [insertOrIgnore]
  split
  · rename_i h
    exact ⟨Or.inl, fun hk ↦ hk.elim id fun hk' ↦ hk' ▸ h⟩
  · rw [List.map_append, List.map_singleton, List.mem_append, List.mem_singleton]

/-- `INSERT … ON CONFLICT DO UPDATE`: append the row, or rewrite by `f` the one that has its key. -/
def upsert (t : KeyedTable key) (r : ρ) (f : ρ → ρ)
    (hf : ∀ s, key s = key r → key (f s) = key s) : KeyedTable key :=
  if key r ∈ t.rows.map key then
    t.updateWhere (fun s ↦ key s = key r) f fun s hs ↦ hf s (by simpa using hs)
  else t.insertOrIgnore r

/-- The row is rewritten if it was there, and otherwise it is the new one. -/
theorem lookup_upsert_self (t : KeyedTable key) (r : ρ) (f : ρ → ρ)
    (hf : ∀ s, key s = key r → key (f s) = key s) :
    (t.upsert r f hf).lookup (key r) = some (((t.lookup (key r)).map f).getD r) := by
  rw [upsert]
  split
  · rename_i h
    obtain ⟨s, hs⟩ := Option.ne_none_iff_exists'.1 (mem_keys_iff.1 h)
    simp [lookup_updateWhere, hs, key_of_lookup hs]
  · rename_i h
    rw [mem_keys_iff, not_not] at h
    rw [lookup_insertOrIgnore_self, h]
    rfl

theorem lookup_upsert_of_ne (t : KeyedTable key) {r : ρ} (f : ρ → ρ)
    (hf : ∀ s, key s = key r → key (f s) = key s) {k : κ} (hk : key r ≠ k) :
    (t.upsert r f hf).lookup k = t.lookup k := by
  rw [upsert]
  split
  · rw [lookup_updateWhere]
    cases hl : t.lookup k with
    | none => rfl
    | some s => simp [key_of_lookup hl, hk.symm]
  · exact lookup_insertOrIgnore_of_ne t hk

theorem isSome_lookup_upsert (t : KeyedTable key) (r : ρ) (f : ρ → ρ)
    (hf : ∀ s, key s = key r → key (f s) = key s) (k : κ) :
    ((t.upsert r f hf).lookup k).isSome = (decide (key r = k) || (t.lookup k).isSome) := by
  by_cases hk : key r = k
  · subst hk
    rw [lookup_upsert_self]
    simp
  · rw [lookup_upsert_of_ne t f hf hk]
    simp [hk]

theorem keys_upsert_of_some {t : KeyedTable key} {r s : ρ} (f : ρ → ρ)
    (hf : ∀ s, key s = key r → key (f s) = key s) (h : t.lookup (key r) = some s) :
    (t.upsert r f hf).rows.map key = t.rows.map key := by
  rw [upsert, if_pos (mem_keys_iff.2 (by simp [h]))]
  exact keys_updateWhere ..

/-- A row after an upsert: rewritten, new, or as it was. -/
theorem lookup_upsert_cases (t : KeyedTable key) (r : ρ) {f : ρ → ρ}
    (hf : ∀ s, key s = key r → key (f s) = key s) {k : κ} {s : ρ}
    (h : (t.upsert r f hf).lookup k = some s) :
    (∃ old, key r = k ∧ t.lookup (key r) = some old ∧ s = f old) ∨
      (key r = k ∧ t.lookup (key r) = none ∧ s = r) ∨ key r ≠ k ∧ t.lookup k = some s := by
  by_cases hk : key r = k
  · subst hk
    rw [lookup_upsert_self, Option.some_inj] at h
    cases hold : t.lookup (key r) with
    | none =>
      rw [hold] at h
      exact Or.inr (Or.inl ⟨rfl, rfl, h.symm⟩)
    | some old =>
      rw [hold] at h
      exact Or.inl ⟨old, rfl, rfl, h.symm⟩
  · rw [lookup_upsert_of_ne t f hf hk] at h
    exact Or.inr (Or.inr ⟨hk, h⟩)

theorem rows_upsert (t : KeyedTable key) (r : ρ) (f : ρ → ρ)
    (hf : ∀ s, key s = key r → key (f s) = key s) :
    (t.upsert r f hf).rows = if key r ∈ t.rows.map key then
      t.rows.map fun s ↦ if key s = key r then f s else s else t.rows ++ [r] := by
  rw [upsert]
  split
  · simp [updateWhere]
  · rename_i h
    rw [mem_keys_iff, not_not] at h
    rw [rows_insertOrIgnore_of_none h]

/-- Where the rows are after an upsert depends only on where they were, and not on what is in them.
-/
theorem keys_upsert_congr {t t' : KeyedTable key} {r r' : ρ} {f f' : ρ → ρ}
    (hf : ∀ s, key s = key r → key (f s) = key s) (hf' : ∀ s, key s = key r' → key (f' s) = key s)
    (hkeys : t.rows.map key = t'.rows.map key) (hr : key r = key r') :
    (t.upsert r f hf).rows.map key = (t'.upsert r' f' hf').rows.map key := by
  by_cases hmem : key r ∈ t.rows.map key
  · have hmem' : key r' ∈ t'.rows.map key := hr ▸ hkeys ▸ hmem
    rw [upsert, if_pos hmem, upsert, if_pos hmem', keys_updateWhere, keys_updateWhere, hkeys]
  · have hmem' : key r' ∉ t'.rows.map key := hr ▸ hkeys ▸ hmem
    rw [rows_upsert, if_neg hmem, rows_upsert, if_neg hmem', List.map_append, List.map_append,
      hkeys,
      List.map_singleton, List.map_singleton, hr]

/-- An upsert does not show among rows that exclude its key. -/
theorem filter_rows_upsert (t : KeyedTable key) {r : ρ} {f : ρ → ρ}
    (hf : ∀ s, key s = key r → key (f s) = key s) {p : ρ → Bool}
    (hp : ∀ s, key s = key r → p s = false) :
    (t.upsert r f hf).rows.filter p = t.rows.filter p := by
  rw [rows_upsert]
  split
  · have hsame : (p ∘ fun s ↦ if key s = key r then f s else s) = p := by
      funext s
      show p (if key s = key r then f s else s) = p s
      by_cases hs : key s = key r
      · rw [if_pos hs, hp s hs, hp (f s) ((hf s hs).trans hs)]
      · rw [if_neg hs]
    rw [List.filter_map, hsame]
    refine (List.map_congr_left fun s hs ↦ ?_).trans (List.map_id _)
    have hne : key s ≠ key r := fun hs' ↦ by simp [hp s hs'] at hs
    rw [if_neg hne, id]
  · rw [List.filter_append, List.filter_singleton, hp r rfl]
    exact List.append_nil _

/-- An upsert changes nothing exactly if the row is there and is left as it is. -/
theorem upsert_eq_self_iff (t : KeyedTable key) (r : ρ) {f : ρ → ρ}
    (hf : ∀ s, key s = key r → key (f s) = key s) :
    t.upsert r f hf = t ↔ ∃ s, t.lookup (key r) = some s ∧ f s = s := by
  constructor
  · intro h
    have hself := t.lookup_upsert_self r f hf
    rw [h] at hself
    cases hl : t.lookup (key r) with
    | some s =>
      rw [hl, Option.map_some, Option.getD_some, Option.some_inj] at hself
      exact ⟨s, rfl, hself.symm⟩
    | none =>
      rw [hl] at hself
      cases hself
  · rintro ⟨s, hl, hs⟩
    rw [upsert, if_pos (mem_keys_iff.2 (by simp [hl]))]
    refine (updateWhere_eq_self_iff t _).2 fun s' hs' hkey ↦ ?_
    rw [decide_eq_true_eq] at hkey
    rw [t.eq_of_mem_of_key_eq hs' (mem_of_lookup hl) (hkey.trans (key_of_lookup hl).symm)]
    exact hs

/-- Upserting twice is upserting once, if the first time leaves nothing to do. -/
theorem upsert_upsert (t : KeyedTable key) {r : ρ} {f : ρ → ρ}
    (hf : ∀ s, key s = key r → key (f s) = key s) (hidem : ∀ s, f (f s) = f s) (hr : f r = r) :
    (t.upsert r f hf).upsert r f hf = t.upsert r f hf := by
  refine (upsert_eq_self_iff _ r hf).2 ⟨_, t.lookup_upsert_self r f hf, ?_⟩
  cases t.lookup (key r) with
  | none => exact hr
  | some s => exact hidem s

/-- Rewriting every row commutes with an upsert that does not see the difference. -/
theorem mapRows_upsert (t : KeyedTable key) {r r' : ρ} {f f' g : ρ → ρ}
    (hf : ∀ s, key s = key r → key (f s) = key s) (hf' : ∀ s, key s = key r' → key (f' s) = key s)
    (hg : ∀ s, key (g s) = key s) (hr : g r = r') (hfg : ∀ s, g (f s) = f' (g s)) :
    (t.upsert r f hf).mapRows g hg = (t.mapRows g hg).upsert r' f' hf' := by
  subst hr
  refine ext ?_
  rw [rows_mapRows, rows_upsert, rows_upsert, rows_mapRows]
  have hkeys : (t.rows.map g).map key = t.rows.map key := by
    rw [List.map_map]
    exact List.map_congr_left fun s _ ↦ hg s
  rw [hkeys, hg]
  split
  · rw [List.map_map, List.map_map]
    refine List.map_congr_left fun s _ ↦ ?_
    by_cases hs : key s = key r <;> simp [hs, hg, hfg]
  · rw [List.map_append, List.map_singleton]

end Lookup

/-! ## Some of the rows

The rows with a property, as a table of their own.  An operation that only touches such rows does to
this table what it does to the whole one; an operation that touches none of them does nothing to it.
-/

/-- The rows with a property, in the order they have in the whole table. -/
def filterRows (t : KeyedTable key) (p : ρ → Bool) : KeyedTable key where
  rows := t.rows.filter p
  nodup := t.nodup.sublist (List.filter_sublist.map key)

/-- Filtering commutes with an update after which the same rows have the property. -/
theorem filterRows_updateWhere (t : KeyedTable key) {p q : ρ → Bool} {f : ρ → ρ}
    (hf : ∀ r, q r = true → key (f r) = key r) (hp : ∀ r, q r = true → p (f r) = p r) :
    (t.updateWhere q f hf).filterRows p = (t.filterRows p).updateWhere q f hf := by
  refine ext ?_
  show (t.rows.map fun r ↦ if q r then f r else r).filter p =
    (t.rows.filter p).map fun r ↦ if q r then f r else r
  rw [List.filter_map]
  refine congrArg _ (List.filter_congr fun r _ ↦ ?_)
  show p (if q r then f r else r) = p r
  split
  · rename_i hq; exact hp r hq
  · rfl

/-- An update does not show among rows it does not touch. -/
theorem filterRows_updateWhere_of_false (t : KeyedTable key) {p q : ρ → Bool} {f : ρ → ρ}
    (hf : ∀ r, q r = true → key (f r) = key r) (hp : ∀ r, q r = true → p (f r) = p r)
    (hq : ∀ r, q r = true → p r = false) :
    (t.updateWhere q f hf).filterRows p = t.filterRows p := by
  rw [filterRows_updateWhere t hf hp, updateWhere_eq_self_iff]
  intro r hr hqr
  have hpr : p r = true := (List.mem_filter.1 hr).2
  rw [hq r hqr] at hpr
  cases hpr

section FilterRows

variable [DecidableEq κ]

theorem lookup_filterRows {t : KeyedTable key} {p : ρ → Bool} {k : κ}
    (hp : ∀ r, key r = k → p r = true) : (t.filterRows p).lookup k = t.lookup k := by
  rw [lookup, filterRows, List.find?_filter, lookup]
  refine congrArg (List.find? · t.rows) (funext fun r ↦ ?_)
  by_cases hr : key r = k
  · simp [hr, hp r hr]
  · simp [hr]

/-- Filtering commutes with an insertion of a row that has the property. -/
theorem filterRows_insertOrIgnore (t : KeyedTable key) {p : ρ → Bool} {r : ρ}
    (hp : ∀ s, key s = key r → p s = true) :
    (t.insertOrIgnore r).filterRows p = (t.filterRows p).insertOrIgnore r := by
  have hlookup : (t.filterRows p).lookup (key r) = t.lookup (key r) := lookup_filterRows hp
  cases h : t.lookup (key r) with
  | some s => rw [insertOrIgnore_of_some h, insertOrIgnore_of_some (hlookup.trans h)]
  | none =>
    refine ext ?_
    rw [rows_insertOrIgnore_of_none (hlookup.trans h)]
    show (t.insertOrIgnore r).rows.filter p = t.rows.filter p ++ [r]
    rw [rows_insertOrIgnore_of_none h, List.filter_append, List.filter_singleton, hp r rfl]
    rfl

/-- An insertion does not show among rows that exclude it. -/
theorem filterRows_insertOrIgnore_of_false (t : KeyedTable key) {p : ρ → Bool} {r : ρ}
    (hp : p r = false) : (t.insertOrIgnore r).filterRows p = t.filterRows p := by
  cases h : t.lookup (key r) with
  | some s => rw [insertOrIgnore_of_some h]
  | none =>
    refine ext ?_
    show (t.insertOrIgnore r).rows.filter p = t.rows.filter p
    rw [rows_insertOrIgnore_of_none h, List.filter_append, List.filter_singleton, hp]
    exact List.append_nil _

/-- Filtering commutes with an upsert of a row that has the property. -/
theorem filterRows_upsert (t : KeyedTable key) {p : ρ → Bool} {r : ρ} {f : ρ → ρ}
    (hf : ∀ s, key s = key r → key (f s) = key s) (hp : ∀ s, key s = key r → p s = true) :
    (t.upsert r f hf).filterRows p = (t.filterRows p).upsert r f hf := by
  have hkeys : key r ∈ (t.filterRows p).rows.map key ↔ key r ∈ t.rows.map key := by
    rw [mem_keys_iff, mem_keys_iff, lookup_filterRows hp]
  rw [upsert, upsert]
  by_cases h : key r ∈ t.rows.map key
  · rw [if_pos h, if_pos (hkeys.2 h)]
    refine filterRows_updateWhere t _ fun s hs ↦ ?_
    have hs' : key s = key r := of_decide_eq_true hs
    rw [hp s hs', hp (f s) ((hf s hs').trans hs')]
  · have hnone := not_not.1 (mt mem_keys_iff.2 h)
    rw [if_neg h, if_neg (mt hkeys.1 h)]
    refine ext ?_
    rw [rows_insertOrIgnore_of_none ((lookup_filterRows hp).trans hnone)]
    show (t.insertOrIgnore r).rows.filter p = t.rows.filter p ++ [r]
    rw [rows_insertOrIgnore_of_none hnone, List.filter_append, List.filter_singleton, hp r rfl]
    rfl

/-- An upsert does not show among rows that exclude its key. -/
theorem filterRows_upsert_of_false (t : KeyedTable key) {p : ρ → Bool} {r : ρ} {f : ρ → ρ}
    (hf : ∀ s, key s = key r → key (f s) = key s) (hp : ∀ s, key s = key r → p s = false) :
    (t.upsert r f hf).filterRows p = t.filterRows p :=
  ext (t.filter_rows_upsert hf hp)

/-- Where a row stands makes no difference to a lookup. -/
theorem lookup_eq_of_rows_perm {t u : KeyedTable key} (h : t.rows.Perm u.rows) (k : κ) :
    t.lookup k = u.lookup k :=
  Option.ext fun r ↦ by rw [lookup_eq_some_iff, lookup_eq_some_iff, h.mem_iff]

/-- Tables with the same row under every key have the same rows. -/
theorem rows_perm_of_lookup_eq {t u : KeyedTable key} (h : ∀ k, t.lookup k = u.lookup k) :
    t.rows.Perm u.rows := by
  refine (List.perm_ext_iff_of_nodup (t.nodup.of_map key) (u.nodup.of_map key)).2 fun r ↦ ?_
  constructor
  · intro hr
    exact mem_of_lookup ((h (key r)).symm.trans (lookup_of_mem hr))
  · intro hr
    exact mem_of_lookup ((h (key r)).trans (lookup_of_mem hr))

end FilterRows

/-! ## Reading one row of many

`ORDER BY … LIMIT 1` does not say which row comes back when several are first.  So the query is a
function of one more number, `tie`, and a statement about the program is a statement about all
values of it.  `exists_firstBy_eq_some` says that nothing is lost by that: every row that may come
back does so for some value. -/

section FirstBy

variable {τ : Type v} [LinearOrder τ]

/-- `SELECT … WHERE p ORDER BY f LIMIT 1`.  Rows that tie on `f` come in an order SQL leaves open,
and `tie` picks one of them. -/
def firstBy (t : KeyedTable key) (p : ρ → Bool) (f : ρ → τ) (tie : ℕ) : Option ρ :=
  let found := t.rows.filter p
  let least := found.filter fun r ↦ found.all fun s ↦ f r ≤ f s
  least[tie % least.length]?

theorem firstBy_eq_some {t : KeyedTable key} {p : ρ → Bool} {f : ρ → τ} {tie : ℕ} {r : ρ}
    (h : t.firstBy p f tie = some r) :
    r ∈ t.rows ∧ p r = true ∧ ∀ s ∈ t.rows, p s = true → f r ≤ f s := by
  have hr := List.mem_of_getElem? h
  simp only [List.mem_filter, List.all_eq_true, decide_eq_true_eq] at hr
  obtain ⟨⟨hr, hp⟩, hle⟩ := hr
  exact ⟨hr, hp, fun s hs hps ↦ hle s ⟨hs, hps⟩⟩

/-- Every first row is one the query can come back with. -/
theorem exists_firstBy_eq_some {t : KeyedTable key} {p : ρ → Bool} {f : ρ → τ} {r : ρ}
    (hr : r ∈ t.rows) (hp : p r = true) (hle : ∀ s ∈ t.rows, p s = true → f r ≤ f s) :
    ∃ tie, t.firstBy p f tie = some r := by
  have hmem : r ∈ (t.rows.filter p).filter fun r ↦ (t.rows.filter p).all fun s ↦ f r ≤ f s := by
    refine List.mem_filter.2 ⟨List.mem_filter.2 ⟨hr, hp⟩, List.all_eq_true.2 fun s hs ↦ ?_⟩
    exact decide_eq_true (hle s (List.mem_of_mem_filter hs) (List.mem_filter.1 hs).2)
  obtain ⟨tie, hlt, htie⟩ := List.mem_iff_getElem.1 hmem
  refine ⟨tie, ?_⟩
  rw [firstBy, Nat.mod_eq_of_lt hlt, List.getElem?_eq_getElem hlt, htie]

/-- The query comes back empty only when no row qualifies. -/
theorem firstBy_eq_none_iff {t : KeyedTable key} {p : ρ → Bool} {f : ρ → τ} {tie : ℕ} :
    t.firstBy p f tie = none ↔ ∀ r ∈ t.rows, p r = false := by
  constructor
  · intro h r hr
    by_contra hp
    rw [Bool.not_eq_false] at hp
    have hne : t.rows.filter p ≠ [] := List.ne_nil_of_mem (List.mem_filter.2 ⟨hr, hp⟩)
    obtain ⟨m, hm⟩ := Option.ne_none_iff_exists'.1 (mt (List.argmin_eq_none (f := f)).1 hne)
    have hmem : m ∈ (t.rows.filter p).filter fun r ↦ (t.rows.filter p).all fun s ↦ f r ≤ f s := by
      refine List.mem_filter.2 ⟨List.argmin_mem hm, List.all_eq_true.2 fun s hs ↦ ?_⟩
      exact decide_eq_true (List.le_of_mem_argmin hs hm)
    have hlt := Nat.mod_lt tie (List.length_pos_of_mem hmem)
    rw [firstBy, List.getElem?_eq_none_iff] at h
    omega
  · intro h
    have hnil : t.rows.filter p = [] := List.filter_eq_nil_iff.2 fun r hr ↦ by simp [h r hr]
    simp [firstBy, hnil]

/-- A row that comes strictly before all others that qualify is the first, whatever the ties. -/
theorem firstBy_eq_some_of_lt {t : KeyedTable key} {p : ρ → Bool} {f : ρ → τ} {r : ρ} (tie : ℕ)
    (hr : r ∈ t.rows) (hp : p r = true) (hlt : ∀ s ∈ t.rows, p s = true → s ≠ r → f r < f s) :
    t.firstBy p f tie = some r := by
  cases h : t.firstBy p f tie with
  | none => exact absurd (firstBy_eq_none_iff.1 h r hr) (by simp [hp])
  | some s =>
    obtain ⟨hs, hps, hle⟩ := firstBy_eq_some h
    by_contra hne
    exact absurd (hlt s hs hps fun hsr ↦ hne (congrArg some hsr)) (not_lt.2 (hle r hr hp))

/-- A query sees of a column only how its values compare. -/
theorem firstBy_congr {σ : Type v} [LinearOrder σ] {t : KeyedTable key} {p q : ρ → Bool} {f : ρ → τ}
    {g : ρ → σ} (tie : ℕ) (hpq : ∀ r ∈ t.rows, p r = q r)
    (hfg : ∀ r ∈ t.rows, ∀ s ∈ t.rows, f r ≤ f s ↔ g r ≤ g s) :
    t.firstBy p f tie = t.firstBy q g tie := by
  have hfound : t.rows.filter p = t.rows.filter q := List.filter_congr hpq
  have hleast : (t.rows.filter q).filter (fun r ↦ (t.rows.filter q).all fun s ↦ f r ≤ f s) =
      (t.rows.filter q).filter fun r ↦ (t.rows.filter q).all fun s ↦ g r ≤ g s := by
    refine List.filter_congr fun r hr ↦ ?_
    rw [Bool.eq_iff_iff, List.all_eq_true, List.all_eq_true]
    refine forall₂_congr fun s hs ↦ ?_
    rw [decide_eq_true_eq, decide_eq_true_eq]
    exact hfg r (List.mem_of_mem_filter hr) s (List.mem_of_mem_filter hs)
  rw [firstBy, firstBy, hfound, hleast]

/-- In a table in order, the first in the opposite order is the last. -/
theorem firstBy_toDual_of_pairwise {t : KeyedTable key} {f : ρ → τ} (tie : ℕ)
    (h : t.rows.Pairwise fun r s ↦ f r < f s) :
    t.firstBy (fun _ ↦ true) (fun r ↦ OrderDual.toDual (f r)) tie = t.rows.getLast? := by
  cases hlast : t.rows.getLast? with
  | none =>
    rw [List.getLast?_eq_none_iff] at hlast
    exact firstBy_eq_none_iff.2 fun r hr ↦ by simp [hlast] at hr
  | some r =>
    obtain ⟨before, hsplit⟩ := List.getLast?_eq_some_iff.1 hlast
    refine firstBy_eq_some_of_lt tie (List.mem_of_getLast? hlast) rfl fun s hs _ hne ↦ ?_
    rw [hsplit, List.mem_append, List.mem_singleton] at hs
    rw [hsplit, List.pairwise_append] at h
    exact OrderDual.toDual_lt_toDual.2 (h.2.2 s (hs.resolve_right hne) r
      (List.mem_singleton_self r))

end FirstBy

end KeyedTable
