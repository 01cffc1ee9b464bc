import Mathlib.Data.Set.Finite.Lattice
import Mathlib.Order.Preorder.Finite
import Mathlib.Logic.Function.Basic

/-!
# Versions that must stay compatible

A versioned value is a partial function `get : ν → Option α` from versions to values.  It is a
`Chain` for a relation `R` when every value is related to the value of every later version.

A program that adds a version usually compares it with one neighbour only.  When `R` is transitive
that is enough on each side: `chain_update_iff` says that writing version `v` keeps the chain
exactly when the new value is related to its *latest* predecessor and to its *next* successor.
Whether `v` was already there makes no difference, and a new greatest version has no successor to
check (`chain_update_of_top`).

So a program that compares only with the predecessor is right about every new greatest version, and
may be wrong about a version that is filled in between two others, or written a second time.

The neighbours exist because there are finitely many versions.  `IsLatestBelow` and `IsNextAbove`
say which they are, without saying how they are found.
-/

set_option autoImplicit false

universe u v

namespace Versioned

variable {ν : Type u} {α : Type v} [LinearOrder ν] {R : α → α → Prop} {get : ν → Option α}

/-- Every value is related to the value of every later version. -/
def Chain (R : α → α → Prop) (get : ν → Option α) : Prop :=
  ∀ v w a b, v < w → get v = some a → get w = some b → R a b

/-- `u` is the greatest version below `v`. -/
def IsLatestBelow (get : ν → Option α) (v u : ν) : Prop :=
  IsGreatest {u | u < v ∧ (get u).isSome} u

/-- `w` is the least version above `v`. -/
def IsNextAbove (get : ν → Option α) (v w : ν) : Prop :=
  IsLeast {w | v < w ∧ (get w).isSome} w

theorem isLatestBelow_unique {v u u' : ν} (h : IsLatestBelow get v u)
    (h' : IsLatestBelow get v u') :
    u = u' :=
  IsGreatest.unique h h'

theorem exists_isLatestBelow (hfin : {v | (get v).isSome}.Finite) {v p : ν} (hp : p < v)
    (hs : (get p).isSome) : ∃ u, IsLatestBelow get v u ∧ p ≤ u := by
  have hsub : {u | u < v ∧ (get u).isSome}.Finite := hfin.subset fun u hu ↦ hu.2
  obtain ⟨u, hu⟩ := hsub.exists_maximal ⟨p, hp, hs⟩
  have hle : ∀ q ∈ {u | u < v ∧ (get u).isSome}, q ≤ u := fun q hq ↦
    (le_total q u).elim id fun huq ↦ hu.2 hq huq
  exact ⟨u, ⟨hu.1, hle⟩, hle p ⟨hp, hs⟩⟩

theorem exists_isNextAbove (hfin : {v | (get v).isSome}.Finite) {v p : ν} (hp : v < p)
    (hs : (get p).isSome) : ∃ w, IsNextAbove get v w ∧ w ≤ p := by
  have hsub : {w | v < w ∧ (get w).isSome}.Finite := hfin.subset fun w hw ↦ hw.2
  obtain ⟨w, hw⟩ := hsub.exists_minimal ⟨p, hp, hs⟩
  have hle : ∀ q ∈ {w | v < w ∧ (get w).isSome}, w ≤ q := fun q hq ↦
    (le_total w q).elim id fun hqw ↦ hw.2 hq hqw
  exact ⟨w, ⟨hw.1, hle⟩, hle p ⟨hp, hs⟩⟩

/-- **Writing a version keeps the chain exactly when both neighbours allow it.**  To all other
versions the new value is related through one of the two. -/
theorem chain_update_iff (htrans : ∀ a b c, R a b → R b c → R a c)
    (hfin : {v | (get v).isSome}.Finite) (h : Chain R get) (v : ν) (a : α) :
    Chain R (Function.update get v (some a)) ↔
      (∀ u b, IsLatestBelow get v u → get u = some b → R b a) ∧
        ∀ w b, IsNextAbove get v w → get w = some b → R a b := by
  constructor
  · intro hc
    refine ⟨fun u b hu hb ↦ ?_, fun w b hw hb ↦ ?_⟩
    · have huv : u < v := hu.1.1
      exact hc u v b a huv (by rwa [Function.update_of_ne huv.ne]) (Function.update_self ..)
    · have hvw : v < w := hw.1.1
      exact hc v w a b hvw (Function.update_self ..) (by rwa [Function.update_of_ne hvw.ne'])
  · rintro ⟨hbelow, habove⟩ p q b c hpq hb hc
    by_cases hq : q = v
    · subst hq
      rw [Function.update_self, Option.some_inj] at hc
      rw [Function.update_of_ne hpq.ne] at hb
      subst hc
      -- `p` is below the new version: go through its latest predecessor
      obtain ⟨u, hu, hpu⟩ := exists_isLatestBelow hfin hpq (by rw [hb]; rfl)
      obtain ⟨d, hd⟩ := Option.isSome_iff_exists.1 hu.1.2
      have hda : R d a := hbelow u d hu hd
      rcases hpu.eq_or_lt with rfl | hlt
      · rw [hb, Option.some_inj] at hd
        exact hd ▸ hda
      · exact htrans b d a (h p u b d hlt hb hd) hda
    · by_cases hp : p = v
      · subst hp
        rw [Function.update_self, Option.some_inj] at hb
        rw [Function.update_of_ne hq] at hc
        subst hb
        obtain ⟨w, hw, hwq⟩ := exists_isNextAbove hfin hpq (by rw [hc]; rfl)
        obtain ⟨d, hd⟩ := Option.isSome_iff_exists.1 hw.1.2
        have had : R a d := habove w d hw hd
        rcases hwq.eq_or_lt with rfl | hlt
        · rw [hc, Option.some_inj] at hd
          exact hd ▸ had
        · exact htrans a d c had (h w q d c hlt hd hc)
      · rw [Function.update_of_ne hp] at hb
        rw [Function.update_of_ne hq] at hc
        exact h p q b c hpq hb hc

/-- A new greatest version only has to be related to the one before it. -/
theorem chain_update_of_top (htrans : ∀ a b c, R a b → R b c → R a c)
    (hfin : {v | (get v).isSome}.Finite) (h : Chain R get) {v : ν} {a : α}
    (htop : ∀ w b, get w = some b → w < v)
    (hbelow : ∀ u b, IsLatestBelow get v u → get u = some b → R b a) :
    Chain R (Function.update get v (some a)) := by
  refine (chain_update_iff htrans hfin h v a).2 ⟨hbelow, fun w b hw hb ↦ ?_⟩
  exact absurd hw.1.1 (htop w b hb).not_gt

end Versioned
