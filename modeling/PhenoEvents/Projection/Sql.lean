import Mathlib.Algebra.BigOperators.Group.List.Basic
import PhenoEvents.Json

/-!
# Money in SQLite

The expression `COALESCE(SUM(quantity * unit_price_cents), 0)` and the column it is stored in.

SQLite computes with integers as long as it can and with floating point after that: a product that
does not fit `i64` is a REAL, a `SUM` with a REAL among its arguments is a REAL, and a `SUM` of
integers that overflows on the way is an error.  A column of type `INTEGER` keeps a REAL unless it
is exactly an integer.

Floating-point arithmetic and the order in which a `SUM` visits rows are SQLite's business: they are
the parameter `SqlEngine`.  As long as nothing overflows (`Fits`), the value is the exact sum
whatever the engine does (`totalOf_of_fits`).

## What is here

* `SqlNumber`: what a column holds, an integer or a REAL.
* `Line.product`, `sqlSum` and `intoIntegerColumn`: the three steps from the rows of an order to its
  total, each with the rule SQLite has for it; and `totalOf`, which puts them together.
* `Fits`: every product fits, and so does every sum on the way to the total, in the order in which
  the engine visits the rows.
* `totalOf_of_fits`.

So the total is a number of cents as long as nobody sells for more than 2^63 cents, and what it is
after that is said here too, but for the value of a floating-point sum.
-/

set_option autoImplicit false

namespace PhenoEvents

/-- A number in a column. -/
inductive SqlNumber
  | integer (n : Int64)
  | real (x : Float64)
  deriving DecidableEq

/-- What the `SUM` reads of a row of `order_items`. -/
structure Line where
  sku : String
  quantity : Int64
  unitPriceCents : Int64
  deriving DecidableEq

/-- The choices SQLite makes. -/
structure SqlEngine where
  /-- A product of integers, as a REAL. -/
  product : Int64 → Int64 → Float64
  /-- A sum with a REAL in it. -/
  sum : List SqlNumber → Float64
  /-- The order in which the rows of an order are visited. -/
  scan : List Line → List Line
  /-- Every row is visited once. -/
  scan_perm : ∀ lines, (scan lines).Perm lines

/-- An engine for sums in which nothing overflows. -/
def SqlEngine.plain : SqlEngine where
  product _ _ := ⟨0, 0, 0, by decide, by decide, by decide, by simp⟩
  sum _ := ⟨0, 0, 0, by decide, by decide, by decide, by simp⟩
  scan lines := lines
  scan_perm _ := List.Perm.rfl

/-- The integer fits `i64`. -/
def FitsInt64 (n : ℤ) : Prop := -2 ^ 63 ≤ n ∧ n < 2 ^ 63

instance (n : ℤ) : Decidable (FitsInt64 n) := inferInstanceAs (Decidable (_ ∧ _))

theorem toInt_ofInt_of_fits {n : ℤ} (h : FitsInt64 n) : (Int64.ofInt n).toInt = n :=
  Int64.toInt_ofInt_of_le h.1 h.2

/-! ## Evaluation

A running sum of integers can overflow although the whole sum would fit, and then SQLite reports an
error; which rows come first is up to the engine. -/

/-- `quantity * unit_price_cents`. -/
def Line.product (engine : SqlEngine) (l : Line) : SqlNumber :=
  let exact := l.quantity.toInt * l.unitPriceCents.toInt
  if FitsInt64 exact then .integer (.ofInt exact)
  else .real (engine.product l.quantity l.unitPriceCents)

/-- The integers of a list, if all of it are integers. -/
def integers : List SqlNumber → Option (List Int64)
  | [] => some []
  | .integer n :: ns => (integers ns).map (n :: ·)
  | .real _ :: _ => none

/-- The running sum of integers, `none` if it overflows. -/
def addIntegers (acc : Int64) : List Int64 → Option Int64
  | [] => some acc
  | n :: ns =>
    if FitsInt64 (acc.toInt + n.toInt) then addIntegers (.ofInt (acc.toInt + n.toInt)) ns else none

/-- `COALESCE(SUM(…), 0)`. -/
def sqlSum (engine : SqlEngine) (numbers : List SqlNumber) : Except String SqlNumber :=
  match integers numbers with
  | none => .ok (.real (engine.sum numbers))
  | some ns =>
    match addIntegers 0 ns with
    | some total => .ok (.integer total)
    | none => .error "integer overflow"

/-- The value a column of type `INTEGER` keeps. -/
def intoIntegerColumn : SqlNumber → SqlNumber
  | .integer n => .integer n
  | .real x =>
    if x.val.den = 1 ∧ -2 ^ 63 < x.val.num ∧ x.val.num < 2 ^ 63 - 1 then .integer (.ofInt x.val.num)
    else .real x

/-- The total of the rows of an order, as the column `total_cents` keeps it. -/
def totalOf (engine : SqlEngine) (lines : List Line) : Except String SqlNumber :=
  (sqlSum engine ((engine.scan lines).map (Line.product engine))).map intoIntegerColumn

/-! ## Exactness

The exact values are integers without a bound, which is what the total is compared with. -/

/-- The exact product. -/
def Line.cents (l : Line) : ℤ := l.quantity.toInt * l.unitPriceCents.toInt

/-- The exact sum. -/
def centsOf (lines : List Line) : ℤ := (lines.map Line.cents).sum

/-- Every product fits `i64`, and so does every sum on the way to the total. -/
structure Fits (engine : SqlEngine) (lines : List Line) : Prop where
  products : ∀ l ∈ lines, FitsInt64 l.cents
  sums : ∀ visited, visited <+: engine.scan lines → FitsInt64 (centsOf visited)

theorem integers_products {engine : SqlEngine} {lines : List Line}
    (h : ∀ l ∈ lines, FitsInt64 l.cents) :
    integers (lines.map (Line.product engine)) =
      some (lines.map fun l ↦ Int64.ofInt l.cents) := by
  induction lines with
  | nil => rfl
  | cons l lines ih =>
    have hl : l.product engine = .integer (.ofInt l.cents) :=
      if_pos (h l List.mem_cons_self)
    rw [List.map_cons, hl, integers, ih fun l' hl' ↦ h l' (List.mem_cons_of_mem _ hl')]
    rfl

/-- A running sum that never leaves `i64` is exact. -/
theorem addIntegers_of_fits {lines : List Line} (h : ∀ l ∈ lines, FitsInt64 l.cents) (acc : Int64)
    (hs : ∀ visited, visited <+: lines → FitsInt64 (acc.toInt + centsOf visited)) :
    ∃ total, addIntegers acc (lines.map fun l ↦ Int64.ofInt l.cents) = some total ∧
      total.toInt = acc.toInt + centsOf lines := by
  induction lines generalizing acc with
  | nil => exact ⟨acc, rfl, (Int.add_zero _).symm⟩
  | cons l lines ih =>
    have hl : (Int64.ofInt l.cents).toInt = l.cents := toInt_ofInt_of_fits (h l List.mem_cons_self)
    have hfirst : FitsInt64 (acc.toInt + l.cents) := by
      have hone := hs [l] ⟨lines, rfl⟩
      simpa [centsOf] using hone
    have hnext : (Int64.ofInt (acc.toInt + l.cents)).toInt = acc.toInt + l.cents :=
      toInt_ofInt_of_fits hfirst
    have hrest : ∀ visited, visited <+: lines →
        FitsInt64 ((Int64.ofInt (acc.toInt + l.cents)).toInt + centsOf visited) := by
      intro visited hv
      have hcons := hs (l :: visited) (List.cons_prefix_cons.2 ⟨rfl, hv⟩)
      rw [hnext]
      simpa [centsOf, Int.add_assoc] using hcons
    obtain ⟨total, htotal, hsum⟩ := ih (fun l' hl' ↦ h l' (List.mem_cons_of_mem _ hl')) _ hrest
    refine ⟨total, ?_, ?_⟩
    · rw [List.map_cons, addIntegers, hl, if_pos hfirst, htotal]
    · rw [hsum, hnext]
      simp [centsOf, Int.add_assoc]

theorem centsOf_perm {lines lines' : List Line} (h : lines.Perm lines') :
    centsOf lines = centsOf lines' :=
  (h.map Line.cents).sum_eq

/-- **If nothing overflows, the stored total is the exact sum.** -/
theorem totalOf_of_fits {engine : SqlEngine} {lines : List Line} (h : Fits engine lines) :
    ∃ total, totalOf engine lines = .ok (.integer total) ∧ total.toInt = centsOf lines := by
  have hperm := engine.scan_perm lines
  have hproducts : ∀ l ∈ engine.scan lines, FitsInt64 l.cents :=
    fun l hl ↦ h.products l (hperm.mem_iff.1 hl)
  have hzero : (0 : Int64).toInt = 0 := rfl
  obtain ⟨total, hadd, hsum⟩ := addIntegers_of_fits hproducts 0
    fun visited hv ↦ by rw [hzero, Int.zero_add]; exact h.sums visited hv
  refine ⟨total, ?_, ?_⟩
  · rw [totalOf, sqlSum, integers_products hproducts]
    simp only [hadd]
    rfl
  · rw [hsum, hzero, Int.zero_add, centsOf_perm hperm]

end PhenoEvents
