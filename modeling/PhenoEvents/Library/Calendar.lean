import Mathlib.Algebra.BigOperators.Group.Finset.Basic
import Mathlib.Algebra.Order.BigOperators.Group.Finset
import Mathlib.Tactic.NormNum

/-!
# The calendar

The Gregorian calendar without a beginning in 1582, from the first of January of year 0 on.  It is
what stands behind a timestamp that is written as a date: a program that compares such texts relies
on the later day having the greater date, field by field, and on the fields having a fixed number of
digits.

Years are laid out one after the other, and in each year the months.  Both are the same thing twice:
a sequence of intervals whose lengths are given, and a place on the line they make up.  So there is
one function, `locate`, that finds the interval a place is in, and how far in.

## What is here

* `locate` and `locate_lt`: a later place is in a later interval, or further on in the same one.
  Nothing is assumed about the lengths; an interval may even be empty.
* `locate_bounds`: a place within the first `count` intervals is in one of them, and within it.
* `Leap`, `yearLength` and `monthLength`, with `sum_monthLength`: the months fill the year.
* `daysBefore` and `daysBefore_add`: the days before a year as a sum, and the closed form with the
  three divisions.  The closed form is what makes `daysBefore 10000` a number that can be computed
  (`daysBefore_tenThousand`), as the sum has ten thousand terms.
* `dateOf`, the date of a day, and the two facts a text of dates needs: `dateOf_lt` compares two
  dates in the first field that differs, and `dateOf_bounds` bounds the fields, for the days before
  year 10000.

Days are natural numbers, so nothing here is about the time before year 0.
-/

set_option autoImplicit false

namespace Calendar

open Finset

/-! ## Intervals one after the other

The search is by recursion on the number of intervals that are left to look at, and the place is
made relative to the interval as it goes on.  All lemmas follow that recursion: at each interval
both places are in it, or only the first one is, or neither. -/

/-- The interval in which the place `n` is, and where in it.  The intervals begin with the one
numbered `i`; all but the first `count` count as one. -/
def locate (length : ℕ → ℕ) : ℕ → ℕ → ℕ → ℕ × ℕ
  | 0, i, n => (i, n)
  | count + 1, i, n => if n < length i then (i, n) else locate length count (i + 1) (n - length i)

variable {length : ℕ → ℕ} {count i n a b : ℕ}

theorem le_locate : i ≤ (locate length count i n).1 := by
  induction count generalizing i n with
  | zero => exact le_rfl
  | succ count ih =>
    rw [locate]
    split
    · exact le_rfl
    · exact (Nat.le_succ i).trans ih

/-- **A later place is in a later interval**, or later in the same one. -/
theorem locate_lt (length : ℕ → ℕ) (count i : ℕ) (hab : a < b) :
    (locate length count i a).1 < (locate length count i b).1 ∨
      (locate length count i a).1 = (locate length count i b).1 ∧
        (locate length count i a).2 < (locate length count i b).2 := by
  induction count generalizing i a b with
  | zero => exact Or.inr ⟨rfl, hab⟩
  | succ count ih =>
    rw [locate, locate]
    by_cases hb : b < length i
    · rw [if_pos hb, if_pos (hab.trans hb)]
      exact Or.inr ⟨rfl, hab⟩
    · rw [if_neg hb]
      by_cases ha : a < length i
      · rw [if_pos ha]
        exact Or.inl le_locate
      · rw [if_neg ha]
        exact ih _ (by omega)

/-- A place within the first `count` intervals is in one of them. -/
theorem locate_bounds (h : n < ∑ j ∈ range count, length (i + j)) :
    (locate length count i n).1 < i + count ∧
      (locate length count i n).2 < length (locate length count i n).1 := by
  induction count generalizing i n with
  | zero => exact absurd h (Nat.not_lt_zero n)
  | succ count ih =>
    rw [locate]
    split
    · rename_i hn
      exact ⟨by omega, hn⟩
    · rename_i hn
      rw [sum_range_succ', Nat.add_zero] at h
      have hsame : ∑ j ∈ range count, length (i + (j + 1)) =
        ∑ j ∈ range count, length (i + 1 + j) :=
        sum_congr rfl fun j _ ↦ by rw [Nat.add_right_comm, Nat.add_assoc]
      obtain ⟨hfst, hsnd⟩ := ih (n := n - length i) (i := i + 1) (by omega)
      exact ⟨by omega, hsnd⟩

/-! ## Years and months

`locate` is used twice.  The outer one runs over the years up to year 10000 and leaves the day of
the year, the inner one over the twelve months and leaves the day of the month. -/

/-- A leap year. -/
def Leap (year : ℕ) : Prop := 4 ∣ year ∧ (¬100 ∣ year ∨ 400 ∣ year)

instance (year : ℕ) : Decidable (Leap year) := inferInstanceAs (Decidable (_ ∧ _))

/-- The days of a year. -/
def yearLength (year : ℕ) : ℕ := if Leap year then 366 else 365

/-- The days of a month. -/
def monthLength (year : ℕ) : ℕ → ℕ
  | 2 => if Leap year then 29 else 28
  | 4 | 6 | 9 | 11 => 30
  | _ => 31

theorem monthLength_le (year month : ℕ) : monthLength year month ≤ 31 := by
  unfold monthLength
  split
  · split <;> decide
  all_goals decide

/-- The months fill the year. -/
theorem sum_monthLength (year : ℕ) :
    ∑ j ∈ range 12, monthLength year (1 + j) = yearLength year := by
  simp only [sum_range_succ, sum_range_zero, monthLength, yearLength]
  split <;> rfl

/-- The days before a year. -/
@[irreducible] def daysBefore (year : ℕ) : ℕ := ∑ y ∈ range year, yearLength y

theorem sum_yearLength (year : ℕ) : ∑ y ∈ range year, yearLength (0 + y) = daysBefore year := by
  rw [daysBefore]
  exact sum_congr rfl fun y _ ↦ by rw [Nat.zero_add]

/-- **The days before a year**: one more for every fourth year, but not for every hundredth, but for
every four hundredth. -/
theorem daysBefore_add (year : ℕ) :
    daysBefore year + (year + 99) / 100 = 365 * year + (year + 3) / 4 + (year + 399) / 400 := by
  rw [daysBefore]
  induction year with
  | zero => rfl
  | succ year ih =>
    rw [sum_range_succ, yearLength]
    by_cases h : Leap year
    · rw [if_pos h]
      rw [Leap] at h
      omega
    · rw [if_neg h]
      rw [Leap] at h
      omega

theorem daysBefore_tenThousand : daysBefore 10000 = 3652425 := by
  have h := daysBefore_add 10000
  omega

/-- A date. -/
structure Date where
  year : ℕ
  month : ℕ
  day : ℕ
  deriving DecidableEq

/-- The date of a day, counted from the first of January of year 0.  From year 10000 on the day is
too large. -/
def dateOf (n : ℕ) : Date :=
  let (year, dayOfYear) := locate yearLength 10000 0 n
  let (month, day) := locate (monthLength year) 12 1 dayOfYear
  ⟨year, month, day + 1⟩

/-- Later dates are greater in the first field that differs. -/
theorem dateOf_lt (hab : a < b) :
    (dateOf a).year < (dateOf b).year ∨
      (dateOf a).year = (dateOf b).year ∧
        ((dateOf a).month < (dateOf b).month ∨
          (dateOf a).month = (dateOf b).month ∧ (dateOf a).day < (dateOf b).day) := by
  rcases locate_lt yearLength 10000 0 hab with hyear | ⟨hyear, hday⟩
  · exact Or.inl hyear
  · refine Or.inr ⟨hyear, ?_⟩
    have hmonth := locate_lt (monthLength (locate yearLength 10000 0 b).1) 12 1 hday
    simp only [dateOf, hyear]
    exact hmonth.imp_right fun ⟨hmonth, hday⟩ ↦ ⟨hmonth, Nat.succ_lt_succ hday⟩

/-- The fields of a date have four, two and two digits. -/
theorem dateOf_bounds (h : n < daysBefore 10000) :
    (dateOf n).year < 10000 ∧ (dateOf n).month ≤ 12 ∧ (dateOf n).day ≤ 31 := by
  obtain ⟨hyear, hday⟩ := locate_bounds (lt_of_lt_of_eq h (sum_yearLength 10000).symm)
  obtain ⟨hmonth, hday'⟩ := locate_bounds ((sum_monthLength _).symm ▸ hday)
  have hle := monthLength_le (locate yearLength 10000 0 n).1
    (locate (monthLength (locate yearLength 10000 0 n).1) 12 1 (locate yearLength 10000 0 n).2).1
  refine ⟨lt_of_lt_of_eq hyear (Nat.zero_add 10000), Nat.lt_succ_iff.1 hmonth, ?_⟩
  simp only [dateOf]
  omega

end Calendar
