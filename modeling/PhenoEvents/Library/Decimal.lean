import Mathlib.Algebra.Order.Group.Nat
import Mathlib.Data.List.Lex
import Mathlib.Data.Nat.Basic
import Mathlib.Tactic.IntervalCases

/-!
# Decimal texts and their order

Texts of numbers that are compared character by character.  With a fixed number of digits the order
of the texts is that of the numbers (`decimal_lt_decimal`), and so it is for several numbers one
after the other, if they are the quotient and the remainder of one number
(`append_lt_append_of_div_mod`).

Decimal fractions whose zeros at the end are cut off have different lengths.  Their order is still
that of the numbers if what follows them is less than a digit (`fraction_lt_fraction`).

## What is here

* `append_lt_append_of_lt` and `append_lt_append_of_div_mod`: how the order of texts is put together
  from that of their parts.  The parts in front must have one length; those behind need not.
* `decimal width n`, the last `width` digits of `n`.  A number that is too large loses its first
  digits, and `decimal_lt_decimal` has to exclude that.
* `decimal_add`: the text of a number can be cut into that of a quotient and that of a remainder.
* `fraction_lt_fraction`, for two numbers of which one shows more digits than the other.

A text is a list of characters here.  What the order of the characters has to do with that of bytes
is a matter of the encoding, and not of this file.
-/

set_option autoImplicit false

universe u

namespace List

variable {α : Type u} [LT α] {l m s t : List α}

/-- Of two lists that begin with parts of one length, the first parts decide. -/
theorem append_lt_append_of_lt (h : l < m) (hlength : l.length = m.length) : l ++ s < m ++ t := by
  induction l generalizing m with
  | nil =>
    rw [length_nil, eq_comm, length_eq_zero_iff] at hlength
    subst hlength
    exact absurd h (not_lt_nil _)
  | cons a l ih =>
    cases m with
    | nil => cases hlength
    | cons b m =>
      rw [cons_append, cons_append, cons_lt_cons_iff]
      rcases cons_lt_cons_iff.1 h with hab | ⟨rfl, hlm⟩
      · exact Or.inl hab
      · exact Or.inr ⟨rfl, ih hlm (Nat.succ.inj hlength)⟩

/-- The texts of a quotient and a remainder, one after the other. -/
theorem append_lt_append_of_div_mod {f g : ℕ → List α} {k a b : ℕ} (hab : a < b)
    (hlength : (f (a / k)).length = (f (b / k)).length) (hf : a / k < b / k → f (a / k) < f (b / k))
    (hg : a % k < b % k → g (a % k) < g (b % k)) :
    f (a / k) ++ g (a % k) < f (b / k) ++ g (b % k) := by
  rcases Nat.lt_or_ge (a / k) (b / k) with hlt | hge
  · exact append_lt_append_of_lt (hf hlt) hlength
  · have hdiv : a / k = b / k := le_antisymm (Nat.div_le_div_right hab.le) hge
    have hmod : a % k < b % k := by
      have ha := Nat.div_add_mod a k
      have hb := Nat.div_add_mod b k
      rw [hdiv] at ha
      omega
    rw [hdiv]
    exact append_left_lt (hg hmod)

end List

namespace Decimal

open List

/-- The last `width` digits of a number, the most significant one first, with zeros in front if it
has fewer. -/
def decimal : ℕ → ℕ → List Char
  | 0, _ => []
  | width + 1, n => decimal width (n / 10) ++ [Nat.digitChar (n % 10)]

@[simp] theorem length_decimal (width n : ℕ) : (decimal width n).length = width := by
  induction width generalizing n with
  | zero => rfl
  | succ width ih => rw [decimal, length_append, ih, length_singleton]

theorem digitChar_lt_digitChar {d e : ℕ} (h : d < e) (he : e < 10) :
    Nat.digitChar d < Nat.digitChar e := by
  interval_cases e <;> interval_cases d <;> decide

/-- **The order of the texts is that of the numbers.** -/
theorem decimal_lt_decimal {width a b : ℕ} (hab : a < b) (hb : b < 10 ^ width) :
    decimal width a < decimal width b := by
  induction width generalizing a b with
  | zero => omega
  | succ width ih =>
    refine append_lt_append_of_div_mod (f := decimal width) (g := fun d ↦ [Nat.digitChar d])
      (k := 10)
      hab (by simp) (fun hlt ↦ ih hlt ?_) fun hlt ↦ ?_
    · rw [pow_succ] at hb
      omega
    · exact cons_lt_cons_iff.2 (Or.inl (digitChar_lt_digitChar hlt (Nat.mod_lt b (by decide))))

/-- A text can be cut. -/
theorem decimal_add (width k n : ℕ) :
    decimal (width + k) n = decimal width (n / 10 ^ k) ++ decimal k (n % 10 ^ k) := by
  induction k generalizing n with
  | zero => simp [decimal]
  | succ k ih =>
    have hdiv : n / 10 / 10 ^ k = n / 10 ^ (k + 1) := by rw [Nat.div_div_eq_div_mul, pow_succ']
    have hmod : n % 10 ^ (k + 1) / 10 = n / 10 % 10 ^ k := by
      rw [pow_succ', Nat.mod_mul_right_div_self]
    have hlast : n % 10 ^ (k + 1) % 10 = n % 10 :=
      Nat.mod_mod_of_dvd n (Dvd.intro_left (10 ^ k) (pow_succ 10 k).symm)
    rw [← Nat.add_assoc, decimal, ih, decimal, hdiv, hmod, hlast, append_assoc]

/-- The first digit. -/
theorem exists_cons_decimal (width n : ℕ) :
    ∃ d < 10, ∃ rest, decimal (width + 1) n = Nat.digitChar d :: rest := by
  induction width generalizing n with
  | zero => exact ⟨n % 10, Nat.mod_lt n (by decide), [], rfl⟩
  | succ width ih =>
    obtain ⟨d, hd, rest, hrest⟩ := ih (n / 10)
    refine ⟨d, hd, rest ++ [Nat.digitChar (n % 10)], ?_⟩
    rw [decimal, hrest]
    rfl

/-- **Fractions without the zeros at their end.**  The numbers count parts of `10 ^ (shown +
hidden)`, and the hidden digits are zeros.  What follows the digits begins with `mark`, which is
less than any digit, so a fraction that ends early is less than one that goes on with a digit. -/
theorem fraction_lt_fraction {shown hidden shown' hidden' a b : ℕ} {mark : Char} {s t : List Char}
    (hwidth : shown + hidden = shown' + hidden') (ha : 10 ^ hidden ∣ a) (hb : 10 ^ hidden' ∣ b)
    (hab : a < b) (hlt : b < 10 ^ (shown + hidden))
    (hmark : ∀ d < 10, mark < Nat.digitChar d) :
    decimal shown (a / 10 ^ hidden) ++ mark :: s <
      decimal shown' (b / 10 ^ hidden') ++ mark :: t := by
  rcases le_total shown shown' with hle | hle
  · obtain ⟨k, rfl⟩ := Nat.exists_eq_add_of_le hle
    obtain rfl : hidden = hidden' + k := by omega
    have hdiv : b / 10 ^ hidden' / 10 ^ k = b / 10 ^ (hidden' + k) := by
      rw [Nat.div_div_eq_div_mul, ← pow_add]
    rw [decimal_add, hdiv, append_assoc]
    rcases Nat.lt_or_ge (a / 10 ^ (hidden' + k)) (b / 10 ^ (hidden' + k)) with hquot | hquot
    · refine append_lt_append_of_lt (decimal_lt_decimal hquot ?_) (by simp)
      exact Nat.div_lt_of_lt_mul (by rwa [← pow_add, add_comm])
    · have hsame : a / 10 ^ (hidden' + k) = b / 10 ^ (hidden' + k) :=
        le_antisymm (Nat.div_le_div_right hab.le) hquot
      rw [hsame]
      refine append_left_lt ?_
      cases k with
      | zero =>
        have heq : a = b := by
          rw [← Nat.div_mul_cancel ha, ← Nat.div_mul_cancel hb]
          exact congrArg (· * _) hsame
        exact absurd heq hab.ne
      | succ k =>
        obtain ⟨d, hd, rest, hrest⟩ := exists_cons_decimal k (b / 10 ^ hidden' % 10 ^ (k + 1))
        rw [hrest, cons_append, cons_lt_cons_iff]
        exact Or.inl (hmark d hd)
  · obtain ⟨k, rfl⟩ := Nat.exists_eq_add_of_le hle
    obtain rfl : hidden' = hidden + k := by omega
    have hdiv : a / 10 ^ hidden / 10 ^ k = a / 10 ^ (hidden + k) := by
      rw [Nat.div_div_eq_div_mul, ← pow_add]
    have hquot : a / 10 ^ (hidden + k) < b / 10 ^ (hidden + k) :=
      Nat.div_lt_div_of_lt_of_dvd hb hab
    rw [decimal_add, hdiv, append_assoc]
    refine append_lt_append_of_lt (decimal_lt_decimal hquot ?_) (by simp)
    exact Nat.div_lt_of_lt_mul (by rwa [← pow_add, add_comm, ← hwidth])

end Decimal
