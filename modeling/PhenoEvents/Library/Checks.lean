import Mathlib.Init

/-!
# Checks that stop at the first failure

A check is a computation in `Except ε`; running several of them in a row stops at the first error.
These lemmas turn "the whole sequence passed" into "each check passed", which is all a caller needs
when it does not care which error came first.

Where the caller does care, the order matters, and there are lemmas for the error too: an error is
that of the first check that fails, and so all checks in front of it have passed.

## What is here

* `bind_eq_ok_iff`, and `check_bind_eq_ok_iff` and `check_bind_eq_error_iff` for a check that is
  followed by something else.  A validator written with `do` is taken apart with these, one line at
  a time.
* `forM_eq_ok_iff`: a loop of checks passes exactly when each of them does.
* `exists_of_forM_eq_error` and `forM_eq_error_iff`: where the error of a loop comes from.  The
  first says that some entry has it, the second that it is the first entry that has any.
* `map_const_eq_iff`, `map_const_eq_ok_iff` and `mapError_eq_ok_iff`: checks whose result or error
  is replaced by the caller's own.

An `Except` of decidable types has decidable equality, so that a verdict can be computed and
compared.
-/

set_option autoImplicit false

universe u v w

namespace Except

variable {ε : Type u} {α β : Type v}

instance decidableEq [DecidableEq ε] [DecidableEq α] : DecidableEq (Except ε α)
  | .error e, .error e' => decidable_of_iff (e = e') ⟨congrArg _, Except.error.inj⟩
  | .ok a, .ok b => decidable_of_iff (a = b) ⟨congrArg _, Except.ok.inj⟩
  | .error _, .ok _ => isFalse (by simp)
  | .ok _, .error _ => isFalse (by simp)

/-- A computation that continues passes exactly when both parts do. -/
theorem bind_eq_ok_iff {x : Except ε α} {f : α → Except ε β} {b : β} :
    (x >>= f) = .ok b ↔ ∃ a, x = .ok a ∧ f a = .ok b := by
  cases x with
  | error e => simp [bind, Except.bind]
  | ok a => simp [bind, Except.bind]

/-- A check followed by another computation. -/
theorem check_bind_eq_ok_iff {x : Except ε PUnit.{v + 1}} {y : Except ε β} {b : β} :
    (x >>= fun _ ↦ y) = .ok b ↔ x = .ok ⟨⟩ ∧ y = .ok b := by
  rw [bind_eq_ok_iff]
  exact ⟨fun ⟨_, h, h'⟩ ↦ ⟨h, h'⟩, fun ⟨h, h'⟩ ↦ ⟨_, h, h'⟩⟩

/-- The error comes from the check, or from what follows it. -/
theorem check_bind_eq_error_iff {x : Except ε PUnit.{v + 1}} {y : Except ε β} {e : ε} :
    (x >>= fun _ ↦ y) = .error e ↔ x = .error e ∨ x = .ok ⟨⟩ ∧ y = .error e := by
  cases x with
  | error e' => simp [bind, Except.bind]
  | ok u => simp [bind, Except.bind]

/-- **A loop of checks passes exactly when each of them does.** -/
theorem forM_eq_ok_iff {γ : Type w} {l : List γ} {f : γ → Except ε PUnit.{v + 1}} :
    forM l f = .ok ⟨⟩ ↔ ∀ a ∈ l, f a = .ok ⟨⟩ := by
  induction l with
  | nil => exact ⟨fun _ _ h ↦ absurd h List.not_mem_nil, fun _ ↦ rfl⟩
  | cons a l ih => rw [List.forM_cons, check_bind_eq_ok_iff, ih, List.forall_mem_cons]

/-- The error of a loop is that of one of its checks. -/
theorem exists_of_forM_eq_error {γ : Type w} {l : List γ} {f : γ → Except ε PUnit.{v + 1}} {e : ε}
    (h : forM l f = .error e) : ∃ a ∈ l, f a = .error e := by
  induction l with
  | nil => cases h
  | cons a l ih =>
    rw [List.forM_cons, check_bind_eq_error_iff] at h
    rcases h with h | ⟨-, h⟩
    · exact ⟨a, List.mem_cons_self, h⟩
    · obtain ⟨b, hb, hfb⟩ := ih h
      exact ⟨b, List.mem_cons_of_mem a hb, hfb⟩

/-- A loop over a list ends with the error of the first entry that has one. -/
theorem forM_eq_error_iff {γ : Type w} {l : List γ} {f : γ → Except ε PUnit.{v + 1}} {e : ε} :
    forM l f = .error e ↔ ∃ front a back, l = front ++ a :: back ∧ (∀ b ∈ front, f b = .ok ⟨⟩) ∧
      f a = .error e := by
  induction l with
  | nil => exact iff_of_false (fun h ↦ by cases h) (by simp)
  | cons b l ih =>
    rw [List.forM_cons, check_bind_eq_error_iff, ih]
    constructor
    · rintro (h | ⟨hb, front, a, back, rfl, hfront, ha⟩)
      · exact ⟨[], b, l, rfl, fun _ hb ↦ absurd hb List.not_mem_nil, h⟩
      · exact ⟨b :: front, a, back, rfl, List.forall_mem_cons.2 ⟨hb, hfront⟩, ha⟩
    · rintro ⟨front, a, back, hl, hfront, ha⟩
      cases front with
      | nil =>
        obtain ⟨rfl, rfl⟩ := List.cons_eq_cons.1 hl
        exact Or.inl ha
      | cons c front =>
        obtain ⟨rfl, rfl⟩ := List.cons_eq_cons.1 hl
        obtain ⟨hc, hfront⟩ := List.forall_mem_cons.1 hfront
        exact Or.inr ⟨hc, front, a, back, rfl, hfront, ha⟩

/-- Two checks that hand out a value come to the same. -/
theorem map_const_eq_iff {x y : Except ε PUnit.{v + 1}} {a b : β} :
    (x.map fun _ ↦ a) = (y.map fun _ ↦ b) ↔ x = y ∧ (x = .ok ⟨⟩ → a = b) := by
  cases x with
  | error e => cases y <;> simp [Except.map]
  | ok u => cases y <;> simp [Except.map]

/-- A check that hands out a value has passed if the value is there. -/
theorem map_const_eq_ok_iff {x : Except ε PUnit.{v + 1}} {a b : β} :
    (x.map fun _ ↦ a) = .ok b ↔ x = .ok ⟨⟩ ∧ a = b := by
  cases x with
  | error e => simp [Except.map]
  | ok u => simp [Except.map]

theorem mapError_eq_ok_iff {ε' : Type u} {g : ε → ε'} {x : Except ε α} {a : α} :
    x.mapError g = .ok a ↔ x = .ok a := by
  cases x with
  | error e => exact ⟨fun h ↦ (by cases h), fun h ↦ (by cases h)⟩
  | ok b => exact ⟨fun h ↦ congrArg _ (Except.ok.inj h), fun h ↦ congrArg _ (Except.ok.inj h)⟩

end Except
