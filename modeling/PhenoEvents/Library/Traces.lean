import Mathlib.Data.List.Basic
import PhenoEvents.Library.Transition

/-!
# What happens has a reason

A system that writes down what happens has a history, a list that only ever gets longer.  `Caused
cause` says that whatever is in it had a reason to be there in what was written before it.

Most questions about the past of a system have this form.  What was delivered was published before;
what was marked was claimed before; what is shown now was said by somebody.  `cause` says of a front
of the history and the next entry what is asked for, and it may be different for every kind of
entry.

* `caused_append_iff` takes a history apart.
* `caused_of_forall` is for what needs no reason.
* `caused_of_run` is the rule: if every step has a reason for what it writes, then a run has.  A
  step may rely on an invariant, and on a condition on the actions.
-/

set_option autoImplicit false

universe u v w

variable {ω : Type u} {cause : List ω → ω → Prop} {l m : List ω} {o : ω}

/-- Everything in the list has its cause in what stands before it. -/
def Caused (cause : List ω → ω → Prop) (l : List ω) : Prop :=
  ∀ before o after, l = before ++ o :: after → cause before o

theorem caused_nil : Caused cause [] := by
  intro before o after h
  simp at h

/-- What comes later has its cause in all that was before. -/
theorem caused_append_iff :
    Caused cause (l ++ m) ↔ Caused cause l ∧ Caused (fun before ↦ cause (l ++ before)) m := by
  constructor
  · intro h
    refine ⟨fun before o after hl ↦ h before o (after ++ m) ?_, fun before o after hm ↦ ?_⟩
    · rw [hl, List.append_assoc, List.cons_append]
    · exact h (l ++ before) o after (by rw [hm, List.append_assoc])
  · rintro ⟨hl, hm⟩ before o after h
    rcases List.append_eq_append_iff.1 h with ⟨front, rfl, hfront⟩ | ⟨rest, rfl, hrest⟩
    · exact hm front o after hfront
    · cases rest with
      | nil => simpa using hm [] o after hrest.symm
      | cons o' rest =>
        obtain ⟨rfl, -⟩ := List.cons_eq_cons.1 hrest
        exact hl before o rest rfl

theorem caused_singleton_iff : Caused cause [o] ↔ cause [] o := by
  constructor
  · exact fun h ↦ h [] o [] rfl
  · intro h before o' after ho
    obtain ⟨rfl, hrest⟩ | ⟨front, -, hrest⟩ := List.cons_eq_append_iff.1 ho
    · obtain ⟨rfl, -⟩ := List.cons_eq_cons.1 hrest
      exact h
    · simp at hrest

/-- What always has a cause has one here. -/
theorem caused_of_forall (h : ∀ o ∈ l, ∀ before, cause before o) : Caused cause l :=
  fun before o _ hl ↦ h o (hl ▸ List.mem_append_right before List.mem_cons_self) before

namespace Transition

variable {σ : Type v} {α : Type w} {step : σ → α → Option σ} {history : σ → List ω}

/-- **If every step has a reason for what it writes, then a run has.** -/
theorem caused_of_run {I : σ → Prop} {K : α → Prop}
    (hI : ∀ s a t, I s → K a → step s a = some t → I t)
    (hstep : ∀ s a t, I s → K a → step s a = some t →
      ∃ obs, history t = history s ++ obs ∧ Caused (fun before ↦ cause (history s ++ before)) obs)
    {s t : σ} {as : List α} (hs : I s) (hcaused : Caused cause (history s)) (has : ∀ a ∈ as, K a)
    (h : run step s as = some t) : Caused cause (history t) := by
  have hboth : I t ∧ Caused cause (history t) := by
    refine run_invariant_of_forall (I := fun t ↦ I t ∧ Caused cause (history t))
      (fun s a t ih ha hst ↦ ⟨hI s a t ih.1 ha hst, ?_⟩) ⟨hs, hcaused⟩ has h
    obtain ⟨obs, hobs, hnew⟩ := hstep s a t ih.1 ha hst
    exact hobs ▸ caused_append_iff.2 ⟨ih.2, hnew⟩
  exact hboth.2

end Transition
