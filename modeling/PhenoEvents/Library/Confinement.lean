import Mathlib.Init

/-!
# Events that keep to their part of the state

A state has parts, and an event concerns some of them.  The steps of a system are confined if an
event leaves alone the parts it does not concern, and if what it does to the others depends on
nothing but what they are (`Confined`).  Then a part after a run is what the events that concern it
make of it (`Confined.part_foldl`), and two runs that agree on these agree on the part, in whatever
order the other events come between them (`Confined.part_foldl_eq`).

The two fields of `Confined` are the frame condition of one step and a condition that is easily
forgotten: an event might leave the other parts alone and still read them.

There are two ways to see that steps are confined.  If a part is a projection to a smaller type,
both fields have to be shown.  If it is a state of its own (the state without all that is not in the
part), it is enough that the step commutes with taking the part (`confined_of_commutes`).

Nothing is said about failure: `step` is a total function, so a step that may fail is to be taken
with what it leaves behind when it does.
-/

set_option autoImplicit false

universe u v w x

namespace Confinement

variable {σ : Type u} {ε : Type v} {κ : Type w} {ν : Type x} {step : σ → ε → σ}
  {concerns : κ → ε → Bool}

/-- Every event keeps to the parts it concerns. -/
structure Confined (step : σ → ε → σ) (concerns : κ → ε → Bool) (part : κ → σ → ν) : Prop where
  /-- The other parts stay as they are. -/
  frame : ∀ k s e, concerns k e = false → part k (step s e) = part k s
  /-- What becomes of a part depends on this part only. -/
  depends : ∀ k s t e, concerns k e = true → part k s = part k t →
    part k (step s e) = part k (step t e)

/-- A part that is a state of its own, and on which its events do what they do on the whole. -/
theorem confined_of_commutes {part : κ → σ → σ}
    (hframe : ∀ k s e, concerns k e = false → part k (step s e) = part k s)
    (hcommutes : ∀ k s e, concerns k e = true → part k (step s e) = step (part k s) e) :
    Confined step concerns part where
  frame := hframe
  depends k s t e he hst := by rw [hcommutes k s e he, hcommutes k t e he, hst]

namespace Confined

variable {part : κ → σ → ν} {k : κ} {s t : σ} {es es' : List ε}

/-- **A part after a run is what the events that concern it make of it.** -/
theorem part_foldl (h : Confined step concerns part) (hst : part k s = part k t) :
    part k (es.foldl step s) = part k ((es.filter (concerns k)).foldl step t) := by
  induction es generalizing s t with
  | nil => exact hst
  | cons e es ih =>
    cases he : concerns k e with
    | true =>
      rw [List.filter_cons_of_pos he]
      exact ih (h.depends k s t e he hst)
    | false =>
      rw [List.filter_cons_of_neg (by simp [he])]
      exact ih ((h.frame k s e he).trans hst)

/-- **Runs that agree on the events of a part agree on the part.** -/
theorem part_foldl_eq (h : Confined step concerns part) (hst : part k s = part k t)
    (hes : es.filter (concerns k) = es'.filter (concerns k)) :
    part k (es.foldl step s) = part k (es'.foldl step t) := by
  rw [h.part_foldl hst, hes, ← h.part_foldl rfl]

end Confined

end Confinement
