import Mathlib.Data.List.Infix

/-!
# Runs of a partial step function

A system is a step function `step : σ → α → Option σ`: the action says everything the step is free
to choose, and `none` says that the action is not enabled.  Nothing here knows what the states or
the actions are.

* `run` follows a list of actions, `Reachable` closes a state under it, and `Visits` names the
  states a run passes through.
* `run_invariant` and `Reachable.invariant` are the induction every safety argument uses: what one
  step preserves, a run preserves.  `run_invariant_of_trace` is the same for what holds of the state
  and of the actions that led to it.  `exists_run_of_simulation` is the induction of a simulation.
* `StepsMeet` says that each step of a run meets a condition on the state it is taken in, and
  `visits_iff_stepsMeet` is the exact version of the same induction: when the condition is what a
  single step needs to preserve a property, the property holds in every state a run visits *exactly*
  when every step of the run meets the condition.  `later_related_iff_stepsMeet` is the same for a
  relation between a state and the states after it.
-/

set_option autoImplicit false

namespace Transition

universe u v w x

variable {σ : Type u} {α : Type v}

/-- The state a list of actions leads to, or `none` if one of them is not enabled. -/
def run (step : σ → α → Option σ) : σ → List α → Option σ
  | s, [] => some s
  | s, a :: as => (step s a).bind fun t ↦ run step t as

variable {step : σ → α → Option σ}

@[simp] theorem run_nil (s : σ) : run step s [] = some s := rfl

theorem run_cons_eq_some {s t : σ} {a : α} {as : List α} :
    run step s (a :: as) = some t ↔ ∃ m, step s a = some m ∧ run step m as = some t := by
  rw [run, Option.bind_eq_some_iff]

theorem run_append (s : σ) (as bs : List α) :
    run step s (as ++ bs) = (run step s as).bind fun t ↦ run step t bs := by
  induction as generalizing s with
  | nil => simp
  | cons a as ih =>
    rw [List.cons_append, run, run, Option.bind_assoc]
    exact congrArg _ (funext ih)

/-- Running two lists of actions one after the other. -/
theorem run_append_eq_some {s m t : σ} {as bs : List α} (h : run step s as = some m)
    (h' : run step m bs = some t) : run step s (as ++ bs) = some t := by
  rw [run_append, h, Option.bind_some, h']

/-! ## Invariants

The rules by which safety is proved.  The step lemma is about the program, and the rest is the same
for every program: an induction over the list of actions, from the front for a run that goes on and
from the end for what is read off the actions that were taken. -/

/-- **What steps of one kind preserve, a run of such steps preserves.** -/
theorem run_invariant_of_forall {I : σ → Prop} {K : α → Prop}
    (hstep : ∀ s a t, I s → K a → step s a = some t → I t) {s t : σ} {as : List α} (hs : I s)
    (has : ∀ a ∈ as, K a) (h : run step s as = some t) : I t := by
  induction as generalizing s with
  | nil => rw [run_nil, Option.some_inj] at h; exact h ▸ hs
  | cons a as ih =>
    obtain ⟨m, hm, h⟩ := run_cons_eq_some.1 h
    rw [List.forall_mem_cons] at has
    exact ih (hstep s a m hs has.1 hm) has.2 h

/-- **What one step preserves, a run preserves.** -/
theorem run_invariant {I : σ → Prop} (hstep : ∀ s a t, I s → step s a = some t → I t) {s t : σ}
    {as : List α} (hs : I s) (h : run step s as = some t) : I t :=
  run_invariant_of_forall (K := fun _ ↦ True) (fun s a t hs _ ht ↦ hstep s a t hs ht) hs
    (fun _ _ ↦ trivial) h

/-- **What one more step preserves holds of the actions of a run and the state they lead to.** -/
theorem run_invariant_of_trace {I : List α → σ → Prop} {s t : σ} {as : List α} (hs : I [] s)
    (hstep : ∀ as a m t, I as m → step m a = some t → I (as ++ [a]) t)
    (h : run step s as = some t) : I as t := by
  induction as using List.reverseRecOn generalizing t with
  | nil => rw [run_nil, Option.some_inj] at h; exact h ▸ hs
  | append_singleton as a ih =>
    rw [run_append, Option.bind_eq_some_iff] at h
    obtain ⟨m, hm, h⟩ := h
    obtain ⟨t', ht', h⟩ := run_cons_eq_some.1 h
    obtain rfl := Option.some_inj.1 h
    exact hstep as a m t' (ih hm) ht'

/-- `s` can be reached from `init`. -/
def Reachable (step : σ → α → Option σ) (init s : σ) : Prop := ∃ as, run step init as = some s

theorem Reachable.run {init s t : σ} (hs : Reachable step init s) {as : List α}
    (h : run step s as = some t) : Reachable step init t := by
  obtain ⟨bs, hbs⟩ := hs
  exact ⟨bs ++ as, run_append_eq_some hbs h⟩

theorem Reachable.next {init s t : σ} (hs : Reachable step init s) {a : α}
    (h : step s a = some t) : Reachable step init t :=
  hs.run (run_cons_eq_some.2 ⟨t, h, run_nil t⟩)

/-- An invariant that holds at the start holds in every reachable state. -/
theorem Reachable.invariant {I : σ → Prop} {init s : σ} (h0 : I init)
    (hstep : ∀ s a t, I s → step s a = some t → I t) (h : Reachable step init s) : I s := by
  obtain ⟨as, has⟩ := h
  exact run_invariant hstep h0 has

/-! ## Simulation

One system answers the steps of another.  How many steps an answer takes is left open, and it may be
none. -/

/-- The run of `as` from `s` passes through `t`. -/
def Visits (step : σ → α → Option σ) (s : σ) (as : List α) (t : σ) : Prop :=
  ∃ bs, bs <+: as ∧ Transition.run step s bs = some t

theorem visits_nil {s t : σ} : Visits step s [] t ↔ t = s := by
  constructor
  · rintro ⟨bs, hbs, h⟩
    rw [List.prefix_nil] at hbs
    subst hbs
    exact (Option.some_inj.1 h).symm
  · rintro rfl
    exact ⟨[], List.prefix_rfl, rfl⟩

theorem visits_cons {s t : σ} {a : α} {as : List α} :
    Visits step s (a :: as) t ↔ t = s ∨ ∃ m, step s a = some m ∧ Visits step m as t := by
  constructor
  · rintro ⟨bs, hbs, h⟩
    cases bs with
    | nil => exact Or.inl (Option.some_inj.1 h).symm
    | cons b bs =>
      obtain ⟨rfl, hpre⟩ := List.cons_prefix_cons.1 hbs
      obtain ⟨m, hm, h⟩ := run_cons_eq_some.1 h
      exact Or.inr ⟨m, hm, bs, hpre, h⟩
  · rintro (rfl | ⟨m, hm, bs, hbs, h⟩)
    · exact ⟨[], List.nil_prefix, rfl⟩
    · exact ⟨a :: bs, List.cons_prefix_cons.2 ⟨rfl, hbs⟩, run_cons_eq_some.2 ⟨m, hm, h⟩⟩

/-- The last state of a run is one of its states. -/
theorem visits_of_run {s t : σ} {as : List α} (h : Transition.run step s as = some t) :
    Visits step s as t :=
  ⟨as, List.prefix_rfl, h⟩

/-! ## Conditions on the steps of a run

A safety property may fail in some runs and hold in others.  Then the question is in which, and a
useful answer is a condition on each step and the state before it, so that nobody has to look at the
outcome. -/

/-- Every step the run of `as` from `s` takes meets the condition `C` in the state it is taken
in. -/
def StepsMeet (step : σ → α → Option σ) (C : σ → α → Prop) : σ → List α → Prop
  | _, [] => True
  | s, a :: as => ∀ t, step s a = some t → C s a ∧ StepsMeet step C t as

theorem stepsMeet_append {C : σ → α → Prop} {s : σ} {as bs : List α} :
    StepsMeet step C s (as ++ bs) ↔
      StepsMeet step C s as ∧ ∀ t, Transition.run step s as = some t → StepsMeet step C t bs := by
  induction as generalizing s with
  | nil =>
    constructor
    · exact fun h ↦ ⟨trivial, fun t ht ↦ Option.some_inj.1 ht ▸ h⟩
    · exact fun h ↦ h.2 s rfl
  | cons a as ih =>
    constructor
    · intro h
      refine ⟨fun m hm ↦ ⟨(h m hm).1, (ih.1 (h m hm).2).1⟩, fun t ht ↦ ?_⟩
      obtain ⟨m, hm, ht⟩ := run_cons_eq_some.1 ht
      exact (ih.1 (h m hm).2).2 t ht
    · rintro ⟨hfirst, hrest⟩ m hm
      obtain ⟨ha, has⟩ := hfirst m hm
      exact ⟨ha, ih.2 ⟨has, fun t ht ↦ hrest t (run_cons_eq_some.2 ⟨m, hm, ht⟩)⟩⟩

/-- A condition is met by all steps of a run if it is met by each of them. -/
theorem stepsMeet_of_forall {C : σ → α → Prop} {s : σ} {as : List α}
    (h : ∀ front a m t, front ++ [a] <+: as → Transition.run step s front = some m →
      step m a = some t → C m a) : StepsMeet step C s as := by
  induction as generalizing s with
  | nil => trivial
  | cons a as ih =>
    refine fun m hm ↦ ⟨h [] a s m (List.prefix_append [a] as) rfl hm, ih ?_⟩
    intro front b n t hpre hn ht
    exact h (a :: front) b n t (List.cons_prefix_cons.2 ⟨rfl, hpre⟩)
      (run_cons_eq_some.2 ⟨m, hm, hn⟩) ht

/-- One condition is met where another one is, if an invariant of the runs that meet that one says
so. -/
theorem StepsMeet.imp {I : σ → Prop} {C D : σ → α → Prop}
    (hstep : ∀ s a t, I s → C s a → step s a = some t → I t) (hCD : ∀ s a, I s → C s a → D s a)
    {s : σ} {as : List α} (hs : I s) (hC : StepsMeet step C s as) : StepsMeet step D s as := by
  induction as generalizing s with
  | nil => trivial
  | cons a as ih =>
    intro m hm
    obtain ⟨ha, has⟩ := hC m hm
    exact ⟨hCD s a hs ha, ih (hstep s a m hs ha hm) has⟩

/-- **What a step meeting the condition preserves holds in every state of a run whose steps all
meet it.** -/
theorem StepsMeet.invariant {I : σ → Prop} {C : σ → α → Prop}
    (hstep : ∀ s a t, I s → C s a → step s a = some t → I t) {s t : σ} {as : List α} (hs : I s)
    (hC : StepsMeet step C s as) (ht : Visits step s as t) : I t := by
  induction as generalizing s with
  | nil => exact visits_nil.1 ht ▸ hs
  | cons a as ih =>
    rcases visits_cons.1 ht with rfl | ⟨m, hm, ht⟩
    · exact hs
    · obtain ⟨ha, hC⟩ := hC m hm
      exact ih (hstep s a m hs ha hm) hC ht

/-- **The exact condition for a property of every visited state.**  `I` holds in all states of the
run.  If, among states satisfying `I`, a step from a state with `P` ends in a state with `P` exactly
when it meets `C`, then `P` holds all along the run exactly when all its steps meet `C`. -/
theorem visits_iff_stepsMeet_of_visits {I P : σ → Prop} {C : σ → α → Prop}
    (hP : ∀ s a t, I s → I t → P s → step s a = some t → (P t ↔ C s a)) {s : σ} {as : List α}
    (hI : ∀ t, Visits step s as t → I t) (hPs : P s) :
    (∀ t, Visits step s as t → P t) ↔ StepsMeet step C s as := by
  induction as generalizing s with
  | nil => exact ⟨fun _ ↦ trivial, fun _ t ht ↦ visits_nil.1 ht ▸ hPs⟩
  | cons a as ih =>
    have hfirst : I s := hI s (visits_cons.2 (Or.inl rfl))
    have hnext : ∀ m, step s a = some m → ∀ t, Visits step m as t → Visits step s (a :: as) t :=
      fun m hm t ht ↦ visits_cons.2 (Or.inr ⟨m, hm, ht⟩)
    have hrest : ∀ m, step s a = some m → ∀ t, Visits step m as t → I t :=
      fun m hm t ht ↦ hI t (hnext m hm t ht)
    have hstart : ∀ m, Visits step m as m := fun m ↦ ⟨[], List.nil_prefix, rfl⟩
    constructor
    · intro h m hm
      have hPm : P m := h m (hnext m hm m (hstart m))
      have hC : C s a := (hP s a m hfirst (hrest m hm m (hstart m)) hPs hm).1 hPm
      exact ⟨hC, (ih (hrest m hm) hPm).1 fun t ht ↦ h t (hnext m hm t ht)⟩
    · intro h t ht
      rcases visits_cons.1 ht with rfl | ⟨m, hm, ht⟩
      · exact hPs
      · obtain ⟨hC, hsteps⟩ := h m hm
        have hPm : P m := (hP s a m hfirst (hrest m hm m (hstart m)) hPs hm).2 hC
        exact (ih (hrest m hm) hPm).2 hsteps t ht

/-- The exact condition, where `I` is an invariant of all runs. -/
theorem visits_iff_stepsMeet {I P : σ → Prop} {C : σ → α → Prop}
    (hI : ∀ s a t, I s → step s a = some t → I t)
    (hP : ∀ s a t, I s → P s → step s a = some t → (P t ↔ C s a)) {s : σ} (hs : I s) (hPs : P s)
    (as : List α) : (∀ t, Visits step s as t → P t) ↔ StepsMeet step C s as :=
  visits_iff_stepsMeet_of_visits (fun s a t hs _ hPs hstep ↦ hP s a t hs hPs hstep)
    (fun _ ⟨_, _, hrun⟩ ↦ run_invariant hI hs hrun) hPs

/-- **The exact condition for a property of two states.**  A reflexive and transitive relation holds
between any state of a run and any later one exactly when every single step satisfies it. -/
theorem later_related_iff_stepsMeet {R : σ → σ → Prop} (hrefl : ∀ s, R s s)
    (htrans : ∀ s t u, R s t → R t u → R s u) {s : σ} {as : List α} :
    (∀ bs cs m t, bs ++ cs <+: as → Transition.run step s bs = some m →
      Transition.run step m cs = some t → R m t) ↔
      StepsMeet step (fun s a ↦ ∀ t, step s a = some t → R s t) s as := by
  induction as generalizing s with
  | nil =>
    refine ⟨fun _ ↦ trivial, fun _ bs cs m t hpre hm ht ↦ ?_⟩
    obtain ⟨rfl, rfl⟩ := List.append_eq_nil_iff.1 (List.prefix_nil.1 hpre)
    obtain rfl := Option.some_inj.1 hm
    obtain rfl := Option.some_inj.1 ht
    exact hrefl s
  | cons a as ih =>
    constructor
    · intro h t ht
      refine ⟨fun t' ht' ↦ ?_, ih.1 fun bs cs m u hpre hm hu ↦ ?_⟩
      · exact h [] [a] s t' (List.cons_prefix_cons.2 ⟨rfl, List.nil_prefix⟩) rfl
          (run_cons_eq_some.2 ⟨t', ht', rfl⟩)
      · exact h (a :: bs) cs m u (List.cons_prefix_cons.2 ⟨rfl, hpre⟩)
          (run_cons_eq_some.2 ⟨t, ht, hm⟩) hu
    · intro h bs cs m t hpre hm ht
      cases bs with
      | cons b bs =>
        obtain ⟨rfl, hrest⟩ := List.cons_prefix_cons.1 hpre
        obtain ⟨n, hn, hm⟩ := run_cons_eq_some.1 hm
        exact ih.2 (h n hn).2 bs cs m t hrest hm ht
      | nil =>
        obtain rfl := Option.some_inj.1 hm
        cases cs with
        | nil => exact Option.some_inj.1 ht ▸ hrefl s
        | cons c cs =>
          obtain ⟨rfl, hrest⟩ := List.cons_prefix_cons.1 hpre
          obtain ⟨n, hn, ht⟩ := run_cons_eq_some.1 ht
          exact htrans s n t ((h n hn).1 n hn) (ih.2 (h n hn).2 [] cs n t hrest rfl ht)

/-- Whether the steps of a run meet a condition can be computed. -/
instance decidableStepsMeet {C : σ → α → Prop} [∀ s a, Decidable (C s a)] :
    ∀ (s : σ) (as : List α), Decidable (StepsMeet step C s as)
  | _, [] => isTrue trivial
  | s, a :: as =>
    match h : step s a with
    | none => isTrue fun t ht ↦ by rw [h] at ht; cases ht
    | some m =>
      have : Decidable (StepsMeet step C m as) := decidableStepsMeet m as
      decidable_of_iff (C s a ∧ StepsMeet step C m as)
        ⟨fun hm t ht ↦ Option.some_inj.1 (h.symm.trans ht) ▸ hm, fun hall ↦ hall m h⟩

/-- The states of a run can be computed. -/
theorem forall_visits_of_inits {Q : σ → Bool} {s : σ} {as : List α}
    (h : (as.inits.all fun bs ↦ (run step s bs).all Q) = true) :
    ∀ t, Visits step s as t → Q t = true := by
  rintro t ⟨bs, hbs, hrun⟩
  have hbs' := List.all_eq_true.1 h bs ((List.mem_inits bs as).2 hbs)
  rw [hrun] at hbs'
  exact hbs'

end Transition
