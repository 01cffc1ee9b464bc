import Mathlib.Data.List.Infix

/-!
# Several consumers of one log and one store

A log grows at its end.  Any number of consumers go through it, entry by entry, and write every
entry they read to one store they share, so entries are written more than once and not in order.  A
column of the store keeps the last entry of some kind that was written to it: the kind is a
predicate `p`, and the column shows `past.find? p`, where `past` is the list of the entries written,
the newest first.

A consumer that is behind the others makes the store go back to old entries.  It also still has the
newer ones ahead of it.  `Good.covered` is the invariant: a column shows the last entry of its kind
that anybody has reached, or somebody has one of its kind ahead.  So once everybody has come to the
end, every column shows the last entry of its kind in the log (`Good.find?_past`).

A consumer may join anywhere below `high`, the number of entries that have been reached, and it may
fall back.  It must not skip an entry.

## What is here

* `State` and `Step`: the log grows, a consumer is placed somewhere it may be, or a consumer writes
  its next entry.  A program is one of these systems if each of its steps is a sequence of such
  ones.
* `Good`, the invariant.  Besides `covered` it says that all that has been reached has been written,
  and that whenever an entry was written all entries in front of it had been (`ordered`).  The
  second is what an entry needs that depends on an earlier one.
* `Good.step`: every step keeps it.  A write is one of two kinds, `rewrite` and `advance`, as the
  entry has been reached before or not.
* `Good.find?_past` and `Good.findSome?_past`: what the store shows in the end.

That everybody comes to the end is an assumption of the last two.  A consumer that has died with
entries ahead of it may leave the store as it is, until somebody takes its place.
-/

set_option autoImplicit false

universe u v w

namespace Replicas

variable {ι : Type u} {τ : Type v}

/-- A log and its consumers. -/
structure State (ι : Type u) (τ : Type v) where
  log : List τ
  /-- What has been written, the newest first. -/
  past : List τ
  /-- How many entries a consumer is done with. -/
  position : ι → Option ℕ
  /-- How many entries somebody has been done with. -/
  high : ℕ

namespace State

/-- An empty log without consumers. -/
def initial : State ι τ := ⟨[], [], fun _ ↦ none, 0⟩

/-- The entries that have been reached. -/
def reached (s : State ι τ) : List τ := s.log.take s.high

/-- Somebody has an entry of the kind ahead, among those that have been reached. -/
def Covered (s : State ι τ) (p : τ → Bool) : Prop :=
  ∃ i n, s.position i = some n ∧ ∃ e ∈ s.reached.drop n, p e = true

end State

/-- What can happen.  Which consumer does something, and when, is left open. -/
inductive Step [DecidableEq ι] (s : State ι τ) : State ι τ → Prop
  /-- The log grows. -/
  | grow (entries : List τ) : Step s { s with log := s.log ++ entries }
  /-- A consumer joins, or falls back. -/
  | place (i : ι) (n : ℕ) (hn : n ≤ s.high) (hback : ∀ m, s.position i = some m → n ≤ m) :
      Step s { s with position := Function.update s.position i (some n) }
  /-- A consumer writes its next entry. -/
  | write (i : ι) (n : ℕ) (entry : τ) (hpos : s.position i = some n)
      (hentry : s.log[n]? = some entry) :
      Step s
        { s with
          past := entry :: s.past
          position := Function.update s.position i (some (n + 1))
          high := max s.high (n + 1) }

/-- The invariant. -/
structure Good (s : State ι τ) : Prop where
  high_le : s.high ≤ s.log.length
  le_high : ∀ i n, s.position i = some n → n ≤ s.high
  /-- What has been reached has been written. -/
  seen : ∀ e ∈ s.reached, e ∈ s.past
  /-- When an entry was written, all entries in front of it had been. -/
  ordered : ∀ newer e older, s.past = newer ++ e :: older →
    ∃ k, k < s.high ∧ s.log[k]? = some e ∧ ∀ e' ∈ s.log.take k, e' ∈ older
  covered : ∀ p, s.past.find? p = s.reached.reverse.find? p ∨ s.Covered p

theorem good_initial : Good (State.initial : State ι τ) where
  high_le := Nat.le_refl 0
  le_high _ _ h := by cases h
  seen _ h := by cases h
  ordered newer e older h := by cases newer <;> cases h
  covered _ := Or.inl rfl

namespace Good

variable {s t : State ι τ} {n : ℕ} {entry : τ}

/-! ## What is ahead

The two lemmas a write needs.  The entries ahead of a consumer that is not yet where the foremost
one has been begin with the one it writes next; and if none of those behind that one is of the kind,
it is the last of its kind among all that has been reached. -/

/-- What is ahead of a consumer that has not come to the end. -/
theorem drop_reached (hn : n < s.high) (hentry : s.log[n]? = some entry) :
    s.reached.drop n = entry :: s.reached.drop (n + 1) := by
  have hentry' : s.reached[n]? = some entry := by
    rw [State.reached, List.getElem?_take_of_lt hn, hentry]
  obtain ⟨hlt, rfl⟩ := List.getElem?_eq_some_iff.1 hentry'
  exact List.drop_eq_getElem_cons hlt

/-- The last entry of its kind. -/
theorem find?_reverse_reached {p : τ → Bool}
    (hdrop : s.reached.drop n = entry :: s.reached.drop (n + 1)) (hp : p entry = true)
    (hnone : ∀ e ∈ s.reached.drop (n + 1), p e = false) :
    s.reached.reverse.find? p = some entry := by
  have hnone' : (s.reached.drop (n + 1)).reverse.find? p = none :=
    List.find?_eq_none.2 fun e he ↦ by simp [hnone e (List.mem_reverse.1 he)]
  rw [← List.take_append_drop n s.reached, hdrop, List.reverse_append, List.reverse_cons,
    List.append_assoc, List.find?_append, hnone', Option.none_or, List.singleton_append,
    List.find?_cons_of_pos hp]

/-! ## Every step keeps the invariant

One lemma for each kind of step.  For a column that shows the last entry already, a write that is
not of its kind changes nothing; one that is of its kind shows the last entry again, or the consumer
that has written it has that one still ahead. -/

theorem grow (h : Good s) (entries : List τ) : Good { s with log := s.log ++ entries } := by
  have hreached : State.reached { s with log := s.log ++ entries } = s.reached :=
    List.take_append_of_le_length h.high_le
  refine ⟨h.high_le.trans (by simp), h.le_high, ?_, fun newer e older hpast ↦ ?_, fun p ↦ ?_⟩
  · rw [hreached]
    exact h.seen
  · obtain ⟨k, hk, he, hfront⟩ := h.ordered newer e older hpast
    have hlt : k < s.log.length := hk.trans_le h.high_le
    refine ⟨k, hk, ?_, ?_⟩
    · rw [List.getElem?_append_left hlt, he]
    · rw [List.take_append_of_le_length hlt.le]
      exact hfront
  · rw [State.Covered, hreached]
    exact h.covered p

section Place

variable [DecidableEq ι] {i : ι}

theorem place (h : Good s) (hn : n ≤ s.high) (hback : ∀ m, s.position i = some m → n ≤ m) :
    Good { s with position := Function.update s.position i (some n) } := by
  refine ⟨h.high_le, fun j m hm ↦ ?_, h.seen, h.ordered, fun p ↦ ?_⟩
  · dsimp only at hm
    rw [Function.update_apply] at hm
    split at hm
    · exact Option.some_inj.1 hm ▸ hn
    · exact h.le_high j m hm
  · refine (h.covered p).imp_right ?_
    rintro ⟨j, m, hm, e, he, hp⟩
    by_cases hj : j = i
    · subst hj
      refine ⟨j, n, Function.update_self .., e, ?_, hp⟩
      exact (List.drop_suffix_drop_left _ (hback m hm)).subset he
    · exact ⟨j, m, by dsimp only; rw [Function.update_of_ne hj, hm], e, he, hp⟩

/-- An entry that has been reached before is written again. -/
theorem rewrite (h : Good s) (hpos : s.position i = some n) (hentry : s.log[n]? = some entry)
    (hn : n < s.high) :
    Good { s with
      past := entry :: s.past
      position := Function.update s.position i (some (n + 1)) } := by
  have hdrop := drop_reached hn hentry
  refine ⟨h.high_le, fun j m hm ↦ ?_, fun e he ↦ List.mem_cons_of_mem _ (h.seen e he),
    fun newer e older hpast ↦ ?_, fun p ↦ ?_⟩
  · dsimp only at hm
    rw [Function.update_apply] at hm
    split at hm
    · exact Option.some_inj.1 hm ▸ hn
    · exact h.le_high j m hm
  -- the entry that is written now has all in front of it written already
  · rcases List.cons_eq_append_iff.1 hpast with ⟨rfl, hcons⟩ | ⟨newer', -, hold⟩
    · obtain ⟨rfl, rfl⟩ := List.cons.inj hcons
      refine ⟨n, hn, hentry, fun e' he' ↦ h.seen e' ?_⟩
      exact (List.take_prefix_take_left hn.le).subset he'
    · exact h.ordered newer' e older hold
  · -- the newest entry of the kind ahead of `i`, if there is one, is still ahead or is written
    by_cases hahead : ∃ e ∈ s.reached.drop (n + 1), p e = true
    · exact Or.inr ⟨i, n + 1, Function.update_self .., hahead⟩
    · push Not at hahead
      have hnone : ∀ e ∈ s.reached.drop (n + 1), p e = false := fun e he ↦ by simp [hahead e he]
      by_cases hp : p entry = true
      · left
        rw [List.find?_cons_of_pos hp]
        exact (find?_reverse_reached hdrop hp hnone).symm
      · rcases h.covered p with hsame | ⟨j, m, hm, e, he, hpe⟩
        · left
          rw [List.find?_cons_of_neg hp]
          exact hsame
        · by_cases hj : j = i
          · subst hj
            obtain rfl := Option.some_inj.1 (hpos.symm.trans hm)
            rw [hdrop, List.mem_cons] at he
            rcases he with rfl | he
            · exact absurd hpe hp
            · exact absurd hpe (hahead e he)
          · exact Or.inr ⟨j, m, by dsimp only; rw [Function.update_of_ne hj, hm], e, he, hpe⟩

/-- An entry is reached for the first time. -/
theorem advance (h : Good s) (hpos : s.position i = some s.high)
    (hentry : s.log[s.high]? = some entry) :
    Good { s with
      past := entry :: s.past
      position := Function.update s.position i (some (s.high + 1))
      high := s.high + 1 } := by
  obtain ⟨hlt, hget⟩ := List.getElem?_eq_some_iff.1 hentry
  have hreached : s.log.take (s.high + 1) = s.reached ++ [entry] := by
    rw [← hget]
    exact (List.take_append_getElem hlt).symm
  refine ⟨hlt, fun j m hm ↦ ?_, fun e he ↦ ?_, fun newer e older hpast ↦ ?_, fun p ↦ ?_⟩
  · dsimp only at hm
    rw [Function.update_apply] at hm
    split at hm
    · exact (Option.some_inj.1 hm).ge
    · exact (h.le_high j m hm).trans (Nat.le_succ _)
  · have he' : e ∈ s.reached ++ [entry] := hreached ▸ he
    rcases List.mem_append.1 he' with hold | hnew
    · exact List.mem_cons_of_mem _ (h.seen e hold)
    · exact List.mem_singleton.1 hnew ▸ List.mem_cons_self
  · rcases List.cons_eq_append_iff.1 hpast with ⟨rfl, hcons⟩ | ⟨newer', -, hold⟩
    · obtain ⟨rfl, rfl⟩ := List.cons.inj hcons
      exact ⟨s.high, Nat.lt_succ_self _, hentry, h.seen⟩
    · obtain ⟨k, hk, he, hfront⟩ := h.ordered newer' e older hold
      exact ⟨k, hk.trans (Nat.lt_succ_self _), he, hfront⟩
  -- if the entry is of the kind it is the last on both sides; otherwise nothing has changed
  · show (entry :: s.past).find? p = (s.log.take (s.high + 1)).reverse.find? p ∨ _
    rw [hreached, List.reverse_append, List.reverse_singleton, List.singleton_append]
    by_cases hp : p entry = true
    · rw [List.find?_cons_of_pos hp, List.find?_cons_of_pos hp]
      exact Or.inl rfl
    · rw [List.find?_cons_of_neg hp, List.find?_cons_of_neg hp]
      refine (h.covered p).imp_right ?_
      rintro ⟨j, m, hm, e, he, hpe⟩
      have hj : j ≠ i := by
        rintro rfl
        obtain rfl := Option.some_inj.1 (hpos.symm.trans hm)
        rw [State.reached, List.drop_take_self] at he
        cases he
      refine ⟨j, m, by dsimp only; rw [Function.update_of_ne hj, hm], e, ?_, hpe⟩
      show e ∈ (s.log.take (s.high + 1)).drop m
      rw [hreached, List.drop_append_of_le_length]
      · exact List.mem_append_left _ he
      · rw [State.reached, List.length_take]
        exact le_min (h.le_high j m hm) ((h.le_high j m hm).trans h.high_le)

/-- **Every step keeps the invariant.** -/
theorem step (h : Good s) (hstep : Step s t) : Good t := by
  cases hstep with
  | grow entries => exact h.grow entries
  | place i n hn hback => exact h.place hn hback
  | write i n entry hpos hentry =>
    rcases (h.le_high i n hpos).lt_or_eq with hlt | rfl
    · rw [max_eq_left hlt]
      exact h.rewrite hpos hentry hlt
    · rw [max_eq_right (Nat.le_succ _)]
      exact h.advance hpos hentry

end Place

/-! ## When everybody has come to the end

Then nobody will repeat an older entry any more, and what was written last is what the log says
last. -/

/-- If everybody has come to the end, the whole log has been reached. -/
theorem reached_eq_log (h : Good s) {i : ι} (hi : s.position i = some s.log.length) :
    s.reached = s.log :=
  List.take_of_length_le (h.le_high i _ hi)

/-- **Every column shows the last entry of its kind**, once everybody has come to the end. -/
theorem find?_past (h : Good s) {i : ι} (hi : s.position i = some s.log.length)
    (hall : ∀ j n, s.position j = some n → n = s.log.length) (p : τ → Bool) :
    s.past.find? p = s.log.reverse.find? p := by
  have hreached := h.reached_eq_log hi
  rcases h.covered p with hsame | ⟨j, n, hn, e, he, -⟩
  · rw [hsame, hreached]
  · rw [hreached, hall j n hn, List.drop_length] at he
    cases he

/-- The same for a column that an entry may or may not write. -/
theorem findSome?_past (h : Good s) {i : ι} (hi : s.position i = some s.log.length)
    (hall : ∀ j n, s.position j = some n → n = s.log.length) {β : Type w} (f : τ → Option β) :
    s.past.findSome? f = s.log.reverse.findSome? f := by
  have hbind : ∀ l : List τ, l.findSome? f = (l.find? fun e ↦ (f e).isSome).bind f := by
    intro l
    induction l with
    | nil => rfl
    | cons e l ih => cases hf : f e <;> simp [hf, ih]
  rw [hbind, hbind, h.find?_past hi hall]

end Good

end Replicas
