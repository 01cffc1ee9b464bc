import Mathlib.Order.Lattice

/-!
# Replaying a log from a checkpoint

A log is a list of entries, each with its offset, and offsets increase.  A consumer applies the
entries to a store one after the other and keeps, next to the store, the offset of the last entry it
is done with.  Applying an entry and moving the checkpoint are two writes, so a consumer that starts
again from its checkpoint may apply one entry a second time.

`outcome` is what a consumer at a given checkpoint is going to end with: the store, or the error it
stops at, and the last checkpoint.  If an entry that is applied again right away changes nothing
(`Absorbs`), the outcome is the same before and after each of the two writes, and however often the
consumer starts again it ends where it would have ended (`outcome_of_applied`, `outcome_of_saved`).

## What is here

* `lastOffset` and `replay`: what a run over some entries leaves as checkpoint and as store.
* `numbered`: a log whose offsets are counted up one by one.  There the offset of an entry is its
  place, and the entries behind the first `n` are those above the offset `n`.
* `after`: the entries above an offset.  They are the end of the log (`after_suffix`), and going on
  from one of them is going on behind it (`after_eq_of_after_eq_cons`, `after_lastOffset`).
* `Absorbs` and `outcome`, with the two lemmas above.

`Absorbs` asks for less than that repeating an entry changes nothing.  The entry must be the one
that was applied last; an older one that comes again may well change the store.
-/

set_option autoImplicit false

universe u v w x

namespace Resume

variable {ι : Type u} {τ : Type v} {σ : Type w} {ε : Type x}

/-! ## The last offset, and the store behind it

An entry of the log has an offset and a text.  The offset of the last entry that was applied is what
is stored. -/

/-- The offset of the last entry, or the given one if there is none. -/
def lastOffset (offset : ι) (entries : List (ι × τ)) : ι :=
  (entries.getLast?.map Prod.fst).getD offset

theorem lastOffset_cons (checkpoint offset : ι) (entry : τ) (rest : List (ι × τ)) :
    lastOffset checkpoint ((offset, entry) :: rest) = lastOffset offset rest := by
  cases rest with
  | nil => rfl
  | cons e rest =>
    rw [lastOffset, lastOffset, List.getLast?_cons_cons]
    cases h : (e :: rest).getLast? with
    | none => simp at h
    | some l => rfl

/-- The last entry of a suffix is the last entry. -/
theorem lastOffset_append_of_ne_nil (checkpoint offset : ι) (front : List (ι × τ))
    {rest : List (ι × τ)} (h : rest ≠ []) :
    lastOffset checkpoint (front ++ rest) = lastOffset offset rest := by
  obtain ⟨l, hl⟩ := Option.ne_none_iff_exists'.1 (mt List.getLast?_eq_none_iff.1 h)
  rw [lastOffset, lastOffset, List.getLast?_append, hl]
  rfl

/-- Apply the entries one after the other, up to the first that fails. -/
def replay (step : σ → τ → Except ε σ) (s : σ) : List (ι × τ) → Except ε σ
  | [] => .ok s
  | entry :: rest => step s entry.2 >>= fun t ↦ replay step t rest

/-- One more entry. -/
theorem replay_concat (step : σ → τ → Except ε σ) (s : σ) (front : List (ι × τ)) (entry : ι × τ) :
    replay step s (front ++ [entry]) = replay step s front >>= fun t ↦ step t entry.2 := by
  induction front generalizing s with
  | nil => exact bind_pure (step s entry.2)
  | cons e front ih =>
    rw [List.cons_append, replay, replay, bind_assoc]
    exact congrArg _ (funext ih)

/-- The entries of a log whose offsets are counted up one by one. -/
def numbered (offset : ℤ) : List τ → List (ℤ × τ)
  | [] => []
  | entry :: rest => (offset + 1, entry) :: numbered (offset + 1) rest

theorem lastOffset_numbered (checkpoint : ℤ) (entries : List τ) :
    lastOffset checkpoint (numbered checkpoint entries) = checkpoint + entries.length := by
  induction entries generalizing checkpoint with
  | nil => exact (Int.add_zero checkpoint).symm
  | cons entry rest ih =>
    rw [numbered, lastOffset_cons, ih, List.length_cons]
    omega

theorem mapIdx_eq_numbered {ρ : Type x} (offset : ℤ) (f : ρ → τ) (rows : List ρ) :
    (rows.mapIdx fun i r ↦ (offset + i + 1, f r)) = numbered offset (rows.map f) := by
  induction rows generalizing offset with
  | nil => rfl
  | cons r rows ih =>
    rw [List.mapIdx_cons, List.map_cons, numbered, ← ih]
    refine congrArg₂ List.cons ?_ (congrArg (List.mapIdx · rows) (funext fun i ↦ funext fun r ↦ ?_))
    · simp
    · exact congrArg (·, f r) (by omega)

/-- The offset of an entry is its place. -/
theorem getElem?_numbered (offset : ℤ) (entries : List τ) (n : ℕ) :
    (numbered offset entries)[n]? = entries[n]?.map (offset + n + 1, ·) := by
  induction entries generalizing offset n with
  | nil => rfl
  | cons entry rest ih =>
    cases n with
    | zero => simp [numbered]
    | succ n =>
      rw [numbered, List.getElem?_cons_succ, List.getElem?_cons_succ, ih]
      exact congrArg (fun k ↦ rest[n]?.map (k, ·)) (by push_cast; omega)

/-! ## What is above an offset

All that follows assumes that the offsets increase along the log.  Then a checkpoint cuts the log in
two, and what a consumer has still to do is the second part, whatever it has done before. -/

/-- An entry that is applied again right away changes nothing. -/
def Absorbs (step : σ → τ → Except ε σ) : Prop :=
  ∀ s entry t, step s entry = .ok t → step t entry = .ok t

section Outcome

variable [LinearOrder ι]

/-- The entries with an offset above the given one. -/
def after (offset : ι) (log : List (ι × τ)) : List (ι × τ) :=
  log.filter fun entry ↦ offset < entry.1

/-- What a consumer ends with that starts at a checkpoint. -/
def outcome (step : σ → τ → Except ε σ) (log : List (ι × τ)) (checkpoint : ι) (s : σ) :
    Except ε σ × ι :=
  (replay step s (after checkpoint log), lastOffset checkpoint (after checkpoint log))

variable {step : σ → τ → Except ε σ} {log rest : List (ι × τ)} {checkpoint offset : ι} {entry : τ}
  {s t : σ}

/-- The entries above an offset are the end of the log. -/
theorem after_suffix (hlog : log.Pairwise fun a b ↦ a.1 < b.1) : after checkpoint log <:+ log := by
  induction log with
  | nil => exact List.suffix_rfl
  | cons e log ih =>
    obtain ⟨hfirst, hlog⟩ := List.pairwise_cons.1 hlog
    by_cases he : checkpoint < e.1
    · have hall : after checkpoint (e :: log) = e :: log := by
        refine List.filter_eq_self.2 (List.forall_mem_cons.2 ⟨decide_eq_true he, fun e' he' ↦ ?_⟩)
        exact decide_eq_true (he.trans (hfirst e' he'))
      exact ⟨[], hall⟩
    · rw [after, List.filter_cons_of_neg (by simpa using he)]
      exact (ih hlog).trans (List.suffix_cons e log)

/-- Something lies above every offset below the last. -/
theorem after_ne_nil (h : offset ≤ checkpoint) (hlt : checkpoint < lastOffset offset log) :
    after checkpoint log ≠ [] := by
  rw [lastOffset] at hlt
  cases hlast : log.getLast? with
  | none =>
    rw [hlast] at hlt
    exact absurd (h.trans_lt hlt) (lt_irrefl _)
  | some e =>
    rw [hlast] at hlt
    exact List.ne_nil_of_mem
      (List.mem_filter.2 ⟨List.mem_of_getLast? hlast, decide_eq_true hlt⟩)

/-- Going on from an entry is going on behind it. -/
theorem after_eq_of_after_eq_cons (hlog : log.Pairwise fun a b ↦ a.1 < b.1)
    (h : after checkpoint log = (offset, entry) :: rest) : after offset log = rest := by
  have hmem : (offset, entry) ∈ after checkpoint log := by rw [h]; exact List.mem_cons_self
  have hlt : checkpoint < offset := by simpa using (List.mem_filter.1 hmem).2
  have hrest : ∀ e ∈ rest, offset < e.1 := by
    have hsorted : (after checkpoint log).Pairwise fun a b ↦ a.1 < b.1 := hlog.filter _
    rw [h, List.pairwise_cons] at hsorted
    exact hsorted.1
  calc after offset log
      = after offset (after checkpoint log) := by
        rw [after, after, after, List.filter_filter]
        refine List.filter_congr fun e _ ↦ ?_
        by_cases he : offset < e.1
        · simp [he, hlt.trans he]
        · simp [he]
    _ = rest := by
        rw [h, after, List.filter_cons_of_neg (by simp)]
        exact List.filter_eq_self.2 fun e he ↦ decide_eq_true (hrest e he)

/-- Going on from the last of some entries is going on behind them. -/
theorem after_lastOffset {front : List (ι × τ)} (hlog : log.Pairwise fun a b ↦ a.1 < b.1)
    (h : after checkpoint log = front ++ rest) :
    after (lastOffset checkpoint front) log = rest := by
  induction front generalizing checkpoint with
  | nil => exact h
  | cons e front ih =>
    rw [lastOffset_cons]
    exact ih (after_eq_of_after_eq_cons hlog h)

/-- Nothing lies between a checkpoint and the next entry. -/
theorem le_or_eq_of_after_eq_cons (hlog : log.Pairwise fun a b ↦ a.1 < b.1)
    (h : after checkpoint log = (offset, entry) :: rest) {e : ι × τ} (he : e ∈ log)
    (hle : e.1 ≤ offset) : e.1 ≤ checkpoint ∨ e = (offset, entry) := by
  rcases le_or_gt e.1 checkpoint with hold | hnew
  · exact Or.inl hold
  · have hmem : e ∈ (offset, entry) :: rest := h ▸ List.mem_filter.2 ⟨he, decide_eq_true hnew⟩
    rcases List.mem_cons.1 hmem with heq | hlater
    · exact Or.inr heq
    · rw [← after_eq_of_after_eq_cons hlog h] at hlater
      exact absurd hle (not_le.2 (of_decide_eq_true (List.mem_filter.1 hlater).2))

/-- **Applying the next entry does not change the outcome.** -/
theorem outcome_of_applied (habsorbs : Absorbs step)
    (h : after checkpoint log = (offset, entry) :: rest) (hs : step s entry = .ok t) :
    outcome step log checkpoint t = outcome step log checkpoint s := by
  rw [outcome, outcome, h, replay, replay, hs, habsorbs s entry t hs]

/-- **Moving the checkpoint behind an applied entry does not change the outcome.** -/
theorem outcome_of_saved (hlog : log.Pairwise fun a b ↦ a.1 < b.1)
    (h : after checkpoint log = (offset, entry) :: rest) (hs : step s entry = .ok s) :
    outcome step log offset s = outcome step log checkpoint s := by
  rw [outcome, outcome, after_eq_of_after_eq_cons hlog h, h, lastOffset_cons, replay, hs]
  rfl

end Outcome

/-- The entries behind the first `n`. -/
theorem after_numbered (offset : ℤ) (entries : List τ) (n : ℕ) :
    after (offset + n) (numbered offset entries) = (numbered offset entries).drop n := by
  induction entries generalizing offset n with
  | nil => cases n <;> rfl
  | cons entry rest ih =>
    cases n with
    | zero =>
      have hall : ∀ e ∈ numbered offset (entry :: rest), offset < e.1 := by
        intro e he
        obtain ⟨i, hi⟩ := List.mem_iff_getElem?.1 he
        rw [getElem?_numbered, Option.map_eq_some_iff] at hi
        obtain ⟨e', -, rfl⟩ := hi
        show offset < offset + i + 1
        omega
      rw [Int.natCast_zero, Int.add_zero, List.drop_zero]
      exact List.filter_eq_self.2 fun e he ↦ decide_eq_true (hall e he)
    | succ n =>
      have hnext : offset + (n + 1 : ℕ) = offset + 1 + n := by omega
      have hfirst : ¬offset + 1 + (n : ℤ) < offset + 1 := by omega
      rw [numbered, List.drop_succ_cons, ← ih (offset + 1) n, hnext, after, after,
        List.filter_cons_of_neg (by simpa using hfirst)]

end Resume
