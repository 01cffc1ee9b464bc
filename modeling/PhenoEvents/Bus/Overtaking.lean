import Mathlib.Algebra.Order.BigOperators.Group.Finset
import PhenoEvents.Bus.Attempts
import PhenoEvents.Bus.FirstClaims
import PhenoEvents.Bus.Interchange

/-!
# How long an event can be overtaken

`claim_next` takes the oldest event that is due.  An event that failed comes back after ten
milliseconds, still older than those that wait behind it, so it is tried again before them.  But it
comes back only as often as the retry budget allows.

An event is due as soon as the clocks have passed its `next_attempt_at`.  From then on, as long as
no worker takes it up, the workers claim nothing but events that are not younger, each at most
`max(1, max_retries)` times in all its life (`bounded_overtaking`).

So there is a bound that depends on the events in front alone: their number times the budget.
Nothing that is published later can add to it, as far as the clock of the publishers advances, and
no scheduler has to be fair for it; it counts claims, and says nothing about how long they take.

A claim whose text does not decode returns an error, and there is no `claimed` in the history for
it.  Such a claim is not counted.  It can happen at most once for each event, as the row stays in
progress after it.
-/

set_option autoImplicit false

namespace PhenoEvents

open Transition EventView

/-- A list in which nothing occurs often, over not many values, is not long. -/
theorem length_le_of_count_le {α : Type*} [DecidableEq α] {l : List α} {s : Finset α} {n : ℕ}
    (hmem : ∀ a ∈ l, a ∈ s) (hcount : ∀ a, l.count a ≤ n) : l.length ≤ s.card * n := by
  have hsum : ∑ a ∈ s, (l : Multiset α).count a = l.length := Multiset.sum_count_eq_card hmem
  rw [← hsum, ← Nat.nsmul_eq_mul]
  exact Finset.sum_le_card_nsmul _ _ _ fun a _ ↦ (Multiset.coe_count a l).trans_le (hcount a)

/-! ## How often an event is claimed

The deliveries of an event are a list of attempts and at most one delivery more, and each of them
begins with a claim.  So the retry budget bounds the claims. -/

/-- A claim. -/
def Observation.isClaimed : Observation → Bool
  | .claimed _ _ => true
  | _ => false

namespace EventView

variable {id : Uuid} {v : EventView} {attempts : List Attempt} {d : Delivery}

/-- There are as many claims as attempts, and one more if there is something after them.  Every
attempt began with a claim, and so did what comes after them. -/
theorem Told.countP_isClaimed (h : v.Told id attempts d) :
    v.log.countP Observation.isClaimed ≤ attempts.length + 1 ∧
      (d = .none → v.log.countP Observation.isClaimed = attempts.length) := by
  have hall : v.log.countP Observation.isClaimed = v.deliveries.countP Observation.isClaimed := by
    rw [deliveries, List.countP_filter]
    refine List.countP_congr fun o _ ↦ ?_
    cases o <;> simp [Observation.isClaimed, Observation.isDelivery]
  have hone : ∀ a : Attempt, (a.observations id).countP Observation.isClaimed = 1 := fun _ ↦ rfl
  have hsum : (attempts.flatMap (Attempt.observations id)).countP Observation.isClaimed =
      attempts.length := by
    rw [List.countP_flatMap]
    simp [Function.comp_def, hone]
  have hlast : (d.observations id).countP Observation.isClaimed ≤ 1 := by
    cases d <;> simp [Delivery.observations, Observation.isClaimed, List.countP_cons]
  rw [hall, h.log, List.countP_append, hsum]
  refine ⟨by omega, ?_⟩
  rintro rfl
  rfl

end EventView

namespace World

variable {bus : SqliteBus} {s t : World} {id : Uuid}

theorem count_claims (s : World) (id : Uuid) :
    s.claims.count id = (s.view id).log.countP Observation.isClaimed := by
  rw [claims, List.count_filterMap, view, List.countP_filter]
  refine List.countP_congr fun o _ ↦ ?_
  cases o with
  | claimed w k =>
    by_cases hk : k = id <;> simp [Observation.claim, Observation.isClaimed, Observation.eventId,
      hk]
  | _ => simp [Observation.claim, Observation.isClaimed]

/-- **No event is claimed more often than the retry budget says**, whoever claims it and however
often its workers go away. -/
theorem count_claims_le (hs : Reachable (step bus) initial s) (id : Uuid) :
    s.claims.count id ≤ bus.budget.toNat := by
  obtain ⟨attempts, d, htold⟩ := told_of_reachable hs id
  have hphase := (sound_of_reachable hs id).phase
  obtain ⟨hle, hnone⟩ := htold.countP_isClaimed
  rw [count_claims]
  cases hrow : (s.view id).row with
  | none =>
    obtain ⟨rfl, rfl⟩ := htold.absent hrow
    rw [hnone rfl]
    exact Nat.zero_le _
  | some row =>
    obtain ⟨n, -, hrecorded, -, hstatus⟩ := hphase.account hrow
    obtain ⟨-, hfits⟩ := htold.row row hrow
    rw [htold.length_eq] at hrecorded
    have hbudget : (1 : ℤ) ≤ bus.budget ∧ bus.maxRetries.toInt ≤ bus.budget :=
      ⟨Int.le_max_left .., Int.le_max_right ..⟩
    cases hst : row.status with
    | pending | retrying | dlq =>
      -- nothing follows the attempts
      rw [hst] at hfits hstatus
      have hcount := hnone hfits
      dsimp only at hstatus
      omega
    | inProgress | acked =>
      rw [hst] at hstatus
      dsimp only at hstatus
      omega

/-! ## Which events are claimed

A worker that has read a time at which the row was due takes a row that is due and not younger.  It
is this row, or one of those in front. -/

/-- The ids of the events and when they were created. -/
def born (s : World) : List (Uuid × Instant) :=
  s.db.outbox.rows.map fun r ↦ (r.eventId, r.createdAt)

theorem mem_born_of_lookup {r : OutboxRow} (h : s.db.outbox.lookup id = some r) :
    (id, r.createdAt) ∈ s.born :=
  List.mem_map.2 ⟨r, KeyedTable.mem_of_lookup h, by rw [KeyedTable.key_of_lookup h]⟩

/-- A worker does not change when an event was created. -/
theorem born_of_workerMove {w : ℕ} {db' : Database} {pc pc' : Pc} {action : WorkerAction}
    {obs : List Observation} (h : WorkerMove bus w s.db pc action db' pc' obs) :
    (db'.outbox.rows.map fun r ↦ (r.eventId, r.createdAt)) = s.born := by
  cases h with
  | claim now tie r envelope | claimLost now tie r error =>
    exact s.db.outbox.map_rows_updateWhere (fun r _ ↦ r.eventId_claimed now) fun _ _ ↦ rfl
  | markHandled eventId now =>
    exact s.db.outbox.map_rows_updateWhere (fun r _ ↦ r.eventId_acked now) fun _ _ ↦ rfl
  | updateFailed eventId error now attempts =>
    exact s.db.outbox.map_rows_updateWhere (fun r _ ↦ r.eventId_failed _ _ error now) fun _ _ ↦ rfl
  | _ => rfl

/-- Events are only added. -/
theorem born_subset_of_step {action : Action} (hstep : step bus s action = some t) :
    s.born ⊆ t.born := by
  cases WorldMove.of_step hstep with
  | accepted envelope now text hvalid htext =>
    intro b hb
    obtain ⟨r, hr, rfl⟩ := List.mem_map.1 hb
    have hlookup := KeyedTable.lookup_of_mem hr
    by_cases hid : r.eventId = envelope.id
    · refine mem_born_of_lookup (r := r) ?_
      show (s.db.insertEvent envelope.id text now).outbox.lookup r.eventId = some r
      rw [hid, Database.lookup_insertEvent_self, ← hid, hlookup]
      rfl
    · refine mem_born_of_lookup (r := r) ?_
      show (s.db.insertEvent envelope.id text now).outbox.lookup r.eventId = some r
      rw [Database.lookup_insertEvent_of_ne text now hid, hlookup]
  | work w pc pc' action db' obs hpc hmove =>
    show s.born ⊆ db'.outbox.rows.map fun r ↦ (r.eventId, r.createdAt)
    rw [born_of_workerMove hmove]
    exact List.Subset.refl _
  | _ => exact List.Subset.refl _

/-- Every worker that looks for work has read a time at which the row was due.  A worker with an
early reading may pass over the row for a younger one, and is excluded. -/
def SeesDue (s : World) (r : OutboxRow) : Prop :=
  ∀ w now, s.workers w = some (.claiming now) → r.nextAttemptAt ≤ now

/-- An event that is not younger than the row, and not its own.  Two events may have the same
`created_at`, and then each of them may be claimed before the other. -/
def Older (s : World) (r : OutboxRow) (k : Uuid) : Prop :=
  k ≠ r.eventId ∧ ∃ b, (k, b) ∈ s.born ∧ b ≤ r.createdAt

/-- **A worker that passes over a row that is due claims an event that is not younger.**  The
`SELECT` orders by `created_at`, and the row is among those it chooses from. -/
theorem claims_of_step {r : OutboxRow} {action : Action} (hsound : s.Sound bus)
    (hstep : step bus s action = some t) (hr : s.db.outbox.lookup r.eventId = some r)
    (hr' : t.db.outbox.lookup r.eventId = some r) (hclaim : r.claimable = true)
    (hdue : s.SeesDue r) :
    ∃ ks, t.claims = s.claims ++ ks ∧ ∀ k ∈ ks, s.Older r k := by
  cases WorldMove.of_step hstep with
  | accepted | rejected => exact ⟨_, claims_of_history rfl, by simp [Observation.claim]⟩
  | subscribe | abort | restart => exact ⟨[], (List.append_nil _).symm, by simp⟩
  | work w pc pc' action db' obs hpc hmove =>
    refine ⟨_, claims_of_history rfl, ?_⟩
    cases hmove with
    | claim now tie q envelope hq hdecode =>
      obtain ⟨hlookup, hclaimable, -, hle⟩ := Database.nextDue_eq_some hq
      have hid : envelope.id = q.eventId := (hsound q.eventId).encoded.id_eq hlookup hdecode
      intro k hk
      obtain rfl : k = envelope.id := List.mem_singleton.1 hk
      rw [hid]
      refine ⟨fun hsame ↦ ?_, q.createdAt, mem_born_of_lookup hlookup, ?_⟩
      · -- the row would be in progress
        have hself : (s.db.updateClaimed q.eventId now).outbox.lookup q.eventId = some r :=
          hsame ▸ hr'
        rw [Database.lookup_updateClaimed_self hlookup hclaimable] at hself
        rw [← Option.some_inj.1 hself] at hclaim
        simp [OutboxRow.claimable, OutboxRow.claimed] at hclaim
      · refine hle r (KeyedTable.mem_of_lookup hr) ?_
        rw [OutboxRow.due, decide_eq_true_eq]
        exact ⟨hclaim, hdue w now hpc⟩
    | _ => simp [Observation.claim]

theorem seesDue_step {r : OutboxRow} {action : Action} (hstep : step bus s action = some t)
    (h : s.SeesDue r) (hpoll : ∀ w now, action = .work w (.poll now) → r.nextAttemptAt ≤ now) :
    t.SeesDue r := by
  cases WorldMove.of_step hstep with
  | accepted | rejected => exact h
  | restart => exact fun w now hw ↦ by cases hw
  | subscribe u hfree =>
    intro w now hw
    dsimp only at hw
    rw [Function.update_apply] at hw
    split at hw
    · cases hw
    · exact h w now hw
  | abort u pc hpc =>
    intro w now hw
    dsimp only at hw
    rw [Function.update_apply] at hw
    split at hw
    · cases hw
    · exact h w now hw
  | work u pc pc' action db' obs hpc hmove =>
    intro w now hw
    dsimp only at hw
    rw [Function.update_apply] at hw
    split at hw
    · obtain rfl := Option.some_inj.1 hw
      cases hmove with
      | poll => exact hpoll u now rfl
    · exact h w now hw

/-- **As long as nobody takes up an event that is due, only events that are not younger are
claimed.** This is by induction on the run, as a worker may have begun to look for work before it.
-/
theorem claims_of_run {r : OutboxRow} {as : List Action} (hsound : s.Sound bus)
    (hrun : run (step bus) s as = some t)
    (hwaits : ∀ m, Visits (step bus) s as m → m.db.outbox.lookup r.eventId = some r)
    (hclaim : r.claimable = true) (hdue : s.SeesDue r)
    (hpolls : ∀ w now, .work w (.poll now) ∈ as → r.nextAttemptAt ≤ now) :
    s.born ⊆ t.born ∧ ∃ ks, t.claims = s.claims ++ ks ∧ ∀ k ∈ ks, t.Older r k := by
  induction as generalizing s with
  | nil =>
    obtain rfl := Option.some_inj.1 hrun
    exact ⟨List.Subset.refl _, [], (List.append_nil _).symm, by simp⟩
  | cons a as ih =>
    obtain ⟨m, hm, hrun⟩ := run_cons_eq_some.1 hrun
    have hlater : ∀ u, Visits (step bus) m as u → u.db.outbox.lookup r.eventId = some r :=
      fun u hu ↦ hwaits u (visits_cons.2 (Or.inr ⟨m, hm, hu⟩))
    obtain ⟨ks, hks, hold⟩ := claims_of_step hsound hm (hwaits s (visits_cons.2 (Or.inl rfl)))
      (hlater m ⟨[], List.nil_prefix, rfl⟩) hclaim hdue
    have hpoll : ∀ w now, a = .work w (.poll now) → r.nextAttemptAt ≤ now :=
      fun w now ha ↦ hpolls w now (ha ▸ List.mem_cons_self)
    obtain ⟨hborn, ks', hks', hold'⟩ := ih (sound_step hsound hm) hrun hlater
      (seesDue_step hm hdue hpoll) fun w now ha ↦ hpolls w now (List.mem_cons_of_mem a ha)
    have hborn' : s.born ⊆ t.born := List.Subset.trans (born_subset_of_step hm) hborn
    refine ⟨hborn', ks ++ ks', by rw [hks', hks, List.append_assoc], fun k hk ↦ ?_⟩
    rcases List.mem_append.1 hk with hk | hk
    · obtain ⟨hne, b, hb, hle⟩ := hold k hk
      exact ⟨hne, b, hborn' hb, hle⟩
    · exact hold' k hk

end World

/-- **An event is overtaken a bounded number of times.**  As long as no worker takes up an event
that can be claimed, and the clocks that are read have passed its `next_attempt_at`, only events
that are not younger are claimed, and each of them at most as often as the retry budget says.

The claims are those that hand a worker an event.  A claim whose envelope does not decode is
committed like the others and returns an error; it leaves the row in progress for ever, and is not
counted. -/
theorem bounded_overtaking (bus : SqliteBus) (s t : World) (as : List Action) (r : OutboxRow)
    (hs : Reachable (World.step bus) .initial s) (hrun : run (World.step bus) s as = some t)
    (hclaim : r.claimable = true)
    (hwaits : ∀ m, Visits (World.step bus) s as m → m.db.outbox.lookup r.eventId = some r)
    (hclaiming : ∀ w now, s.workers w = some (.claiming now) → r.nextAttemptAt ≤ now)
    (hpolls : ∀ w now, .work w (.poll now) ∈ as → r.nextAttemptAt ≤ now) :
    ∃ ks, t.claims = s.claims ++ ks ∧
      (∀ k ∈ ks, k ≠ r.eventId ∧ ∃ q, t.db.outbox.lookup k = some q ∧ q.createdAt ≤ r.createdAt) ∧
      ks.length ≤
        (t.db.outbox.rows.countP fun q ↦ q.eventId ≠ r.eventId ∧ q.createdAt ≤ r.createdAt) *
        bus.budget.toNat := by
  obtain ⟨-, ks, hks, hold⟩ :=
    World.claims_of_run (World.sound_of_reachable hs) hrun hwaits hclaim hclaiming hpolls
  refine ⟨ks, hks, fun k hk ↦ ?_, ?_⟩
  · obtain ⟨hne, b, hb, hle⟩ := hold k hk
    obtain ⟨q, hq, hqb⟩ := List.mem_map.1 hb
    obtain ⟨rfl, rfl⟩ := Prod.mk.inj hqb
    exact ⟨hne, q, KeyedTable.lookup_of_mem hq, hle⟩
  · let older := (t.db.outbox.rows.filter fun q ↦
      q.eventId ≠ r.eventId ∧ q.createdAt ≤ r.createdAt).map
      OutboxRow.eventId
    have hnodup : older.Nodup := t.db.outbox.nodup.sublist (List.filter_sublist.map _)
    have hcard : older.toFinset.card =
        t.db.outbox.rows.countP fun q ↦ q.eventId ≠ r.eventId ∧ q.createdAt ≤ r.createdAt := by
      rw [List.toFinset_card_of_nodup hnodup, List.length_map, List.countP_eq_length_filter]
    rw [← hcard]
    refine length_le_of_count_le (fun k hk ↦ ?_) fun k ↦ ?_
    · obtain ⟨hne, b, hb, hle⟩ := hold k hk
      obtain ⟨q, hq, hqb⟩ := List.mem_map.1 hb
      obtain ⟨rfl, rfl⟩ := Prod.mk.inj hqb
      exact List.mem_toFinset.2 (List.mem_map.2 ⟨q, List.mem_filter.2 ⟨hq, by simp [hne, hle]⟩,
        rfl⟩)
    · refine le_trans ?_ (World.count_claims_le (hs.run hrun) k)
      rw [hks, List.count_append]
      exact Nat.le_add_left _ _

theorem World.workers_publish (s : World) (bus : SqliteBus) (e : EventEnvelope) (now : Instant) :
    (s.publish bus e now).workers = s.workers := by
  rw [publish]
  split <;> rfl

/-- Two events are waiting. -/
def twoWaiting : World :=
  (World.initial.publish userEventsBus (InMemoryBus.userEvent ⟨1⟩) 1).publish userEventsBus
    (InMemoryBus.userEvent ⟨2⟩) 2

/-- The first one fails, and is claimed again. -/
def overtakingRun : List Action :=
  [.subscribe 0, .work 0 (.poll 3), .work 0 (.claim 0), .work 0 (.alreadyHandled 4),
    .work 0 (.lastSeen 0), .work 0 (.returned (.error "no") 5), .work 0 .readAttempts,
    .work 0 .updateFailed, .work 0 (.poll (20 * 1000 * 1000)), .work 0 (.claim 0)]

/-- The waiting event was overtaken twice by the one in front of it, and three times was the bound.
-/
theorem overtakingRun_bounded : ∃ t ks,
    run (World.step userEventsBus) twoWaiting overtakingRun = some t ∧
      t.claims = [⟨1⟩, ⟨1⟩] ∧ t.claims = twoWaiting.claims ++ ks ∧ ks.length ≤ 1 * 3 := by
  have hreachable : Reachable (World.step userEventsBus) .initial twoWaiting :=
    ⟨[.publish (InMemoryBus.userEvent ⟨1⟩) 1, .publish (InMemoryBus.userEvent ⟨2⟩) 2], rfl⟩
  have hruns : (run (World.step userEventsBus) twoWaiting overtakingRun).map (fun t ↦ (t.claims,
      t.db.outbox.rows.countP fun q ↦ decide (q.eventId ≠ ⟨2⟩ ∧ q.createdAt ≤ 2))) =
      some ([⟨1⟩, ⟨1⟩], 1) := by decide +kernel
  obtain ⟨t, ht, hend⟩ := Option.map_eq_some_iff.1 hruns
  obtain ⟨hclaims, hcount⟩ := Prod.mk.inj hend
  have hwaits : ∀ m, Visits (World.step userEventsBus) twoWaiting overtakingRun m →
      decide (m.db.outbox.lookup ⟨2⟩ = some (.new ⟨2⟩ "2" 2)) = true :=
    forall_visits_of_inits (by decide +kernel)
  have hfree : ∀ w, twoWaiting.workers w = none := fun w ↦ by
    rw [twoWaiting, World.workers_publish, World.workers_publish]
    rfl
  have hpolls : ∀ w now, .work w (.poll now) ∈ overtakingRun → 2 ≤ now := fun w now hpoll ↦ by
    simp only [overtakingRun, List.mem_cons, reduceCtorEq,
      Action.work.injEq, WorkerAction.poll.injEq,
      and_false, false_or, or_false, List.not_mem_nil] at hpoll
    rcases hpoll with ⟨-, rfl⟩ | ⟨-, rfl⟩ <;> decide
  obtain ⟨ks, hks, -, hle⟩ := bounded_overtaking userEventsBus twoWaiting t overtakingRun
    (.new ⟨2⟩ "2" 2) hreachable ht rfl (fun m hm ↦ of_decide_eq_true (hwaits m hm))
    (fun w now hw ↦ by rw [hfree] at hw; cases hw) hpolls
  have hbudget : userEventsBus.budget.toNat = 3 := by decide
  rw [hbudget] at hle
  exact ⟨t, ks, ht, hclaims, hks, hcount ▸ hle⟩

end PhenoEvents
