import PhenoEvents.Bus.InMemory

/-!
# Who is registered

A subscriber is in the map from `subscribe` on.  Its entry would be removed at the end of its own
loop, which ends when its channel is closed; but the entry is a sender of that channel.  So the loop
never ends (`Registered` is an invariant, and it leaves nothing for `closed` to do), an aborted
worker never gets to the removal, and the map keeps an entry for every subscriber there has ever
been.

## What is here

* `Registered`: the keys of the map are the subscribers there have been, and the senders of every
  call are among them.
* `subscriberCount_eq_countP`: `subscriber_count` is the number of calls of `subscribe`.
* `subscriberCount_eq_iff`: the count is the number of live subscriptions exactly as long as none
  has been dropped.

A subscriber that has been dropped costs a `try_send` in every call of `publish` from then on, which
fails as its receiver is gone.
-/

set_option autoImplicit false

namespace PhenoEvents

namespace InMemoryBus

open Transition

namespace World

variable {s t : World} {action : Action} {k k' : Uuid} {sub sub' : Subscriber}

theorem setSubscriber_eq_some_iff : (s.setSubscriber k sub).subscribers k' = some sub' ↔
    k' = k ∧ sub' = sub ∨ k' ≠ k ∧ s.subscribers k' = some sub' := by
  rw [setSubscriber]
  by_cases hk : k' = k
  · subst hk
    simp [eq_comm]
  · simp [hk]

theorem isSome_setSubscriber (h : s.subscribers k = some sub) (sub' : Subscriber) (k' : Uuid) :
    ((s.setSubscriber k sub').subscribers k').isSome = (s.subscribers k').isSome := by
  rw [setSubscriber]
  by_cases hk : k' = k
  · subst hk
    simp [h]
  · simp [hk]

end World

/-! ## The map and the subscribers

`Registered` is used by all that is said about sends as well: a sender always has a subscriber. -/

/-- The map has an entry for every subscriber there has been, live or not, and no worker ends but by
being aborted. -/
structure Registered (s : World) : Prop where
  keys : ∀ k, k ∈ s.inner.subscribers ↔ (s.subscribers k).isSome
  subscriptions : s.subscriptions ⊆ s.inner.subscribers
  senders : ∀ call ∈ s.calls, call.senders.Nodup ∧ ∀ k ∈ call.senders, k ∈ s.inner.subscribers
  running : ∀ k sub, s.subscribers k = some sub → sub.pc ≠ .removing
  stopped : ∀ k sub aborted, s.subscribers k = some sub → sub.pc = .stopped aborted →
    k ∉ s.subscriptions

namespace World

variable {s t : World} {action : Action} {k k' : Uuid} {sub sub' : Subscriber}

theorem registered_initial : Registered initial where
  keys k := by simp [initial]
  subscriptions := Finset.Subset.refl ∅
  senders _ hcall := absurd hcall List.not_mem_nil
  running _ _ hsub := by cases hsub
  stopped _ _ _ hsub := by cases hsub

theorem registered_step (h : Registered s) (hstep : s.step action = some t) : Registered t := by
  cases move_of_step hstep with
  | rejected hinvalid => exact ⟨h.keys, h.subscriptions, h.senders, h.running, h.stopped⟩
  | @entered envelope senders hvalid hnodup hsenders =>
    refine ⟨h.keys, h.subscriptions, ?_, h.running, h.stopped⟩
    refine List.forall_mem_append.2 ⟨h.senders, ?_⟩
    exact List.forall_mem_singleton.2 ⟨hnodup, fun k ↦ (hsenders k).1⟩
  | @sent earlier later message duplicate k senders sub hcalls hsub =>
    -- the call loses a sender, and its subscriber keeps its entry
    have hsenders := h.senders
    rw [hcalls, List.forall_mem_append, List.forall_mem_cons] at hsenders
    obtain ⟨hearlier, ⟨hnodup, hkeys⟩, hlater⟩ := hsenders
    refine ⟨fun k' ↦ ?_, h.subscriptions, ?_, fun k' sub' hsub' ↦ ?_,
      fun k' sub' aborted hsub' hpc ↦ ?_⟩
    · exact (h.keys k').trans (Bool.eq_iff_iff.1 (isSome_setSubscriber hsub _ k').symm)
    · refine List.forall_mem_append.2 ⟨hearlier, List.forall_mem_cons.2 ⟨?_, hlater⟩⟩
      exact ⟨hnodup.of_cons, fun k' hk' ↦ hkeys k' (List.mem_cons_of_mem _ hk')⟩
    · rcases setSubscriber_eq_some_iff.1 hsub' with ⟨rfl, rfl⟩ | ⟨-, hsame⟩
      · exact h.running k' sub hsub
      · exact h.running k' sub' hsame
    · rcases setSubscriber_eq_some_iff.1 hsub' with ⟨rfl, rfl⟩ | ⟨-, hsame⟩
      · exact h.stopped k' sub aborted hsub hpc
      · exact h.stopped k' sub' aborted hsame hpc
  | @subscribed k hnew =>
    refine ⟨fun k' ↦ ?_, Finset.insert_subset_insert _ h.subscriptions, fun call hcall ↦ ?_,
      fun k' sub' hsub' ↦ ?_, fun k' sub' aborted hsub' hpc ↦ ?_⟩
    · show k' ∈ insert k s.inner.subscribers ↔ ((s.setSubscriber k _).subscribers k').isSome
      rw [Finset.mem_insert, h.keys, setSubscriber]
      by_cases hk : k' = k
      · subst hk
        simp
      · simp [hk]
    · obtain ⟨hnodup, hkeys⟩ := h.senders call hcall
      exact ⟨hnodup, fun k' hk' ↦ Finset.mem_insert_of_mem (hkeys k' hk')⟩
    · rcases setSubscriber_eq_some_iff.1 hsub' with ⟨rfl, rfl⟩ | ⟨-, hsame⟩
      · exact fun hpc ↦ by cases hpc
      · exact h.running k' sub' hsame
    · rcases setSubscriber_eq_some_iff.1 hsub' with ⟨rfl, rfl⟩ | ⟨hk, hsame⟩
      · cases hpc
      · exact fun hmem ↦ h.stopped k' sub' aborted hsame hpc
          (Finset.mem_of_mem_insert_of_ne hmem hk)
  | @worked action k sub sub' hsub hmove =>
    refine ⟨fun k' ↦ ?_, h.subscriptions, h.senders, fun k' sub'' hsub' ↦ ?_,
      fun k' sub'' aborted hsub' hpc ↦ ?_⟩
    · exact (h.keys k').trans (Bool.eq_iff_iff.1 (isSome_setSubscriber hsub _ k').symm)
    · rcases setSubscriber_eq_some_iff.1 hsub' with ⟨rfl, rfl⟩ | ⟨-, hsame⟩
      · cases hmove with
        -- the channel has a sender in the map, so `recv` does not find it closed
        | closed hpc hqueue hkey => exact absurd ((h.keys k').2 (by simp [hsub])) hkey
        | _ => exact fun hpc' ↦ by cases hpc'
      · exact h.running k' sub'' hsame
    · rcases setSubscriber_eq_some_iff.1 hsub' with ⟨rfl, rfl⟩ | ⟨-, hsame⟩
      · cases hmove with
        | stopped hdropped hrunning => exact hdropped
        | _ => cases hpc
      · exact h.stopped k' sub'' aborted hsame hpc
  | @dropped k hk =>
    refine ⟨h.keys, (Finset.erase_subset k _).trans h.subscriptions, h.senders, h.running, ?_⟩
    exact fun k' sub' aborted hsub' hpc hmem ↦
      h.stopped k' sub' aborted hsub' hpc (Finset.mem_of_mem_erase hmem)
  -- no worker ever gets to the removal
  | @removed k sub hsub hpc => exact absurd hpc (h.running k sub hsub)

theorem registered_of_reachable (h : Reachable step initial s) : Registered s :=
  h.invariant registered_initial fun _ _ _ hs hstep ↦ registered_step hs hstep

end World

/-- The subscriber of a sender is there, so `send` never has nothing to send to. -/
theorem Registered.exists_subscriber {s : World} (h : Registered s) {call : Call}
    (hcall : call ∈ s.calls) {k : Uuid} (hk : k ∈ call.senders) :
    ∃ sub, s.subscribers k = some sub :=
  Option.isSome_iff_exists.1 ((h.keys k).1 ((h.senders call hcall).2 k hk))

/-! ## What dropping a subscription leaves behind

The set of live subscriptions gets smaller by a drop, and the map does not. -/

/-- A drop. -/
def Action.isDrop : Action → Bool
  | .drop _ => true
  | _ => false

/-- A call of `subscribe`. -/
def Action.isSubscribe : Action → Bool
  | .subscribe _ => true
  | _ => false

namespace World

variable {s t : World} {action : Action} {k : Uuid}

/-- **A step changes the map only by adding to it.**  The removal at the end of the loop of a
subscriber is never reached. -/
theorem subscribers_step (h : Registered s) (hstep : s.step action = some t) :
    (t.inner.subscribers = s.inner.subscribers ∧ action.isSubscribe = false ∧
      t.subscriptions ⊆ s.subscriptions ∧
      (action.isDrop = false → t.subscriptions = s.subscriptions)) ∨
    ∃ k, action = .subscribe k ∧ k ∉ s.inner.subscribers ∧
      t.inner.subscribers = insert k s.inner.subscribers ∧
      t.subscriptions = insert k s.subscriptions := by
  cases move_of_step hstep with
  | @subscribed k hnew =>
    refine Or.inr ⟨k, rfl, fun hk ↦ ?_, rfl, rfl⟩
    have hsome := (h.keys k).1 hk
    rw [hnew] at hsome
    cases hsome
  | worked hsub hmove =>
    cases hmove <;> exact Or.inl ⟨rfl, rfl, Finset.Subset.refl _, fun _ ↦ rfl⟩
  | @dropped k hk =>
    exact Or.inl ⟨rfl, rfl, Finset.erase_subset k _, fun hdrop ↦ by cases hdrop⟩
  | @removed k sub hsub hpc => exact absurd hpc (h.running k sub hsub)
  | _ => exact Or.inl ⟨rfl, rfl, Finset.Subset.refl _, fun _ ↦ rfl⟩

/-- The map has an entry for every call of `subscribe` there has been. -/
theorem subscriberCount_eq_countP {as : List Action} (hs : Registered s)
    (hrun : run step s as = some t) :
    t.subscriberCount = s.subscriberCount + as.countP Action.isSubscribe := by
  induction as generalizing s with
  | nil =>
    obtain rfl := Option.some_inj.1 hrun
    rfl
  | cons a as ih =>
    obtain ⟨m, hm, hrest⟩ := run_cons_eq_some.1 hrun
    rw [ih (registered_step hs hm) hrest, List.countP_cons, subscriberCount, subscriberCount]
    rcases subscribers_step hs hm with ⟨hmap, hother, -⟩ | ⟨k, rfl, hk, hmap, -⟩
    · simp [hmap, hother]
    · rw [hmap, Finset.card_insert_of_notMem hk]
      simp [Action.isSubscribe]
      omega

/-- A subscriber that has been dropped keeps its entry, before its worker is aborted and after it.
-/
theorem dropped_run {as : List Action} (hs : Registered s)
    (hk : k ∈ s.inner.subscribers ∧ k ∉ s.subscriptions) (hrun : run step s as = some t) :
    k ∈ t.inner.subscribers ∧ k ∉ t.subscriptions := by
  refine (run_invariant (I := fun s ↦ Registered s ∧ k ∈ s.inner.subscribers ∧ k ∉ s.subscriptions)
    (fun s a t ⟨hs, hkey, hdropped⟩ hstep ↦ ⟨registered_step hs hstep, ?_⟩) ⟨hs, hk⟩ hrun).2
  rcases subscribers_step hs hstep with ⟨hmap, -, hsubset, -⟩ | ⟨k', rfl, hk', hmap, hsubs⟩
  · exact ⟨hmap ▸ hkey, fun hmem ↦ hdropped (hsubset hmem)⟩
  · rw [hmap, hsubs]
    refine ⟨Finset.mem_insert_of_mem hkey, fun hmem ↦ ?_⟩
    rcases Finset.mem_insert.1 hmem with rfl | hmem
    · exact hk' hkey
    · exact hdropped hmem

/-- Without a drop the map and the live subscriptions stay the same. -/
theorem undropped_run {as : List Action} (hs : Registered s)
    (heq : s.inner.subscribers = s.subscriptions) (has : ∀ a ∈ as, a.isDrop = false)
    (hrun : run step s as = some t) : t.inner.subscribers = t.subscriptions := by
  refine (run_invariant_of_forall (K := fun a ↦ a.isDrop = false)
    (I := fun s ↦ Registered s ∧ s.inner.subscribers = s.subscriptions)
    (fun s a t ⟨hs, heq⟩ ha hstep ↦ ⟨registered_step hs hstep, ?_⟩) ⟨hs, heq⟩ has hrun).2
  rcases subscribers_step hs hstep with ⟨hmap, -, -, hsame⟩ | ⟨k, -, -, hmap, hsubs⟩
  · rw [hmap, hsame ha, heq]
  · rw [hmap, hsubs, heq]

/-- Every drop of a run leaves an entry behind. -/
theorem exists_of_drop_mem {as : List Action} (hs : Registered s) (hrun : run step s as = some t)
    (hk : Action.drop k ∈ as) : k ∈ t.inner.subscribers ∧ k ∉ t.subscriptions := by
  obtain ⟨before, later, rfl⟩ := List.append_of_mem hk
  rw [run_append, Option.bind_eq_some_iff] at hrun
  obtain ⟨m, hm, hrest⟩ := hrun
  obtain ⟨m', hdrop, hlater⟩ := run_cons_eq_some.1 hrest
  have hm' : Registered m := run_invariant (fun _ _ _ ↦ registered_step) hs hm
  refine dropped_run (registered_step hm' hdrop) ?_ hlater
  cases move_of_step hdrop with
  | dropped hlive => exact ⟨hm'.subscriptions hlive, Finset.notMem_erase k _⟩
  | worked _ hmove => cases hmove

end World

/-- **The map forgets nobody.**  In every state a run ends in, whether or not the aborted workers
have stopped, the map has one entry for each live subscription and no other, and `subscriber_count`
is their number, exactly if no `Subscription` has been dropped. -/
theorem subscriberCount_eq_iff (as : List Action) (s : World)
    (hrun : run World.step .initial as = some s) :
    (s.inner.subscribers = s.subscriptions ↔ ∀ k, Action.drop k ∉ as) ∧
      (s.subscriberCount = s.subscriptions.card ↔ ∀ k, Action.drop k ∉ as) := by
  have hs : Registered s := World.registered_of_reachable ⟨as, hrun⟩
  have hmap : s.inner.subscribers = s.subscriptions ↔ ∀ k, Action.drop k ∉ as := by
    constructor
    · intro heq k hk
      obtain ⟨hkey, hdropped⟩ := World.exists_of_drop_mem World.registered_initial hrun hk
      exact hdropped (heq ▸ hkey)
    · intro hnone
      refine World.undropped_run World.registered_initial rfl (fun a ha ↦ ?_) hrun
      cases a with
      | drop k => exact absurd ha (hnone k)
      | _ => rfl
  refine ⟨hmap, Iff.trans ⟨fun hcard ↦ ?_, fun heq ↦ congrArg Finset.card heq⟩ hmap⟩
  exact (Finset.eq_of_subset_of_card_le hs.subscriptions hcard.le).symm

/-- Two subscribers, and nothing is dropped. -/
theorem twoSubscribers_counted : ∃ s, run World.step .initial [.subscribe ⟨1⟩, .subscribe ⟨2⟩] =
    some s ∧ s.subscriberCount = s.subscriptions.card := by
  obtain ⟨s, hs⟩ := Option.isSome_iff_exists.1
    (show (run World.step .initial [.subscribe ⟨1⟩, .subscribe ⟨2⟩]).isSome by decide)
  exact ⟨s, hs, (subscriberCount_eq_iff _ s hs).2.2 fun k hk ↦ by simp at hk⟩

/-- A subscription is dropped, and its worker is aborted. -/
def droppedRun : List Action := [.subscribe ⟨1⟩, .drop ⟨1⟩, .stop ⟨1⟩]

/-- The aborted worker has stopped, and its entry is still there.  The entry was to be removed when
the channel ends, and as long as it is there the channel does not end, since it holds a sender. -/
theorem droppedRun_counted : ¬∀ s, Reachable World.step .initial s →
    (∀ k sub, s.subscribers k = some sub → k ∉ s.subscriptions →
      ∃ aborted, sub.pc = .stopped aborted) →
    s.subscriberCount = s.subscriptions.card := by
  intro h
  have hend : (run World.step .initial droppedRun).map (fun s ↦ ((s.inner.subscribers,
      (s.subscribers ⟨1⟩).map Subscriber.pc), s.subscriberCount, s.subscriptions.card)) =
      some (({⟨1⟩}, some (.stopped none)), 1, 0) := by decide
  obtain ⟨s, hs, hend⟩ := Option.map_eq_some_iff.1 hend
  obtain ⟨hfirst, hcounts⟩ := Prod.ext_iff.1 hend
  obtain ⟨hkeys, hpc⟩ := Prod.ext_iff.1 hfirst
  obtain ⟨hcount, hcard⟩ := Prod.ext_iff.1 hcounts
  have hstopped : ∀ k sub, s.subscribers k = some sub → k ∉ s.subscriptions →
      ∃ aborted, sub.pc = .stopped aborted := by
    intro k sub hsub _
    have hk : k ∈ s.inner.subscribers :=
      ((World.registered_of_reachable ⟨_, hs⟩).keys k).2 (by simp [hsub])
    rw [show s.inner.subscribers = {⟨1⟩} from hkeys, Finset.mem_singleton] at hk
    subst hk
    have hsome : (s.subscribers ⟨1⟩).map Subscriber.pc = some (.stopped none) := hpc
    rw [hsub, Option.map_some, Option.some_inj] at hsome
    exact ⟨none, hsome⟩
  have hclaim := h s ⟨_, hs⟩ hstopped
  exact absurd (hcount.symm.trans (hclaim.trans hcard)) (by decide)

end InMemoryBus

end PhenoEvents
