import PhenoEvents.Bus.Interchange
import PhenoEvents.Library.Firsts

/-!
# First in, first out

Any number of workers, whatever their handlers return and whoever is aborted: if the clock of the
publishers advances, the events are claimed for the first time in the order in which they were
published.

`claim_next` has two columns to look at, and both are written by others than the publisher:
`mark_failed` moves `next_attempt_at`.  The invariant (`FirstClaimed`) is about the rows nobody has
claimed yet, which only the publisher has written: they are pending, and the two columns agree.  So
if such a row is due, whatever the reading of the clock, the ones before it are due and older.

## What is here

* `World.claims`, the events that were claimed, in the order of the claims; and its `firsts`, the
  order in which they were claimed for the first time.
* `SqliteBus.Sequential`: what is assumed of a run.  The events are distinct and are published one
  after the other by a clock that advances, and their envelopes decode.
* `FirstClaimed` and `World.InOrder`, the invariants of the outbox and of the system.
* `first_in_first_out`.

Nothing is assumed about the clocks of the workers.  A worker with a late reading takes the oldest
row that it finds due, and one with an early reading may find none; in neither case can a row that
was never claimed be overtaken by a younger one that was not claimed either.  What can come in
between is an event that is tried again.
-/

set_option autoImplicit false

namespace PhenoEvents

open Transition

/-- The event of a claim. -/
def Observation.claim : Observation → Option Uuid
  | .claimed _ eventId => some eventId
  | _ => none

/-- The events that have been claimed, in the order of the claims. -/
def World.claims (s : World) : List Uuid := s.history.filterMap Observation.claim

/-- An envelope `publish` accepts has a text, and the text decodes. -/
def Serde.Decodes (serde : Serde) (e : EventEnvelope) : Prop :=
  e.validate = .ok () → ∃ text e', serde.toString e = .ok text ∧ serde.fromStr text = .ok e'

theorem Serde.RoundTrips.decodes {serde : Serde} {e : EventEnvelope} (h : serde.RoundTrips e) :
    serde.Decodes e := fun hvalid ↦ (h hvalid).imp fun _ htext ↦ ⟨e, htext⟩

/-- What is assumed of a run: distinct events, one published after the other by a clock that
advances, and envelopes that decode. -/
structure SqliteBus.Sequential (bus : SqliteBus) (as : List Action) : Prop where
  distinct : ((valid (published as)).map EventEnvelope.id).Nodup
  publishedAt : (as.filterMap Action.publishedAt).Pairwise (· < ·)
  decodes : ∀ e ∈ published as, bus.serde.Decodes e

theorem SqliteBus.Sequential.of_sublist {bus : SqliteBus} {as bs : List Action}
    (h : bus.Sequential bs) (hsub : as.Sublist bs) : bus.Sequential as where
  distinct := h.distinct.sublist (((hsub.filterMap _).filter _).map _)
  publishedAt := h.publishedAt.sublist (hsub.filterMap _)
  decodes e he := h.decodes e ((hsub.filterMap _).subset he)

/-! ## The rows nobody has claimed

They are the last rows of the table, since rows are appended in the order of their publication and
are claimed from the front. -/

/-- The rows are the events, in order, and those that were never claimed come last and are as
`publish` wrote them. -/
structure FirstClaimed (bus : SqliteBus) (outbox : KeyedTable OutboxRow.eventId)
    (claims : List Uuid) (ids : List Uuid) (publishedAt : List Instant) : Prop where
  keys : outbox.rows.map OutboxRow.eventId = ids
  created : outbox.rows.map OutboxRow.createdAt = publishedAt
  decodes : ∀ r ∈ outbox.rows, ∃ e, bus.serde.fromStr r.envelope = .ok e ∧ e.id = r.eventId
  fresh : ∀ r ∈ outbox.rows, r.eventId ∉ claims → r.status = .pending ∧
    r.nextAttemptAt = r.createdAt
  order : claims.firsts id <+: ids

namespace FirstClaimed

variable {bus : SqliteBus} {outbox : KeyedTable OutboxRow.eventId} {claims claims' ids : List Uuid}
  {publishedAt : List Instant}

theorem empty (bus : SqliteBus) : FirstClaimed bus .empty [] [] [] where
  keys := rfl
  created := rfl
  decodes _ hr := absurd hr List.not_mem_nil
  fresh _ hr := absurd hr List.not_mem_nil
  order := List.prefix_rfl

theorem mem_firsts_iff {id' : Uuid} : id' ∈ claims.firsts id ↔ id' ∈ claims := by
  rw [← List.map_id (claims.firsts id), List.mem_map_firsts_iff, List.map_id]

/-- An `UPDATE` of events that have been claimed. -/
theorem update (h : FirstClaimed bus outbox claims ids publishedAt) (hsub : claims ⊆ claims')
    (horder : claims'.firsts id <+: ids) {p : OutboxRow → Bool} {f : OutboxRow → OutboxRow}
    (hf : ∀ r, p r = true → (f r).eventId = r.eventId) (hp : ∀ r, p r = true → r.eventId ∈ claims')
    (henvelope : ∀ r, (f r).envelope = r.envelope) (hcreated : ∀ r, (f r).createdAt = r.createdAt) :
    FirstClaimed bus (outbox.updateWhere p f hf) claims' ids publishedAt where
  keys := (outbox.keys_updateWhere hf).trans h.keys
  created := (outbox.map_rows_updateWhere hf fun r _ ↦ hcreated r).trans h.created
  decodes r hr := by
    obtain ⟨r', hr', rfl⟩ := KeyedTable.mem_updateWhere.1 hr
    rw [KeyedTable.key_ite_updateWhere hf]
    have hsame : (if p r' = true then f r' else r').envelope = r'.envelope := by
      split
      · exact henvelope r'
      · rfl
    rw [hsame]
    exact h.decodes r' hr'
  fresh r hr hnew := by
    obtain ⟨r', hr', rfl⟩ := KeyedTable.mem_updateWhere.1 hr
    rw [KeyedTable.key_ite_updateWhere hf] at hnew
    rw [if_neg fun hpr ↦ hnew (hp r' hpr)]
    exact h.fresh r' hr' fun hold ↦ hnew (hsub hold)
  order := horder

/-- An event is published. -/
theorem insertEvent {db : Database} (h : FirstClaimed bus db.outbox claims ids publishedAt)
    {e : EventEnvelope} {text : String} {now : Instant}
    (hdecode : ∃ e', bus.serde.fromStr text = .ok e' ∧ e'.id = e.id) (hnew : e.id ∉ ids) :
    FirstClaimed bus (db.insertEvent e.id text now).outbox claims (ids ++ [e.id])
      (publishedAt ++ [now]) := by
  have hrows : (db.insertEvent e.id text now).outbox.rows =
      db.outbox.rows ++ [.new e.id text now] := by
    refine KeyedTable.rows_insertOrIgnore_of_none (r := OutboxRow.new e.id text now) ?_
    rwa [← h.keys, KeyedTable.mem_keys_iff, not_not] at hnew
  refine ⟨?_, ?_, fun r hr ↦ ?_, fun r hr hunclaimed ↦ ?_, h.order.trans (List.prefix_append ..)⟩
  · rw [hrows, List.map_append, h.keys]
    rfl
  · rw [hrows, List.map_append, h.created]
    rfl
  · rw [hrows, List.mem_append, List.mem_singleton] at hr
    rcases hr with hr | rfl
    · exact h.decodes r hr
    · exact hdecode
  · rw [hrows, List.mem_append, List.mem_singleton] at hr
    rcases hr with hr | rfl
    · exact h.fresh r hr hunclaimed
    · exact ⟨rfl, rfl⟩

/-- **Whoever is claimed for the first time comes next.**  If an event before it had never been
claimed, its row would be due as well, and older.  Then the query would have come back with that
one. -/
theorem nextDue {db : Database} (h : FirstClaimed bus db.outbox claims ids publishedAt)
    (hclock : publishedAt.Pairwise (· < ·)) {now : Instant} {tie : ℕ} {row : OutboxRow}
    (hrow : db.nextDue now tie = some row) : (claims ++ [row.eventId]).firsts id <+: ids := by
  rw [List.firsts_concat, List.map_id, id_eq]
  split
  · exact h.order
  · rename_i hfirst
    obtain ⟨hlookup, -, hdue, hleast⟩ := Database.nextDue_eq_some hrow
    have hmem : row ∈ db.outbox.rows := KeyedTable.mem_of_lookup hlookup
    rw [(h.fresh row hmem hfirst).2] at hdue
    obtain ⟨before, behind, hrows⟩ := List.append_of_mem hmem
    have hcreated := List.pairwise_map.1 (h.created ▸ hclock)
    rw [hrows, List.pairwise_append] at hcreated
    have hbefore : ∀ r ∈ before, r.eventId ∈ claims := by
      intro r hr
      by_contra hunclaimed
      have hr' : r ∈ db.outbox.rows := hrows ▸ List.mem_append_left _ hr
      obtain ⟨hpending, hsame⟩ := h.fresh r hr' hunclaimed
      have hlt : r.createdAt < row.createdAt := hcreated.2.2 r hr row List.mem_cons_self
      have hdue' : r.due now = true := by
        rw [OutboxRow.due, decide_eq_true_eq, hsame]
        exact ⟨by simp [OutboxRow.claimable, hpending], hlt.le.trans hdue⟩
      exact absurd (hleast r hr' hdue') (not_le.2 hlt)
    have hids :
        ids = before.map OutboxRow.eventId ++ row.eventId :: behind.map OutboxRow.eventId := by
      rw [← h.keys, hrows, List.map_append, List.map_cons]
    have hnodup : ids.Nodup := h.keys ▸ db.outbox.nodup
    rw [hids] at hnodup ⊢
    refine List.concat_isPrefix (hids ▸ h.order) (fun id' hid ↦ ?_) (mt mem_firsts_iff.1 hfirst)
      hnodup
    obtain ⟨r, hr, rfl⟩ := List.mem_map.1 hid
    exact mem_firsts_iff.2 (hbefore r hr)

/-- A row that decodes is claimed under its own id. -/
theorem id_eq_of_nextDue {db : Database} (h : FirstClaimed bus db.outbox claims ids publishedAt)
    {now : Instant} {tie : ℕ} {row : OutboxRow} (hrow : db.nextDue now tie = some row) :
    ∃ e, bus.serde.fromStr row.envelope = .ok e ∧ e.id = row.eventId :=
  h.decodes row (KeyedTable.mem_of_lookup (Database.nextDue_eq_some hrow).1)

end FirstClaimed

/-! ## The run

The claims are read off the history, so a step that is no claim keeps them, and a claim of an event
that has been claimed before adds nothing to the firsts. -/

/-- What a worker holds it has claimed. -/
def World.HoldsClaimed (s : World) : Prop :=
  ∀ w pc id, s.workers w = some pc → pc.held = some id → id ∈ s.claims

/-- The events have been claimed in order: the first claims are a beginning of the list of what was
published, and the outbox agrees. -/
structure World.InOrder (bus : SqliteBus) (as : List Action) (s : World) : Prop where
  outbox : FirstClaimed bus s.db.outbox s.claims ((valid (published as)).map EventEnvelope.id)
    (as.filterMap Action.publishedAt)
  held : s.HoldsClaimed

variable {bus : SqliteBus}

/-- **A step of a worker.** -/
theorem WorkerMove.firstClaimed {w : ℕ} {db db' : Database} {pc pc' : Pc} {action : WorkerAction}
    {obs : List Observation} {claims ids : List Uuid} {publishedAt : List Instant}
    (h : WorkerMove bus w db pc action db' pc' obs)
    (hdb : FirstClaimed bus db.outbox claims ids publishedAt)
    (hclock : publishedAt.Pairwise (· < ·)) (hheld : ∀ id, pc.held = some id → id ∈ claims) :
    FirstClaimed bus db'.outbox (claims ++ obs.filterMap Observation.claim) ids publishedAt ∧
      ∀ id, pc'.held = some id → id ∈ claims ++ obs.filterMap Observation.claim := by
  have hsame : claims ++ [] = claims := List.append_nil _
  cases h with
  | claim now tie row e hrow hdecode =>
    obtain ⟨e', hdecode', hid⟩ := hdb.id_eq_of_nextDue hrow
    obtain rfl := Except.ok.inj (hdecode.symm.trans hdecode')
    show FirstClaimed bus _ (claims ++ [e.id]) _ _ ∧ ∀ id, some e.id = some id →
      id ∈ claims ++ [e.id]
    rw [hid]
    refine ⟨hdb.update (List.subset_append_left _ _) (hdb.nextDue hclock hrow)
      (fun r _ ↦ r.eventId_claimed now) (fun r hr ↦ ?_) (fun _ ↦ rfl) fun _ ↦ rfl, fun id hid ↦ ?_⟩
    · rw [(of_decide_eq_true hr).1]
      exact List.mem_append_right _ (List.mem_singleton_self _)
    · exact Option.some_inj.1 hid ▸ List.mem_append_right _ (List.mem_singleton_self _)
  | claimLost now tie row error hrow hdecode =>
    obtain ⟨e', hdecode', -⟩ := hdb.id_eq_of_nextDue hrow
    cases hdecode.symm.trans hdecode'
  | markHandled id now =>
    rw [List.filterMap_nil, hsame]
    refine ⟨hdb.update (List.Subset.refl _) hdb.order (fun r _ ↦ r.eventId_acked now)
      (fun r hr ↦ ?_) (fun _ ↦ rfl) fun _ ↦ rfl, fun id h ↦ by cases h⟩
    exact of_decide_eq_true hr ▸ hheld id rfl
  | updateFailed id error now attempts =>
    show FirstClaimed bus _ (claims ++ []) _ _ ∧ ∀ id', none = some id' → id' ∈ claims ++ []
    rw [hsame]
    refine ⟨hdb.update (List.Subset.refl _) hdb.order (fun r _ ↦ r.eventId_failed _ _ error now)
      (fun r hr ↦ ?_) (fun _ ↦ rfl) fun _ ↦ rfl, fun id h ↦ by cases h⟩
    exact of_decide_eq_true hr ▸ hheld id rfl
  | handledBefore | notHandled | invoke | succeed | fail | readAttempts =>
    exact ⟨hsame.symm ▸ hdb, fun id hid ↦ hsame.symm ▸ hheld id hid⟩
  | poll | claimNothing | rowGone | sqliteError =>
    exact ⟨hsame.symm ▸ hdb, fun id hid ↦ by cases hid⟩

namespace World

variable {s t : World} {as : List Action}

theorem claims_of_history {obs : List Observation} (h : t.history = s.history ++ obs) :
    t.claims = s.claims ++ obs.filterMap Observation.claim := by
  rw [claims, h, List.filterMap_append]
  rfl

/-- A step that is about one worker. -/
theorem HoldsClaimed.update (h : s.HoldsClaimed) {w : ℕ} {o : Option Pc}
    (hworkers : t.workers = Function.update s.workers w o) (hsub : s.claims ⊆ t.claims)
    (ho : ∀ pc id, o = some pc → pc.held = some id → id ∈ t.claims) : t.HoldsClaimed := by
  intro v pc id hpc hid
  rw [hworkers, Function.update_apply] at hpc
  split at hpc
  · exact ho pc id hpc hid
  · exact hsub (h v pc id hpc hid)

/-- A call of `publish` that takes an envelope. -/
theorem valid_published_concat_of_ok (as : List Action) {e : EventEnvelope} (now : Instant)
    (h : e.validate = .ok ()) :
    (valid (published (as ++ [Action.publish e now]))).map EventEnvelope.id =
        (valid (published as)).map EventEnvelope.id ++ [e.id] ∧
      (as ++ [Action.publish e now]).filterMap Action.publishedAt =
        as.filterMap Action.publishedAt ++ [now] := by
  have hread : (Action.publish e now).publishedAt = some now := by
    rw [Action.publishedAt, h]
    rfl
  rw [published_concat, filterMap_concat, Action.envelope, Option.toList_some,
    valid_concat_of_ok _ h, List.map_append, List.map_singleton, hread, Option.toList_some]
  exact ⟨rfl, rfl⟩

/-- A call of `publish` that rejects an envelope. -/
theorem valid_published_concat_of_error (as : List Action) {e : EventEnvelope}
    {error : EnvelopeError} (now : Instant) (h : e.validate = .error error) :
    (valid (published (as ++ [Action.publish e now]))).map EventEnvelope.id =
        (valid (published as)).map EventEnvelope.id ∧
      (as ++ [Action.publish e now]).filterMap Action.publishedAt =
      as.filterMap Action.publishedAt := by
  have hread : (Action.publish e now).publishedAt = none := by
    rw [Action.publishedAt, h]
    rfl
  rw [published_concat, filterMap_concat, Action.envelope, Option.toList_some,
    valid_concat_of_error _ h, hread, Option.toList_none, List.append_nil]
  exact ⟨rfl, rfl⟩

/-- A step that is no call of `publish`. -/
theorem valid_published_concat_of_none (as : List Action) {a : Action} (h : a.envelope = none)
    (hread : a.publishedAt = none) :
    (valid (published (as ++ [a]))).map EventEnvelope.id =
        (valid (published as)).map EventEnvelope.id ∧
      (as ++ [a]).filterMap Action.publishedAt = as.filterMap Action.publishedAt := by
  rw [published_concat, filterMap_concat, h, hread, Option.toList_none, Option.toList_none,
    List.append_nil, List.append_nil]
  exact ⟨rfl, rfl⟩

/-- **One step.** -/
theorem inOrder_step {a : Action} (h : s.InOrder bus as) (hclean : bus.Sequential (as ++ [a]))
    (hstep : step bus s a = some t) : t.InOrder bus (as ++ [a]) := by
  have hclock := (hclean.of_sublist (List.sublist_append_left as [a])).publishedAt
  have hdistinct := hclean.distinct
  have hmem : ∀ e, a.envelope = some e → e ∈ published (as ++ [a]) := fun e he ↦ by
    rw [published_concat, he]
    exact List.mem_append_right _ (List.mem_singleton_self e)
  obtain ⟨houtbox, hheld⟩ := h
  cases WorldMove.of_step hstep with
  | accepted e now text hvalid htext =>
    -- a new id, as the published ids are distinct, and so a new row at the end
    obtain ⟨hids, hreads⟩ := valid_published_concat_of_ok as now hvalid
    obtain ⟨text', e', htext', hdecode⟩ := hclean.decodes e (hmem e rfl) hvalid
    obtain rfl := Except.ok.inj (htext.symm.trans htext')
    rw [hids, List.nodup_append] at hdistinct
    have hclaims : ∀ ack, ({ s with
        db := s.db.insertEvent e.id text now
        history := s.history ++ [.published e (.ok ack)] } : World).claims = s.claims :=
      fun ack ↦ (claims_of_history (s := s) rfl).trans (List.append_nil _)
    refine ⟨?_, fun w pc id hpc hid ↦ hclaims _ ▸ hheld w pc id hpc hid⟩
    rw [hclaims, hids, hreads]
    exact houtbox.insertEvent ⟨e', hdecode, bus.serde.id_eq e text e' htext hdecode⟩
      fun hold ↦ hdistinct.2.2 e.id hold e.id (List.mem_singleton_self _) rfl
  | rejected e now error herror =>
    -- the only errors are those of invalid envelopes, which have no reading of the clock
    have hwrites : e.validate = .ok () → ∃ text, bus.serde.toString e = .ok text := fun hvalid ↦
      (hclean.decodes e (hmem e rfl) hvalid).imp fun _ h ↦ h.choose_spec.1
    obtain ⟨invalid, hinvalid, -⟩ := SqliteBus.publish_eq_error hwrites herror
    obtain ⟨hids, hreads⟩ := valid_published_concat_of_error as now hinvalid
    have hclaims :
        ({ s with history := s.history ++ [.published e (.error error)] } : World).claims =
        s.claims := (claims_of_history (s := s) rfl).trans (List.append_nil _)
    refine ⟨?_, fun w pc id hpc hid ↦ hclaims ▸ hheld w pc id hpc hid⟩
    rw [hclaims, hids, hreads]
    exact houtbox
  | subscribe w hfree =>
    obtain ⟨hids, hreads⟩ := valid_published_concat_of_none as (a := .subscribe w) rfl rfl
    refine ⟨by rw [hids, hreads]; exact houtbox, ?_⟩
    exact hheld.update rfl (List.Subset.refl _) fun pc id hpc hid ↦ by cases hpc; cases hid
  | abort w pc hpc =>
    obtain ⟨hids, hreads⟩ := valid_published_concat_of_none as (a := .abort w) rfl rfl
    refine ⟨by rw [hids, hreads]; exact houtbox, ?_⟩
    exact hheld.update rfl (List.Subset.refl _) fun pc id hpc hid ↦ by cases hpc
  | restart =>
    obtain ⟨hids, hreads⟩ := valid_published_concat_of_none as (a := .restart) rfl rfl
    refine ⟨by rw [hids, hreads]; exact houtbox, ?_⟩
    exact fun w pc id hpc hid ↦ by cases hpc
  | work w pc pc' action db' obs hpc hmove =>
    obtain ⟨hids, hreads⟩ := valid_published_concat_of_none as (a := .work w action) rfl rfl
    obtain ⟨hnext, hheld'⟩ := hmove.firstClaimed houtbox hclock fun id hid ↦ hheld w pc id hpc hid
    have hclaims :
        (⟨db', Function.update s.workers w (some pc'), s.history ++ obs⟩ : World).claims =
        s.claims ++ obs.filterMap Observation.claim := claims_of_history rfl
    refine ⟨by rw [hclaims, hids, hreads]; exact hnext, ?_⟩
    refine hheld.update rfl (hclaims ▸ List.subset_append_left _ _) fun pc'' id hpc'' hid ↦ ?_
    cases hpc''
    exact hclaims ▸ hheld' id hid

/-- **One run.** -/
theorem inOrder_of_run (hclean : bus.Sequential as)
    (hrun : run (step bus) initial as = some s) : s.InOrder bus as := by
  refine run_invariant_of_trace (I := fun as s ↦ bus.Sequential as → s.InOrder bus as) (fun _ ↦ ?_)
    (fun as a s t ih hstep hclean ↦ ?_) hrun hclean
  · exact ⟨.empty bus, fun w pc id hpc ↦ by cases hpc⟩
  · exact inOrder_step (ih (hclean.of_sublist (List.sublist_append_left as [a]))) hclean hstep

end World

/-- **First deliveries are first in, first out.**  The events are claimed for the first time in the
order in which they were published, and none is claimed while an earlier one has never been claimed.
-/
theorem first_in_first_out (bus : SqliteBus) (as : List Action) (s : World)
    (hclean : bus.Sequential as) (hrun : run (World.step bus) .initial as = some s) :
    s.claims.firsts id <+: (valid (published as)).map EventEnvelope.id ∧
    ∀ before w eventId behind, s.history = before ++ .claimed w eventId :: behind →
      ∀ earlier later, (valid (published as)).map EventEnvelope.id = earlier ++ eventId :: later →
        ∀ olderId ∈ earlier, ∃ v, .claimed v olderId ∈ before := by
  have horder := (World.inOrder_of_run hclean hrun).outbox.order
  refine ⟨horder, fun before w eventId behind hhistory earlier later hids olderId hold ↦ ?_⟩
  have hnodup : (earlier ++ eventId :: later).Nodup := hids ▸ hclean.distinct
  have hclaims : s.claims = before.filterMap Observation.claim ++ [eventId] ++
      behind.filterMap Observation.claim := by
    rw [World.claims, hhistory, List.filterMap_append, List.append_assoc]
    rfl
  -- The claims up to this one are in order too, so they have what comes before it.
  have hfront : (before.filterMap Observation.claim ++ [eventId]).firsts id <+:
      earlier ++ eventId :: later :=
    hids ▸ (List.firsts_isPrefix (hclaims ▸ List.prefix_append _ _)).trans horder
  have hlast := FirstClaimed.mem_firsts_iff.2
    (List.mem_append_right (before.filterMap Observation.claim) (List.mem_singleton_self eventId))
  have hclaimed := FirstClaimed.mem_firsts_iff.1 (List.subset_of_isPrefix hfront hlast hnodup hold)
  rw [List.mem_append, List.mem_singleton] at hclaimed
  rcases hclaimed with hclaimed | rfl
  · obtain ⟨obs, hobs, hclaim⟩ := List.mem_filterMap.1 hclaimed
    cases obs with
    | claimed v id => exact ⟨v, Option.some_inj.1 hclaim ▸ hobs⟩
    | _ => cases hclaim
  · exact absurd rfl ((List.nodup_append.1 hnodup).2.2 olderId hold olderId List.mem_cons_self)

/-- Two events and two workers.  The first event fails and waits for its retry, which a stale
reading keeps from the second worker. -/
def retriedRun : List Action :=
  [.subscribe 0, .subscribe 1, .work 1 (.poll 3), .publish (InMemoryBus.userEvent ⟨1⟩) 1,
    .publish (InMemoryBus.userEvent ⟨2⟩) 2, .work 0 (.poll 1), .work 0 (.claim 0),
    .work 0 (.alreadyHandled 4), .work 0 (.lastSeen 0), .work 0 (.returned (.error "no") 5),
    .work 0 .readAttempts, .work 0 .updateFailed, .work 1 (.claim 0), .abort 1]

theorem retriedRun_sequential : userEventsBus.Sequential retriedRun where
  distinct := by decide +kernel
  publishedAt := by decide
  decodes := by
    have hall : ∀ e ∈ published retriedRun, e.validate = .ok () →
        (userEventsBus.serde.toString e).isOk = true := by decide +kernel
    exact fun e he ↦ (Serde.roundTrips_table (by decide) (hall e he)).decodes

/-- The first event, which waits for its retry, and then the second. -/
theorem retriedRun_in_order : ∃ s, run (World.step userEventsBus) .initial retriedRun = some s ∧
    s.claims = [⟨1⟩, ⟨2⟩] ∧ s.claims.firsts id <+: [⟨1⟩, ⟨2⟩] := by
  have hend : (run (World.step userEventsBus) .initial retriedRun).map World.claims =
      some [⟨1⟩, ⟨2⟩] := by decide +kernel
  obtain ⟨s, hs, hclaims⟩ := Option.map_eq_some_iff.1 hend
  exact ⟨s, hs, hclaims, (first_in_first_out userEventsBus retriedRun s retriedRun_sequential hs).1⟩

end PhenoEvents
