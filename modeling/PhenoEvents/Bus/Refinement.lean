import PhenoEvents.Bus.Lifecycle

/-!
# The system refines the life of each event

`World.view` looks at a world through one event.  `WorldMove.sees` is the simulation: whatever the
system does, every single event either sees nothing, or takes a step of its life, or loses a worker;
and `World.Loses` says exactly which steps lose which event.

The one fact about the whole table this needs is that the text of a row belongs to the row's event
(`EventView.Encoded`): a worker identifies the event it has claimed by the envelope it has decoded.

`WorldMove.sees` is what the rest of the development uses: a step of the world is, for every single
event, a step of its view, a step that loses it, or nothing.

## What is here

* `holding` and `World.view`: of a worker an event sees where it is, if it holds the event, and
  nothing otherwise.
* `World.Loses`: a claim of a row that does not decode, an abort or a restart that takes away a
  worker which holds an event, and an error of SQLite between a claim and a mark.
* `Encoded`: what is assumed of the row so that the id in the envelope is the id of the row.  No
  step ever breaks it, since no step changes a text.
* `Sees`, and `WorldMove.sees`.

If the decoded envelope had another id than the row, the worker would mark another event than the
one it has claimed.  That is why `Encoded` is part of the simulation and not a detail of storage.
-/

set_option autoImplicit false

namespace PhenoEvents

/-- Where a worker is, if it holds the event.  An idle worker holds nothing, and neither does one
that is about to claim. -/
def holding (id : Uuid) (o : Option Pc) : Option Pc := o.filter fun pc ↦ pc.held = some id

theorem holding_of_held {id : Uuid} {pc : Pc} (h : pc.held = some id) :
    holding id (some pc) = some pc := by
  simp [holding, h]

theorem holding_of_not_held {id : Uuid} {pc : Pc} (h : pc.held ≠ some id) :
    holding id (some pc) = none := by
  simp [holding, h]

theorem holding_eq_some_iff {id : Uuid} {o : Option Pc} {pc : Pc} :
    holding id o = some pc ↔ o = some pc ∧ pc.held = some id := by
  simp [holding, Option.filter_eq_some_iff]

namespace World

/-- The world, seen through one event: its row, whether it has been handled, the workers that hold
it, and the observations that are about it. -/
def view (s : World) (id : Uuid) : EventView where
  row := s.db.outbox.lookup id
  handled := s.db.alreadyHandled id
  holders := fun w ↦ holding id (s.workers w)
  log := s.history.filter fun o ↦ o.eventId = id

/-- The step claims event `id` without decoding it, or takes away a worker that holds it.  What is
lost is the worker and not the row: that stays `in_progress`, and nobody will claim it again. -/
def Loses (bus : SqliteBus) (s : World) (id : Uuid) : Action → Prop
  | .work w (.claim tie) => ∃ now row error, s.workers w = some (.claiming now) ∧
      s.db.nextDue now tie = some row ∧ row.eventId = id ∧
        bus.serde.fromStr row.envelope = .error error
  | .work w .sqliteError | .abort w => ∃ pc, s.workers w = some pc ∧ pc.held = some id
  | .restart => ∃ w pc, s.workers w = some pc ∧ pc.held = some id
  | _ => False

variable {bus : SqliteBus} {s : World} {id : Uuid}

theorem holders_view {w : ℕ} {pc : Pc} (hpc : s.workers w = some pc) (hheld : pc.held = some id) :
    (s.view id).holders w = some pc :=
  holding_eq_some_iff.2 ⟨hpc, hheld⟩

theorem holding_update (workers : ℕ → Option Pc) (w : ℕ) (o : Option Pc) (id : Uuid) :
    (fun u ↦ holding id (Function.update workers w o u)) =
      Function.update (fun u ↦ holding id (workers u)) w (holding id o) := by
  funext u
  by_cases hu : u = w
  · rw [hu, Function.update_self, Function.update_self]
  · rw [Function.update_of_ne hu, Function.update_of_ne hu]

/-- A worker that comes or goes. -/
theorem view_workers (w : ℕ) (o : Option Pc) :
    World.view { s with workers := Function.update s.workers w o } id =
      { s.view id with holders := Function.update (s.view id).holders w (holding id o) } := by
  rw [view, holding_update]
  rfl

theorem update_holders_of_none {w : ℕ} (h : holding id (s.workers w) = none) :
    Function.update (s.view id).holders w none = (s.view id).holders :=
  Function.update_eq_self_iff.2 h.symm

/-- A step of a worker, seen through the event it is about. -/
theorem view_of_eq {db' : Database} {w : ℕ} {o : Option Pc} {obs : List Observation}
    (hobs : ∀ b ∈ obs, b.eventId = id) :
    (⟨db', Function.update s.workers w o, s.history ++ obs⟩ : World).view id =
      ⟨db'.outbox.lookup id, db'.alreadyHandled id,
        Function.update (s.view id).holders w (holding id o), (s.view id).log ++ obs⟩ := by
  have hall : obs.filter (fun b ↦ b.eventId = id) = obs :=
    List.filter_eq_self.2 fun b hb ↦ decide_eq_true (hobs b hb)
  rw [view, holding_update, List.filter_append, hall]
  rfl

/-- A step of a worker, seen through another event. -/
theorem view_of_ne {db' : Database} {w : ℕ} {o : Option Pc} {obs : List Observation}
    (hrow : db'.outbox.lookup id = s.db.outbox.lookup id)
    (hdone : db'.alreadyHandled id = s.db.alreadyHandled id)
    (hheld : holding id o = holding id (s.workers w)) (hobs : ∀ b ∈ obs, b.eventId ≠ id) :
    (⟨db', Function.update s.workers w o, s.history ++ obs⟩ : World).view id = s.view id := by
  have hnil : obs.filter (fun b ↦ b.eventId = id) = [] :=
    List.filter_eq_nil_iff.2 fun b hb ↦ by simp [hobs b hb]
  have hself : Function.update (fun u ↦ holding id (s.workers u)) w (holding id (s.workers w)) =
      fun u ↦ holding id (s.workers u) := Function.update_eq_self w _
  rw [view, holding_update, hheld, hself, List.filter_append, hnil, List.append_nil, hrow, hdone]
  rfl

end World

namespace EventView

/-- The row belongs to the event, and so does its text: if it decodes, then to an envelope with the
id of the row.  The text was made from an envelope with this id, and reading back what was written
is what the assumption on `serde` is about. -/
def Encoded (bus : SqliteBus) (id : Uuid) (v : EventView) : Prop :=
  ∀ row, v.row = some row → row.eventId = id ∧
    ∃ envelope, envelope.id = id ∧ bus.serde.toString envelope = .ok row.envelope

variable {bus : SqliteBus} {id : Uuid} {v v' : EventView}

/-- A claimed envelope belongs to the row it was read from. -/
theorem Encoded.id_eq (h : v.Encoded bus id) {row : OutboxRow} {envelope : EventEnvelope}
    (hrow : v.row = some row) (hdecode : bus.serde.fromStr row.envelope = .ok envelope) :
    envelope.id = id := by
  obtain ⟨-, e, he, htext⟩ := h row hrow
  exact (bus.serde.id_eq e row.envelope envelope htext hdecode).trans he

theorem Encoded.of_row (h : v.Encoded bus id) (hrow : ∀ row', v'.row = some row' →
    ∃ row, v.row = some row ∧ row'.eventId = row.eventId ∧ row'.envelope = row.envelope) :
    v'.Encoded bus id := by
  intro row' hrow'
  obtain ⟨row, hr, hid, htext⟩ := hrow row' hrow'
  rw [hid, htext]
  exact h row hr

/-- **No step changes the text of a row.**  A row is inserted with its text, and from then on only
its status, its attempts, its times and its error change. -/
theorem Step.row_cases (hs : v.Step bus id v') {row' : OutboxRow} (hrow' : v'.row = some row') :
    (∃ row, v.row = some row ∧ row'.eventId = row.eventId ∧ row'.envelope = row.envelope) ∨
      ∃ envelope now text, envelope.id = id ∧ bus.serde.toString envelope = .ok text ∧
        v.row = none ∧ row' = .new id text now := by
  cases hs with
  | publish envelope now text hid _ htext =>
    cases hr : v.row with
    | some row =>
      rw [hr] at hrow'
      exact Or.inl ⟨row, rfl, by cases hrow'; exact ⟨rfl, rfl⟩⟩
    | none =>
      rw [hr] at hrow'
      exact Or.inr ⟨envelope, now, text, hid, htext, rfl, (Option.some_inj.1 hrow').symm⟩
  | claim w row envelope now _ hrow =>
    cases hrow'
    exact Or.inl ⟨row, hrow, rfl, rfl⟩
  | markHandled w now _ | updateFailed w error now attempts _ =>
    obtain ⟨row, hrow, rfl⟩ := Option.map_eq_some_iff.1 hrow'
    exact Or.inl ⟨row, hrow, rfl, rfl⟩
  | _ => exact Or.inl ⟨row', hrow', rfl, rfl⟩

theorem Step.encoded (hs : v.Step bus id v') (h : v.Encoded bus id) : v'.Encoded bus id := by
  intro row' hrow'
  rcases hs.row_cases hrow' with ⟨row, hr, hid, htext⟩ | ⟨envelope, now, text, hid, htext, -, rfl⟩
  · rw [hid, htext]
    exact h row hr
  · exact ⟨rfl, envelope, hid, htext⟩

theorem Loss.encoded (hs : v.Loss v') (h : v.Encoded bus id) : v'.Encoded bus id := by
  cases hs with
  | claimLost row now hrow _ =>
    refine h.of_row fun row' hrow' ↦ ⟨row, hrow, ?_⟩
    cases hrow'
    exact ⟨rfl, rfl⟩
  | release w pc _ | releaseAll w pc _ => exact h

/-- What an event sees of a step of the system, which may or may not lose it.  Whether it does is
decided by `World.Loses`, so the losses of a run can be read off its actions and states. -/
inductive Sees (bus : SqliteBus) (id : Uuid) (lost : Prop) (v : EventView) : EventView → Prop
  | same (hkept : ¬lost) : Sees bus id lost v v
  | step {v' : EventView} (h : v.Step bus id v') (hkept : ¬lost) : Sees bus id lost v v'
  | loss {v' : EventView} (h : v.Loss v') (hlost : lost) : Sees bus id lost v v'

end EventView

/-! ## The simulation

There are four kinds of steps of a worker: one that is about another event, one that goes on with
the event it holds, one that lets go of it, and a claim that does not decode.  There is a lemma for
each, and the cases of `WorkerMove` only have to say which of them they are. -/

section Simulation

open EventView

variable {bus : SqliteBus} {s : World} {w : ℕ} {pc pc' : Pc} {db' : Database}
  {obs : List Observation} {id k : Uuid} {action : WorkerAction}

/-- A step about another event. -/
theorem sees_same (action : WorkerAction) (hpc : s.workers w = some pc)
    (hkept : ¬s.Loses bus id (.work w action)) (hheld : pc.held ≠ some id)
    (hheld' : pc'.held ≠ some id) (hrow : db'.outbox.lookup id = s.db.outbox.lookup id)
    (hdone : db'.alreadyHandled id = s.db.alreadyHandled id) (hobs : ∀ b ∈ obs, b.eventId ≠ id) :
    (s.view id).Sees bus id (s.Loses bus id (.work w action))
      (World.view ⟨db', Function.update s.workers w (some pc'), s.history ++ obs⟩ id) := by
  rw [World.view_of_ne hrow hdone _ hobs]
  · exact .same hkept
  · rw [hpc, holding_of_not_held hheld, holding_of_not_held hheld']

/-- A step about the event that leaves the tables alone and keeps the event. -/
theorem view_move (hheld' : pc'.held = some id) (hobs : ∀ b ∈ obs, b.eventId = id) :
    World.view ⟨s.db, Function.update s.workers w (some pc'), s.history ++ obs⟩ id =
      { s.view id with
        holders := Function.update (s.view id).holders w (some pc')
        log := (s.view id).log ++ obs } := by
  rw [World.view_of_eq hobs, holding_of_held hheld']
  rfl

/-- A worker that holds event `k` goes on with it.  To event `k` that is the step that is asked for,
and every other event sees a worker that holds nothing of its own, before and after. -/
theorem sees_move (action : WorkerAction) (hpc : s.workers w = some pc)
    (hkept : ∀ id, ¬s.Loses bus id (.work w action)) (hheld : pc.held = some k)
    (hheld' : pc'.held = some k) (hobs : ∀ b ∈ obs, b.eventId = k)
    (hstep : (s.view k).holders w = some pc → (s.view k).Step bus k
      { s.view k with
        holders := Function.update (s.view k).holders w (some pc')
        log := (s.view k).log ++ obs }) (id : Uuid) :
    (s.view id).Sees bus id (s.Loses bus id (.work w action))
      (World.view ⟨s.db, Function.update s.workers w (some pc'), s.history ++ obs⟩ id) := by
  by_cases hid : k = id
  · subst hid
    rw [view_move hheld' hobs]
    exact .step (hstep (World.holders_view hpc hheld)) (hkept k)
  · refine sees_same action hpc (hkept id) (by simpa [hheld] using hid)
      (by simpa [hheld'] using hid)
      rfl rfl ?_
    exact fun b hb ↦ by rw [hobs b hb]; exact hid

/-- A worker that holds event `k` lets go of it.  The row may have been updated in the same step,
and then it is no other row than that of event `k`. -/
theorem sees_release (action : WorkerAction) (hpc : s.workers w = some pc)
    (hkept : ∀ id, id ≠ k → ¬s.Loses bus id (.work w action)) (hheld : pc.held = some k)
    (hrow : ∀ id, id ≠ k → db'.outbox.lookup id = s.db.outbox.lookup id)
    (hdone : ∀ id, id ≠ k → db'.alreadyHandled id = s.db.alreadyHandled id)
    (hobs : ∀ b ∈ obs, b.eventId = k)
    (hsees : (s.view k).holders w = some pc → (s.view k).Sees bus k (s.Loses bus k (.work w action))
      ⟨db'.outbox.lookup k, db'.alreadyHandled k, Function.update (s.view k).holders w none,
        (s.view k).log ++ obs⟩) (id : Uuid) :
    (s.view id).Sees bus id (s.Loses bus id (.work w action))
      (World.view ⟨db', Function.update s.workers w (some .idle), s.history ++ obs⟩ id) := by
  by_cases hid : id = k
  · subst hid
    rw [World.view_of_eq hobs, holding_of_not_held (by simp [Pc.held])]
    exact hsees (World.holders_view hpc hheld)
  · refine sees_same action hpc (hkept id hid) (by simpa [hheld] using Ne.symm hid)
      (by simp [Pc.held])
      (hrow id hid) (hdone id hid) ?_
    exact fun b hb ↦ by rw [hobs b hb]; exact Ne.symm hid

/-- A claim that does not decode, seen through the claimed event. -/
theorem view_claimLost {now : Instant} {tie : ℕ} {row : OutboxRow}
    (hpc : s.workers w = some (.claiming now)) (hrow : s.db.nextDue now tie = some row) :
    World.view ⟨s.db.updateClaimed row.eventId now, Function.update s.workers w (some .idle),
      s.history ++ []⟩ row.eventId =
        { s.view row.eventId with row := some (row.claimed now) } := by
  obtain ⟨hlook, hclaim, -⟩ := Database.nextDue_eq_some hrow
  have hfree : holding row.eventId (s.workers w) = none := by
    rw [hpc, holding_of_not_held (by simp [Pc.held])]
  rw [World.view_of_eq (fun b hb ↦ absurd hb List.not_mem_nil),
    holding_of_not_held (by simp [Pc.held]), List.append_nil,
    World.update_holders_of_none hfree, Database.lookup_updateClaimed_self hlook hclaim]
  rfl

/-- Every event sees a worker's step as a step of its own, or not at all.  The cases are those of
`WorkerMove`, and in each of them there is at most one event the step is about. -/
theorem WorkerMove.sees (hpc : s.workers w = some pc)
    (h : WorkerMove bus w s.db pc action db' pc' obs) (henc : ∀ k, (s.view k).Encoded bus k)
    (id : Uuid) :
    (s.view id).Sees bus id (s.Loses bus id (.work w action))
      (World.view ⟨db', Function.update s.workers w (some pc'), s.history ++ obs⟩ id) := by
  cases h with
  | poll now =>
    exact sees_same (.poll now) hpc not_false (by simp [Pc.held]) (by simp [Pc.held]) rfl
      rfl (by simp)
  | claimNothing now tie hnone =>
    refine sees_same (.claim tie) hpc ?_ (by simp [Pc.held]) (by simp [Pc.held]) rfl rfl (by simp)
    rintro ⟨now', row, error, hpc', hrow, -⟩
    obtain rfl := Pc.claiming.inj (Option.some_inj.1 (hpc.symm.trans hpc'))
    rw [hnone] at hrow
    cases hrow
  | claim now tie row envelope hrow hdecode =>
    -- the row that was claimed is the row of the event in the envelope, by `Encoded`
    obtain ⟨hlook, hclaim, -⟩ := Database.nextDue_eq_some hrow
    have henv : envelope.id = row.eventId := (henc row.eventId).id_eq hlook hdecode
    have hkept : ¬s.Loses bus id (.work w (.claim tie)) := by
      rintro ⟨now', row', error, hpc', hrow', -, herror⟩
      obtain rfl := Pc.claiming.inj (Option.some_inj.1 (hpc.symm.trans hpc'))
      obtain rfl := Option.some_inj.1 (hrow.symm.trans hrow')
      rw [hdecode] at herror
      cases herror
    by_cases hid : row.eventId = id
    · subst hid
      have hobs : ∀ b ∈ [Observation.claimed w envelope.id], b.eventId = row.eventId := by
        simpa [Observation.eventId] using henv
      rw [World.view_of_eq hobs, holding_of_held (by simp [Pc.held, henv]),
        Database.lookup_updateClaimed_self hlook hclaim, henv]
      exact .step (.claim w row envelope now henv hlook hclaim) hkept
    · refine sees_same (.claim tie) hpc hkept (by simp [Pc.held])
        (by simpa [Pc.held, henv] using hid)
        (Database.lookup_updateClaimed_of_ne now (Ne.symm hid)) rfl ?_
      simpa [Observation.eventId, henv] using hid
  | claimLost now tie row error hrow hdecode =>
    -- the claimed event is lost, and the others are not: the action alone does not tell which
    obtain ⟨hlook, hclaim, -⟩ := Database.nextDue_eq_some hrow
    by_cases hid : row.eventId = id
    · subst hid
      rw [view_claimLost hpc hrow]
      exact .loss (.claimLost row now hlook hclaim) ⟨now, row, error, hpc, hrow, rfl, hdecode⟩
    · refine sees_same (.claim tie) hpc ?_ (by simp [Pc.held]) (by simp [Pc.held])
        (Database.lookup_updateClaimed_of_ne now (Ne.symm hid)) rfl (by simp)
      rintro ⟨now', row', error', hpc', hrow', hid', -⟩
      obtain rfl := Pc.claiming.inj (Option.some_inj.1 (hpc.symm.trans hpc'))
      obtain rfl := Option.some_inj.1 (hrow.symm.trans hrow')
      exact hid hid'
  | handledBefore envelope now hdone =>
    refine sees_move (.alreadyHandled now) hpc (fun _ ↦ not_false) rfl rfl (by simp)
      (fun hw ↦ ?_) id
    rw [List.append_nil]
    exact .handledBefore w envelope now hw hdone
  | notHandled envelope now hdone =>
    refine sees_move (.alreadyHandled now) hpc (fun _ ↦ not_false) rfl rfl (by simp)
      (fun hw ↦ ?_) id
    rw [List.append_nil]
    exact .notHandled w envelope hw
  | invoke envelope tie =>
    exact sees_move (.lastSeen tie) hpc (fun _ ↦ not_false) rfl rfl (by simp [Observation.eventId])
      (fun hw ↦ .invoke w envelope _ hw) id
  | succeed envelope seen now =>
    exact sees_move (.returned (.ok ()) now) hpc (fun _ ↦ not_false) rfl rfl
      (by simp [Observation.eventId]) (fun hw ↦ .succeed w envelope seen now hw) id
  | fail envelope seen error now =>
    exact sees_move (.returned (.error error) now) hpc (fun _ ↦ not_false) rfl rfl
      (by simp [Observation.eventId]) (fun hw ↦ .fail w envelope seen error now hw) id
  | markHandled eventId now =>
    refine sees_release .markHandled hpc (fun _ _ ↦ not_false) rfl
      (fun id hid ↦ Database.lookup_markHandled_of_ne now hid)
      (fun id hid ↦ Database.alreadyHandled_markHandled_of_ne now hid) (by simp) (fun hw ↦ ?_) id
    rw [Database.alreadyHandled_markHandled_self, List.append_nil, Database.lookup_markHandled_self]
    exact .step (.markHandled w now hw) not_false
  | readAttempts eventId error now attempts hrow =>
    refine sees_move .readAttempts hpc (fun _ ↦ not_false) rfl rfl (by simp) (fun hw ↦ ?_) id
    obtain ⟨row, hlook, rfl⟩ := Option.map_eq_some_iff.1 hrow
    rw [List.append_nil]
    exact .readAttempts w error now row hw hlook
  | rowGone eventId error now hrow =>
    -- `mark_failed` finds no row; this cannot be, but that is for the phases to say
    refine sees_release .readAttempts hpc (fun _ _ ↦ not_false) rfl (fun _ _ ↦ rfl) (fun _ _ ↦ rfl)
      (by simp) (fun hw ↦ ?_) id
    rw [List.append_nil]
    exact .step (.rowGone w _ hw (Option.map_eq_none_iff.1 hrow)) not_false
  | updateFailed eventId error now attempts =>
    refine sees_release .updateFailed hpc (fun _ _ ↦ not_false) rfl
      (fun id hid ↦ Database.lookup_updateFailed_of_ne _ _ error now hid) (fun _ _ ↦ rfl)
      (by simp [Observation.eventId]) (fun hw ↦ ?_) id
    rw [Database.lookup_updateFailed_self]
    exact .step (.updateFailed w error now attempts hw) not_false
  | sqliteError pc _ =>
    -- between a claim and a mark the event is lost, and before a claim there is none to lose
    have hlost : ∀ id, s.Loses bus id (.work w .sqliteError) → pc.held = some id := by
      rintro id ⟨pc', hpc', hheld⟩
      obtain rfl := Option.some_inj.1 (hpc.symm.trans hpc')
      exact hheld
    cases hheld : pc.held with
    | none =>
      refine sees_same .sqliteError hpc (fun hl ↦ ?_) (by simp [hheld]) (by simp [Pc.held]) rfl rfl
        (by simp)
      rw [hlost id hl] at hheld
      cases hheld
    | some k =>
      refine sees_release .sqliteError hpc (fun id hid hl ↦ ?_) hheld (fun _ _ ↦ rfl)
        (fun _ _ ↦ rfl)
        (by simp) (fun hw ↦ ?_) id
      · exact hid (Option.some_inj.1 ((hlost id hl).symm.trans hheld))
      · rw [List.append_nil]
        exact .loss (.release w pc hw) ⟨pc, hpc, hheld⟩

/-- **Every event sees a step of the system as a step of its own, or not at all.** -/
theorem WorldMove.sees {action : Action} {t : World} (h : WorldMove bus s action t)
    (henc : ∀ k, (s.view k).Encoded bus k) (id : Uuid) :
    (s.view id).Sees bus id (s.Loses bus id action) (t.view id) := by
  cases h with
  | accepted envelope now text hvalid htext =>
    -- a row that is there stays as it is, whatever the text of the new envelope
    by_cases hid : envelope.id = id
    · subst hid
      have hview : World.view { s with
          db := s.db.insertEvent envelope.id text now
          history := s.history ++ [Observation.published envelope
            (.ok ⟨envelope.id, (s.db.outbox.lookup envelope.id).isSome⟩)] } envelope.id =
          { s.view envelope.id with
            row := some ((s.view envelope.id).row.getD (.new envelope.id text now))
            log := (s.view envelope.id).log ++ [Observation.published envelope
              (.ok ⟨envelope.id, (s.view envelope.id).row.isSome⟩)] } := by
        simp only [World.view, Database.lookup_insertEvent_self, List.filter_append]
        simp [Observation.eventId, Database.insertEvent, Database.alreadyHandled]
      rw [hview]
      exact .step (.publish envelope now text rfl hvalid htext) not_false
    · have hview : World.view { s with
          db := s.db.insertEvent envelope.id text now
          history := s.history ++ [Observation.published envelope
            (.ok ⟨envelope.id, (s.db.outbox.lookup envelope.id).isSome⟩)] } id = s.view id := by
        simp only [World.view, Database.lookup_insertEvent_of_ne text now (Ne.symm hid),
          List.filter_append]
        simp [Observation.eventId, hid, Database.insertEvent, Database.alreadyHandled]
      rw [hview]
      exact .same not_false
  | rejected envelope now error _ =>
    by_cases hid : envelope.id = id
    · have hview : World.view { s with
          history := s.history ++ [Observation.published envelope (.error error)] } id =
          { s.view id with
            log := (s.view id).log ++ [Observation.published envelope (.error error)] } := by
        simp [World.view, Observation.eventId, hid]
      rw [hview]
      exact .step (.reject envelope error hid) not_false
    · have hview : World.view { s with
          history := s.history ++ [Observation.published envelope (.error error)] } id =
          s.view id := by
        simp [World.view, Observation.eventId, hid]
      rw [hview]
      exact .same not_false
  | subscribe w hfree =>
    rw [World.view_workers, holding_of_not_held (by simp [Pc.held]),
      World.update_holders_of_none (by rw [hfree]; rfl)]
    exact .same not_false
  | work w pc pc' action db' obs hpc hmove => exact hmove.sees hpc henc id
  | abort w pc hpc =>
    rw [World.view_workers]
    by_cases hheld : pc.held = some id
    · exact .loss (.release w pc (World.holders_view hpc hheld)) ⟨pc, hpc, hheld⟩
    · rw [show holding id none = none from rfl,
        World.update_holders_of_none (by rw [hpc, holding_of_not_held hheld])]
      refine .same ?_
      rintro ⟨pc', hpc', hheld'⟩
      obtain rfl := Option.some_inj.1 (hpc.symm.trans hpc')
      exact hheld hheld'
  | restart =>
    -- every event that some worker holds is lost
    by_cases hheld : ∃ w pc, s.workers w = some pc ∧ pc.held = some id
    · obtain ⟨w, pc, hpc, hpcid⟩ := hheld
      exact .loss (.releaseAll w pc (World.holders_view hpc hpcid)) ⟨w, pc, hpc, hpcid⟩
    · have hfree : (s.view id).Free := by
        funext w
        by_contra hw
        obtain ⟨pc, hpc⟩ := Option.ne_none_iff_exists'.1 hw
        exact hheld ⟨w, pc, holding_eq_some_iff.1 hpc⟩
      have hview : World.view { s with workers := fun _ ↦ none } id = s.view id := by
        show EventView.mk _ _ (fun _ ↦ none) _ = EventView.mk _ _ (s.view id).holders _
        rw [hfree]
      rw [hview]
      exact .same hheld

end Simulation

end PhenoEvents
