import PhenoEvents.Bus.Answers
import PhenoEvents.Bus.Conservation
import PhenoEvents.Bus.Interchange

/-!
# No event notices another

All events share two tables and the workers.  Which event a worker claims depends on all the others,
and an event that fails again and again keeps workers busy.  Still whatever happens to an event
could have happened without the others: take away from a run everything that is about other events,
and what is left is a run of the same bus (`events_alone`).  The only trace the others leave is the
`last_seen` that is handed to a handler.

A worker that looks for work may find some where the other events are, and has to be idle meanwhile.
So `Pc.only` forgets `claim_next` until it has found one of the events that are left.

## What is here

* `Database.only`, `Pc.only` and `Observation.forget`: what is left of the tables, of a worker and
  of what was observed, when only the events with a property `p` are.
* `World.Leaves`: one world is what is left of another.
* `Leaves.step`, the simulation: a step of the whole world is answered by a run of the other one.
  The run is empty if the step is about another event; it has two steps where a worker finds an
  event, as the worker has to begin to look for it first; and otherwise it has one.
* `events_alone`, from the simulation and `exists_run_of_simulation`.

The result is about what may happen, not about when.  Alone an event might be delivered earlier, and
the workers might do more; but whatever has happened to it would have been possible.
-/

set_option autoImplicit false

namespace PhenoEvents

open Transition

/-! ## What is left

`p` is any property of ids.  For a single event it is `fun id ↦ id = k`, and for all but one event
its negation. -/

/-- A worker, as far as it is busy with one of the events.  With another event in its hands, or
while it looks for one, it is taken for idle. -/
def Pc.only (p : Uuid → Bool) (pc : Pc) : Pc := if pc.held.any p then pc else .idle

/-- A worker, apart from what its handler was told of the last event.  That id may belong to an
event that is not left. -/
def Pc.forget : Pc → Pc
  | .handling envelope _ => .handling envelope none
  | pc => pc

/-- An observation, apart from what a handler was told of the last event. -/
def Observation.forget : Observation → Observation
  | .invoked worker envelope _ => .invoked worker envelope none
  | o => o

/-- The rows of some events, in the order in which they were inserted. -/
def Database.only (p : Uuid → Bool) (db : Database) : Database where
  outbox := db.outbox.filterRows fun r ↦ p r.eventId
  handledEvents := db.handledEvents.filterRows fun r ↦ p r.eventId

/-- `t` is what is left of `s`: the rows of the events that are left, the workers as far as they
hold one of these, and what was observed of them. -/
structure World.Leaves (p : Uuid → Bool) (s t : World) : Prop where
  db : t.db = s.db.only p
  workers : ∀ w, (t.workers w).map Pc.forget = (s.workers w).map fun pc ↦ (pc.only p).forget
  history : t.history.map Observation.forget =
    (s.history.filter fun o ↦ p o.eventId).map Observation.forget

/-! ## The tables

Every statement commutes with taking the rows of some events, or does not show there.  The one query
that compares rows of different events is `nextDue`; a row that comes first among all the rows comes
first among fewer. -/

namespace Database

variable {p : Uuid → Bool} {db : Database} {id : Uuid}

theorem lookup_only (hp : p id = true) : (db.only p).outbox.lookup id = db.outbox.lookup id :=
  KeyedTable.lookup_filterRows fun _ hr ↦ hr ▸ hp

theorem attempts_only (hp : p id = true) : (db.only p).attempts id = db.attempts id := by
  rw [attempts, attempts, lookup_only hp]

theorem alreadyHandled_only (hp : p id = true) :
    (db.only p).alreadyHandled id = db.alreadyHandled id := by
  rw [alreadyHandled_eq_isSome, alreadyHandled_eq_isSome]
  exact congrArg Option.isSome (KeyedTable.lookup_filterRows fun _ hr ↦ hr ▸ hp)

theorem only_insertEvent (hp : p id = true) (text : String) (now : Instant) :
    (db.insertEvent id text now).only p = (db.only p).insertEvent id text now := by
  rw [only, insertEvent, KeyedTable.filterRows_insertOrIgnore]
  · rfl
  · exact fun s hs ↦ (congrArg p hs).trans hp

theorem only_insertEvent_of_false (hp : p id = false) (text : String) (now : Instant) :
    (db.insertEvent id text now).only p = db.only p := by
  rw [only, insertEvent, KeyedTable.filterRows_insertOrIgnore_of_false]
  · rfl
  · exact hp

theorem only_updateClaimed (id : Uuid) (now : Instant) :
    (db.updateClaimed id now).only p = (db.only p).updateClaimed id now := by
  rw [only, updateClaimed, KeyedTable.filterRows_updateWhere]
  · rfl
  · exact fun _ _ ↦ rfl

theorem only_markHandled (hp : p id = true) (now : Instant) :
    (db.markHandled id now).only p = (db.only p).markHandled id now := by
  rw [only, markHandled, updateAcked, KeyedTable.filterRows_updateWhere,
    KeyedTable.filterRows_insertOrIgnore]
  · rfl
  · exact fun s hs ↦ (congrArg p hs).trans hp
  · exact fun _ _ ↦ rfl

theorem only_updateFailed (status : Status) (attempts : Int64) (error : String) (now : Instant) :
    (db.updateFailed id status attempts error now).only p =
      (db.only p).updateFailed id status attempts error now := by
  rw [only, updateFailed, KeyedTable.filterRows_updateWhere]
  · rfl
  · exact fun _ _ ↦ rfl

/-- An update of another event does not show. -/
theorem only_updateWhere_of_false {q : OutboxRow → Bool} {f : OutboxRow → OutboxRow}
    (hf : ∀ r, q r = true → (f r).eventId = r.eventId) (hq : ∀ r, q r = true → p r.eventId = false)
    {handledEvents : KeyedTable HandledRow.eventId} :
    only p ⟨db.outbox.updateWhere q f hf, handledEvents⟩ = only p ⟨db.outbox, handledEvents⟩ := by
  rw [only, KeyedTable.filterRows_updateWhere_of_false]
  · rfl
  · exact fun r hr ↦ congrArg p (hf r hr)
  · exact hq

theorem only_updateClaimed_of_false (hp : p id = false) (now : Instant) :
    (db.updateClaimed id now).only p = db.only p :=
  only_updateWhere_of_false (fun r _ ↦ r.eventId_claimed now)
    fun _ hr ↦ (of_decide_eq_true hr).1 ▸ hp

theorem only_markHandled_of_false (hp : p id = false) (now : Instant) :
    (db.markHandled id now).only p = db.only p := by
  refine (only_updateWhere_of_false (fun r _ ↦ r.eventId_acked now)
    fun _ hr ↦ of_decide_eq_true hr ▸ hp).trans ?_
  rw [only, KeyedTable.filterRows_insertOrIgnore_of_false]
  · rfl
  · exact hp

theorem only_updateFailed_of_false (hp : p id = false) (status : Status) (attempts : Int64)
    (error : String) (now : Instant) :
    (db.updateFailed id status attempts error now).only p = db.only p :=
  only_updateWhere_of_false (fun r _ ↦ r.eventId_failed status attempts error now)
    fun _ hr ↦ of_decide_eq_true hr ▸ hp

/-- A row that comes first among all comes first among those that are left.  The tie may have to be
broken by another number, since there are fewer rows to choose from.  The order is by `created_at`,
and it is the one place where rows of different events are compared. -/
theorem exists_nextDue_only {now : Instant} {tie : ℕ} {r : OutboxRow}
    (h : db.nextDue now tie = some r)
    (hp : p r.eventId = true) : ∃ tie, (db.only p).nextDue now tie = some r := by
  obtain ⟨hmem, hdue, hle⟩ := KeyedTable.firstBy_eq_some h
  refine KeyedTable.exists_firstBy_eq_some (List.mem_filter.2 ⟨hmem, hp⟩) hdue fun s hs hdue' ↦ ?_
  exact hle s (List.mem_filter.1 hs).1 hdue'

end Database

/-! ## The workers

A worker is left as far as it holds an event that is left.  When it holds another one it is idle in
the other world, and what it does then does not show. -/

namespace Pc

variable {p : Uuid → Bool} {pc pc' : Pc} {id : Uuid}

theorem only_of_held (h : pc.held = some id) : pc.only p = if p id = true then pc else .idle := by
  rw [only, h, Option.any_some]

theorem only_of_not_held (h : pc.held = none) : pc.only p = .idle := by
  rw [only, h, Option.any_none]
  rfl

/-- Nothing is forgotten but the last event. -/
theorem eq_of_forget (h : pc'.forget = pc.forget) :
    pc' = pc ∨ ∃ e seen seen', pc = .handling e seen ∧ pc' = .handling e seen' := by
  cases pc' <;> cases pc <;> simp_all [forget]

theorem eq_idle_of_forget (h : pc.forget = .idle) : pc = .idle := by
  cases pc <;> simp_all [forget]

end Pc

section Worker

variable {p : Uuid → Bool} {bus : SqliteBus} {w : ℕ} {db db' : Database} {pc pc' pc₁ : Pc}
  {action : WorkerAction} {obs : List Observation} {id : Uuid}

/-- **What a worker does about an event that is left, it does there too.**  It reads the row of its
own event, and that is there; the id of the last event is all that may differ. -/
theorem WorkerMove.left (h : WorkerMove bus w db pc action db' pc₁ obs) (hheld : pc.held = some id)
    (hp : p id = true) (hpc' : pc'.forget = pc.forget) :
    ∃ pc₁' obs', bus.workerStep w (db.only p) pc' action = some (db'.only p, pc₁', obs') ∧
      pc₁'.forget = pc₁.forget ∧ obs'.map Observation.forget = obs.map Observation.forget := by
  rcases Pc.eq_of_forget hpc' with rfl | ⟨e, seen, seen', rfl, rfl⟩
  · cases h with
    | poll | claimNothing | claim | claimLost => cases hheld
    | handledBefore e now hdone =>
      obtain rfl := Option.some_inj.1 hheld
      refine ⟨_, _, ?_, rfl, rfl⟩
      rw [SqliteBus.workerStep, Database.alreadyHandled_only hp, if_pos hdone]
    | notHandled e now hdone =>
      obtain rfl := Option.some_inj.1 hheld
      refine ⟨_, _, ?_, rfl, rfl⟩
      rw [SqliteBus.workerStep, Database.alreadyHandled_only hp, if_neg (by rw [hdone]; decide)]
    | invoke e tie => exact ⟨_, _, rfl, rfl, rfl⟩
    | succeed e seen now => exact ⟨_, _, rfl, rfl, rfl⟩
    | fail e seen error now => exact ⟨_, _, rfl, rfl, rfl⟩
    | markHandled eventId now =>
      obtain rfl := Option.some_inj.1 hheld
      refine ⟨_, _, ?_, rfl, rfl⟩
      rw [SqliteBus.workerStep, Database.only_markHandled hp]
    | readAttempts eventId error now attempts hrow =>
      obtain rfl := Option.some_inj.1 hheld
      refine ⟨_, _, ?_, rfl, rfl⟩
      rw [SqliteBus.workerStep, Database.attempts_only hp, hrow]
    | rowGone eventId error now hrow =>
      obtain rfl := Option.some_inj.1 hheld
      refine ⟨_, _, ?_, rfl, rfl⟩
      rw [SqliteBus.workerStep, Database.attempts_only hp, hrow]
    | updateFailed eventId error now attempts =>
      refine ⟨_, _, ?_, rfl, rfl⟩
      rw [SqliteBus.workerStep, SqliteBus.recordFailure, SqliteBus.recordFailure,
        Database.only_updateFailed]
    | sqliteError pc hawaits =>
      refine ⟨.idle, [], ?_, rfl, rfl⟩
      cases pc' <;> simp_all [SqliteBus.workerStep, Pc.awaitsSqlite]
  · cases h with
    | succeed | fail => exact ⟨_, _, rfl, rfl, rfl⟩
    | sqliteError pc hawaits => cases hawaits

/-- A worker that holds an event does nothing about others.  It may let go of its own, and then it
is idle; it never goes on with another without claiming it. -/
theorem WorkerMove.about (h : WorkerMove bus w db pc action db' pc₁ obs)
    (hheld : pc.held = some id) :
    (pc₁.held = some id ∨ pc₁ = .idle) ∧ ∀ o ∈ obs, o.eventId = id := by
  cases h with
  | poll | claimNothing | claim | claimLost => cases hheld
  | handledBefore | notHandled | readAttempts => exact ⟨Or.inl hheld, by simp⟩
  | invoke | succeed | fail =>
    refine ⟨Or.inl hheld, fun o ho ↦ ?_⟩
    rw [List.mem_singleton.1 ho]
    exact Option.some_inj.1 hheld
  | updateFailed eventId error now attempts =>
    refine ⟨Or.inr rfl, fun o ho ↦ ?_⟩
    rw [List.mem_singleton.1 ho]
    exact Option.some_inj.1 hheld
  | markHandled | rowGone | sqliteError => exact ⟨Or.inr rfl, by simp⟩

/-- What a worker does about another event does not show. -/
theorem WorkerMove.hidden (h : WorkerMove bus w db pc action db' pc₁ obs)
    (hheld : pc.held = some id) (hp : p id = false) : db'.only p = db.only p := by
  cases h with
  | poll | claimNothing | claim | claimLost => cases hheld
  | markHandled eventId now =>
    obtain rfl := Option.some_inj.1 hheld
    exact Database.only_markHandled_of_false hp now
  | updateFailed eventId error now attempts =>
    obtain rfl := Option.some_inj.1 hheld
    exact Database.only_updateFailed_of_false hp _ _ error now
  | _ => rfl

/-- `claim_next`, where a row is due. -/
theorem SqliteBus.workerStep_claim {now : Instant} {tie : ℕ} {r : OutboxRow}
    (hrow : db.nextDue now tie = some r) :
    bus.workerStep w db (.claiming now) (.claim tie) =
      match bus.serde.fromStr r.envelope with
      | .ok e => some (db.updateClaimed r.eventId now, .checking e, [.claimed w e.id])
      | .error _ => some (db.updateClaimed r.eventId now, .idle, []) := by
  rcases bus.claimNext_cases db now tie with ⟨hnone, -⟩ | ⟨r', hrow', hclaim⟩
  · rw [hrow] at hnone
    cases hnone
  · obtain rfl := Option.some_inj.1 (hrow.symm.trans hrow')
    rw [workerStep, hclaim]
    cases bus.serde.fromStr r.envelope <;> rfl

end Worker

/-! ## The system

A world and what is left of it take their steps together.  A step about another event is no step of
the world that is left, and a claim of an event that is left is two, since the worker has been idle
there until then. -/

/-- The error of a call of `publish` has nothing to do with the tables. -/
theorem SqliteBus.publish_eq_error_of_eq_error {bus : SqliteBus} {e : EventEnvelope} {now : Instant}
    {db db' : Database} {error : PublishError} (h : bus.publish e now db = .error error) :
    bus.publish e now db' = .error error := by
  rw [publish] at h ⊢
  cases hvalid : e.validate with
  | error invalid =>
    rw [hvalid] at h
    exact h
  | ok =>
    cases htext : bus.serde.toString e with
    | error message =>
      rw [hvalid, htext] at h
      exact h
    | ok text =>
      rw [hvalid, htext] at h
      cases h

/-- Nothing is published but the events that are left. -/
def Action.PublishesOnly (p : Uuid → Bool) (action : Action) : Prop :=
  ∀ e ∈ action.envelope, p e.id = true

namespace World

variable {p : Uuid → Bool} {bus : SqliteBus} {s s' t : World} {w : ℕ} {pc pc₁ : Pc}
  {action : Action}

namespace Leaves

/-- A worker does something that does not show. -/
theorem hide (h : s.Leaves p s') {db : Database} {obs : List Observation}
    (hdb : db.only p = s.db.only p) (hpc : s.workers w = some pc) (hpc₁ : pc₁.only p = pc.only p)
    (hobs : ∀ o ∈ obs, p o.eventId = false) :
    Leaves p ⟨db, Function.update s.workers w (some pc₁), s.history ++ obs⟩ s' := by
  refine ⟨h.db.trans hdb.symm, fun u ↦ ?_, ?_⟩
  · dsimp only
    by_cases hu : u = w
    · rw [hu, h.workers w, hpc, Function.update_self, Option.map_some, Option.map_some, hpc₁]
    · rw [h.workers u, Function.update_of_ne hu]
  · have hnil : obs.filter (fun o ↦ p o.eventId) = [] :=
      List.filter_eq_nil_iff.2 fun o ho ↦ by simp [hobs o ho]
    rw [List.filter_append, hnil, List.append_nil, h.history]

/-- A worker does something that shows. -/
theorem move (h : s.Leaves p s') {db db' : Database} {obs obs' : List Observation} {pc₁' : Pc}
    (hdb : db' = db.only p) (hpc₁ : pc₁'.forget = (pc₁.only p).forget)
    (hobs : ∀ o ∈ obs, p o.eventId = true)
    (hobs' : obs'.map Observation.forget = obs.map Observation.forget) :
    Leaves p ⟨db, Function.update s.workers w (some pc₁), s.history ++ obs⟩
      ⟨db', Function.update s'.workers w (some pc₁'), s'.history ++ obs'⟩ := by
  refine ⟨hdb, fun u ↦ ?_, ?_⟩
  · dsimp only
    by_cases hu : u = w
    · rw [hu, Function.update_self, Function.update_self, Option.map_some, Option.map_some, hpc₁]
    · rw [Function.update_of_ne hu, Function.update_of_ne hu, h.workers u]
  · have hall : obs.filter (fun o ↦ p o.eventId) = obs := List.filter_eq_self.2 hobs
    rw [List.filter_append, hall, List.map_append, List.map_append, h.history, hobs']

/-- The worker that is left. -/
theorem exists_worker (h : s.Leaves p s') (hpc : s.workers w = some pc) :
    ∃ pc', s'.workers w = some pc' ∧ pc'.forget = (pc.only p).forget := by
  have hw := h.workers w
  rw [hpc, Option.map_some] at hw
  exact Option.map_eq_some_iff.1 hw

/-- A worker finds something at its first look. -/
theorem run_poll_claim {db : Database} {now : Instant} {tie : ℕ} {obs : List Observation}
    (hpc : s.workers w = some .idle)
    (hstep : bus.workerStep w s.db (.claiming now) (.claim tie) = some (db, pc₁, obs)) :
    run (step bus) s [.work w (.poll now), .work w (.claim tie)] =
      some ⟨db, Function.update s.workers w (some pc₁), s.history ++ obs⟩ := by
  refine run_cons_eq_some.2
    ⟨⟨s.db, Function.update s.workers w (some (.claiming now)), s.history⟩, ?_,
    run_cons_eq_some.2 ⟨_, ?_, rfl⟩⟩
  · simp [step, hpc, SqliteBus.workerStep]
  · simp [step, hstep]

/-- **What a worker does is left, or does not show.**  The cases are whether it holds an event and
which one; without an event it may claim one that is left, claim another, or find nothing. -/
theorem work (h : s.Leaves p s') (hsound : s.Sound bus) {db : Database} {obs : List Observation}
    {action : WorkerAction} (hpc : s.workers w = some pc)
    (hmove : WorkerMove bus w s.db pc action db pc₁ obs) :
    ∃ (actions : List WorkerAction) (t' : World),
      run (step bus) s' (actions.map (.work w)) = some t' ∧
        Leaves p ⟨db, Function.update s.workers w (some pc₁), s.history ++ obs⟩ t' := by
  obtain ⟨pc', hpc', hforget⟩ := h.exists_worker hpc
  -- a worker that holds an event does the same there, or nothing; one that holds none may find one
  cases hheld : pc.held with
  | some id =>
    rw [Pc.only_of_held hheld] at hforget
    obtain ⟨hheld₁, hobs⟩ := hmove.about hheld
    cases hp : p id with
    | true =>
      rw [if_pos hp] at hforget
      obtain ⟨pc₁', obs', hstep, hpc₁', hobs'⟩ := hmove.left hheld hp hforget
      rw [← h.db] at hstep
      have hleft : pc₁'.forget = (pc₁.only p).forget := by
        rw [hpc₁']
        rcases hheld₁ with hheld₁ | rfl
        · rw [Pc.only_of_held hheld₁, if_pos hp]
        · rfl
      refine ⟨[action], _, run_cons_eq_some.2 ⟨_, ?_, rfl⟩,
        h.move rfl hleft (fun o ho ↦ hobs o ho ▸ hp) hobs'⟩
      rw [step, hpc', Option.bind_some, hstep, Option.map_some]
    | false =>
      refine ⟨[], s', rfl, h.hide (hmove.hidden hheld hp) hpc ?_ fun o ho ↦ hobs o ho ▸ hp⟩
      rw [Pc.only_of_held hheld, if_neg (by simp [hp])]
      rcases hheld₁ with hheld₁ | rfl
      · rw [Pc.only_of_held hheld₁, if_neg (by simp [hp])]
      · rfl
  | none =>
    rw [Pc.only_of_not_held hheld] at hforget
    obtain rfl := Pc.eq_idle_of_forget hforget
    cases hmove with
    | poll now => exact ⟨[], s', rfl, h.hide rfl hpc rfl (by simp)⟩
    | claimNothing now tie hnone => exact ⟨[], s', rfl, h.hide rfl hpc rfl (by simp)⟩
    | sqliteError pc hawaits =>
      exact ⟨[], s', rfl, h.hide rfl hpc (Pc.only_of_not_held hheld).symm (by simp)⟩
    | claim now tie r e hrow hdecode =>
      have hid : e.id = r.eventId :=
        (hsound r.eventId).encoded.id_eq (Database.nextDue_eq_some hrow).1 hdecode
      cases hp : p r.eventId with
      | true =>
        -- the worker that is left is still idle, so it has to poll before it can claim
        obtain ⟨tie', hrow'⟩ := Database.exists_nextDue_only hrow hp
        rw [← h.db] at hrow'
        have hstep : bus.workerStep w s'.db (.claiming now) (.claim tie') =
            some (s'.db.updateClaimed r.eventId now, .checking e, [.claimed w e.id]) := by
          rw [SqliteBus.workerStep_claim hrow', hdecode]
        have hleft : Pc.only p (.checking e) = .checking e :=
          if_pos (show p e.id = true from hid ▸ hp)
        refine ⟨[.poll now, .claim tie'], _, run_poll_claim hpc' hstep,
          h.move (by rw [h.db, Database.only_updateClaimed]) (by rw [hleft]) (fun o ho ↦ ?_) rfl⟩
        rw [List.mem_singleton.1 ho]
        exact hid ▸ hp
      | false =>
        refine ⟨[], s', rfl, h.hide (Database.only_updateClaimed_of_false hp now) hpc ?_
          fun o ho ↦ ?_⟩
        · exact if_neg (by simp [Pc.held, hid, hp])
        · rw [List.mem_singleton.1 ho]
          exact hid ▸ hp
    | claimLost now tie r error hrow hdecode =>
      cases hp : p r.eventId with
      | true =>
        obtain ⟨tie', hrow'⟩ := Database.exists_nextDue_only hrow hp
        rw [← h.db] at hrow'
        have hstep : bus.workerStep w s'.db (.claiming now) (.claim tie') =
            some (s'.db.updateClaimed r.eventId now, .idle, []) := by
          rw [SqliteBus.workerStep_claim hrow', hdecode]
        exact ⟨[.poll now, .claim tie'], _, run_poll_claim hpc' hstep,
          h.move (by rw [h.db, Database.only_updateClaimed]) rfl (by simp) rfl⟩
      | false =>
        exact ⟨[], s', rfl, h.hide (Database.only_updateClaimed_of_false hp now) hpc rfl (by simp)⟩
    | _ => cases hheld

/-- Workers come and go. -/
theorem of_workers (h : s.Leaves p s') (o o' : Option Pc)
    (ho : o'.map Pc.forget = o.map fun pc ↦ (pc.only p).forget) :
    Leaves p { s with workers := Function.update s.workers w o }
      { s' with workers := Function.update s'.workers w o' } := by
  refine ⟨h.db, fun u ↦ ?_, h.history⟩
  dsimp only
  by_cases hu : u = w
  · rw [hu, Function.update_self, Function.update_self, ho]
  · rw [Function.update_of_ne hu, Function.update_of_ne hu, h.workers u]

/-- A call of `publish` for an event that is left. -/
theorem publish (h : s.Leaves p s') {e : EventEnvelope} (now : Instant) (hp : p e.id = true)
    (hmove : WorldMove bus s (.publish e now) t) :
    ∃ t', step bus s' (.publish e now) = some t' ∧ t.Leaves p t' := by
  refine ⟨_, rfl, ?_⟩
  have hobserved : ∀ result, [Observation.published e result].filter (fun o ↦ p o.eventId) =
      [.published e result] := fun result ↦ List.filter_cons_of_pos hp
  cases hmove with
  | accepted _ _ text hvalid htext =>
    have hok : bus.publish e now s'.db = .ok (s'.db.insertEvent e.id text now,
        ⟨e.id, (s.db.outbox.lookup e.id).isSome⟩) := by
      refine SqliteBus.publish_eq_ok_iff.2 ⟨hvalid, text, htext, rfl, ?_⟩
      rw [h.db, Database.lookup_only hp]
    rw [World.publish, hok]
    refine ⟨?_, h.workers, ?_⟩
    · rw [h.db, ← Database.only_insertEvent hp]
    · rw [List.map_append, List.filter_append, hobserved, List.map_append, h.history]
  | rejected _ _ error herror =>
    rw [World.publish, SqliteBus.publish_eq_error_of_eq_error herror]
    refine ⟨h.db, h.workers, ?_⟩
    rw [List.map_append, List.filter_append, hobserved, List.map_append, h.history]

/-- A call of `publish` for another event does not show.  It may also fail, and then it shows
nowhere. -/
theorem publish_other (h : s.Leaves p s') {e : EventEnvelope} {now : Instant} (hp : p e.id = false)
    (hmove : WorldMove bus s (.publish e now) t) : t.Leaves p s' := by
  have hobserved : ∀ result, [Observation.published e result].filter (fun o ↦ p o.eventId) = [] :=
    fun result ↦ List.filter_cons_of_neg (by simp [Observation.eventId, hp])
  cases hmove with
  | accepted _ _ text hvalid htext =>
    refine ⟨?_, h.workers, ?_⟩
    · rw [h.db, Database.only_insertEvent_of_false hp]
    · rw [List.filter_append, hobserved, List.append_nil, h.history]
  | rejected _ _ error herror =>
    refine ⟨h.db, h.workers, ?_⟩
    rw [List.filter_append, hobserved, List.append_nil, h.history]

/-- **Every step is left as a run**, which may be empty.  Its actions publish nothing but the events
that are left. -/
theorem step (h : s.Leaves p s') (hsound : s.Sound bus) (hstep : World.step bus s action = some t) :
    ∃ bs t', (∀ b ∈ bs, Action.PublishesOnly p b) ∧ run (World.step bus) s' bs = some t' ∧
      t.Leaves p t' := by
  have hquiet : ∀ a : Action, a.envelope = none → ∀ b ∈ [a], Action.PublishesOnly p b := by
    intro a ha b hb e he
    rw [List.mem_singleton.1 hb, ha] at he
    cases he
  have hmove := WorldMove.of_step hstep
  cases action with
  | publish e now =>
    cases hp : p e.id with
    | true =>
      obtain ⟨t', ht', hleft⟩ := h.publish now hp hmove
      refine ⟨[.publish e now], t', fun b hb e' he' ↦ ?_, run_cons_eq_some.2 ⟨t', ht', rfl⟩, hleft⟩
      rw [List.mem_singleton.1 hb] at he'
      exact Option.some_inj.1 he' ▸ hp
    | false => exact ⟨[], s', (fun b hb ↦ by cases hb), rfl, h.publish_other hp hmove⟩
  | subscribe w =>
    cases hmove with
    | subscribe _ hfree =>
      have hnone : s'.workers w = none := by
        rw [← Option.map_eq_none_iff, h.workers w, hfree]
        rfl
      refine ⟨[.subscribe w], _, hquiet _ rfl, run_cons_eq_some.2 ⟨_, ?_, rfl⟩,
        h.of_workers (some .idle) (some .idle) rfl⟩
      simp [World.step, hnone]
  | work w action =>
    cases hmove with
    | work _ pc pc' _ db' obs hpc hwork =>
      obtain ⟨actions, t', hrun, hleft⟩ := h.work hsound hpc hwork
      refine ⟨_, t', fun b hb ↦ ?_, hrun, hleft⟩
      obtain ⟨a, -, rfl⟩ := List.mem_map.1 hb
      exact hquiet _ rfl _ (List.mem_singleton_self _)
  | abort w =>
    cases hmove with
    | abort _ pc hpc =>
      obtain ⟨pc', hpc', -⟩ := h.exists_worker hpc
      refine ⟨[.abort w], _, hquiet _ rfl, run_cons_eq_some.2 ⟨_, ?_, rfl⟩,
        h.of_workers none none rfl⟩
      simp [World.step, hpc']
  | restart =>
    cases hmove with
    | restart => exact ⟨[.restart], _, hquiet _ rfl, rfl, ⟨h.db, fun _ ↦ rfl, h.history⟩⟩

end Leaves

end World

end PhenoEvents
