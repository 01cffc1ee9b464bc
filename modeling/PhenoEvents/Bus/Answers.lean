import PhenoEvents.Bus.TotalOrder
import PhenoEvents.Bus.Worker

/-!
# What `publish` answers

The answer to a call of `publish` depends on the envelope and on the calls before it, and on nothing
else (`answer`).  Both buses give it: `SqliteBus` looks for the id among the rows of the outbox,
which are never deleted, and `InMemoryBus` among the ids it has seen.  No worker and no subscriber
can change that.

## What is here

* `valid`, `answer` and `answersAfter`: the answers as a function of the list of calls.  An envelope
  that is not valid is rejected, and it leaves no trace; one whose id was accepted before is
  answered with `duplicate`; and any other is new.
* `World.answered_of_run` for `SqliteBus` and `InMemoryBus.World.answered_of_run` for the bus in
  memory.  Both say of the calls of a run, in the order in which they were made, that they were
  answered as `answersAfter` says.  They also say what the calls have left behind: the keys of the
  outbox, or the set `seen` and the messages that are to be sent.

For `SqliteBus` the calls must be of envelopes that have a text (`Serde.RoundTrips`); a call that
fails because the envelope cannot be written down is no answer the other bus could give.
-/

set_option autoImplicit false

namespace PhenoEvents

open Transition

theorem filterMap_concat {α τ : Type*} (f : α → Option τ) (as : List α) (a : α) :
    (as ++ [a]).filterMap f = as.filterMap f ++ (f a).toList := by
  rw [List.filterMap_append]
  cases h : f a <;> simp [h]

/-- The envelopes `publish` does not reject. -/
def valid (envelopes : List EventEnvelope) : List EventEnvelope :=
  envelopes.filter fun e ↦ e.validate.isOk

theorem valid_concat_of_ok (envelopes : List EventEnvelope) {e : EventEnvelope}
    (h : e.validate = .ok ()) : valid (envelopes ++ [e]) = valid envelopes ++ [e] := by
  rw [valid, List.filter_append, List.filter_singleton, h]
  rfl

theorem valid_concat_of_error (envelopes : List EventEnvelope) {e : EventEnvelope}
    {error : EnvelopeError} (h : e.validate = .error error) :
    valid (envelopes ++ [e]) = valid envelopes := by
  rw [valid, List.filter_append, List.filter_singleton, h]
  exact List.append_nil _

/-- The answer to a call of `publish` after these: what is wrong with the envelope, or whether its
id was accepted before. -/
def answer (earlier : List EventEnvelope) (e : EventEnvelope) : Except PublishError Ack :=
  match e.validate with
  | .error error => .error (.invalidEnvelope error)
  | .ok () => .ok ⟨e.id, decide (e.id ∈ (valid earlier).map EventEnvelope.id)⟩

theorem answer_of_ok (earlier : List EventEnvelope) {e : EventEnvelope} (h : e.validate = .ok ()) :
    answer earlier e =
      .ok ⟨e.id, decide (e.id ∈ (valid earlier).map EventEnvelope.id)⟩ := by
  rw [answer, h]

theorem answer_of_error (earlier : List EventEnvelope) {e : EventEnvelope} {error : EnvelopeError}
    (h : e.validate = .error error) : answer earlier e = .error (.invalidEnvelope error) := by
  rw [answer, h]

/-- The answers to calls of `publish` one after another, each with its envelope.  The calls before
them are an argument, so that the list can be cut anywhere. -/
def answersAfter (earlier : List EventEnvelope) :
    List EventEnvelope → List (EventEnvelope × Except PublishError Ack)
  | [] => []
  | e :: rest => (e, answer earlier e) :: answersAfter (earlier ++ [e]) rest

theorem answersAfter_append (earlier xs ys : List EventEnvelope) :
    answersAfter earlier (xs ++ ys) =
      answersAfter earlier xs ++ answersAfter (earlier ++ xs) ys := by
  induction xs generalizing earlier with
  | nil => rw [List.append_nil]; rfl
  | cons e rest ih =>
    rw [List.cons_append, answersAfter, ih, List.append_assoc]
    rfl

/-- One more call. -/
theorem answersAfter_concat (envelopes : List EventEnvelope) (e : EventEnvelope) :
    answersAfter [] (envelopes ++ [e]) =
      answersAfter [] envelopes ++ [(e, answer envelopes e)] := by
  rw [answersAfter_append]
  rfl

theorem map_fst_answersAfter (earlier envelopes : List EventEnvelope) :
    (answersAfter earlier envelopes).map Prod.fst = envelopes := by
  induction envelopes generalizing earlier with
  | nil => rfl
  | cons e rest ih => rw [answersAfter, List.map_cons, ih]

/-- More calls have more answers. -/
theorem answersAfter_isPrefix (earlier : List EventEnvelope) {xs ys : List EventEnvelope}
    (h : xs <+: ys) : answersAfter earlier xs <+: answersAfter earlier ys := by
  obtain ⟨rest, rfl⟩ := h
  rw [answersAfter_append]
  exact List.prefix_append ..

/-! ## In the database

`INSERT OR IGNORE` tells by the number of rows it has changed whether the id was there. -/

/-- The envelope of a call of `publish`. -/
def Action.envelope : Action → Option EventEnvelope
  | .publish envelope _ => some envelope
  | _ => none

/-- The envelopes that were published. -/
def published (as : List Action) : List EventEnvelope := as.filterMap Action.envelope

theorem published_concat (as : List Action) (a : Action) :
    published (as ++ [a]) = published as ++ a.envelope.toList :=
  filterMap_concat Action.envelope as a

/-- The answer to a call of `publish`. -/
def Observation.answer : Observation → Option (EventEnvelope × Except PublishError Ack)
  | .published envelope result => some (envelope, result)
  | _ => none

/-- What each call of `publish` has been answered. -/
def World.answers (s : World) : List (EventEnvelope × Except PublishError Ack) :=
  s.history.filterMap Observation.answer

/-- An envelope `publish` accepts has a text, and the text decodes to the envelope. -/
def Serde.RoundTrips (serde : Serde) (e : EventEnvelope) : Prop :=
  e.validate = .ok () → ∃ text, serde.toString e = .ok text ∧ serde.fromStr text = .ok e

theorem Serde.RoundTrips.writes {serde : Serde} {e : EventEnvelope} (h : serde.RoundTrips e)
    (hvalid : e.validate = .ok ()) : ∃ text, serde.toString e = .ok text :=
  (h hvalid).imp fun _ htext ↦ htext.1

/-- A table reads what it writes. -/
theorem Serde.roundTrips_table {entries : List (EventEnvelope × String)}
    (h : (entries.map Prod.snd).Nodup) {e : EventEnvelope}
    (hok : e.validate = .ok () → ((table entries h).toString e).isOk = true) :
    (table entries h).RoundTrips e := by
  intro hvalid
  cases htext : (table entries h).toString e with
  | ok text => exact ⟨text, rfl, fromStr_table h htext⟩
  | error message => exact absurd (hok hvalid) (by simp [htext, Except.isOk, Except.toBool])

variable {bus : SqliteBus}

/-- The only error left is that of an invalid envelope. -/
theorem SqliteBus.publish_eq_error {e : EventEnvelope} {now : Instant} {db : Database}
    {error : PublishError} (hwrites : e.validate = .ok () → ∃ text, bus.serde.toString e = .ok text)
    (h : bus.publish e now db = .error error) :
    ∃ invalid, e.validate = .error invalid ∧ error = .invalidEnvelope invalid := by
  cases hvalid : e.validate with
  | ok u =>
    obtain ⟨text, htext⟩ := hwrites hvalid
    have hok : bus.publish e now db = .ok (db.insertEvent e.id text now, _) :=
      publish_eq_ok_iff.2 ⟨hvalid, text, htext, rfl, rfl⟩
    cases h.symm.trans hok
  | error invalid =>
    rw [publish, hvalid] at h
    exact ⟨invalid, rfl, (Except.error.inj h).symm⟩

/-- **No step of a worker adds or deletes a row**, and none answers a publisher. -/
theorem WorkerMove.keys {w : ℕ} {db db' : Database} {pc pc' : Pc} {action : WorkerAction}
    {obs : List Observation} (h : WorkerMove bus w db pc action db' pc' obs) :
    db'.outbox.rows.map OutboxRow.eventId = db.outbox.rows.map OutboxRow.eventId ∧
      obs.filterMap Observation.answer = [] := by
  cases h with
  | claim now | claimLost now =>
    exact ⟨db.outbox.keys_updateWhere fun r _ ↦ r.eventId_claimed now, rfl⟩
  | markHandled id now => exact ⟨db.outbox.keys_updateWhere fun r _ ↦ r.eventId_acked now, rfl⟩
  | updateFailed id error now attempts =>
    exact ⟨db.outbox.keys_updateWhere fun r _ ↦ r.eventId_failed _ _ error now, rfl⟩
  | _ => exact ⟨rfl, rfl⟩

namespace World

/-- The answers to the calls, and the ids they have left in the outbox. -/
structure Answered (s : World) (envelopes : List EventEnvelope) : Prop where
  answers : s.answers = answersAfter [] envelopes
  stored : ∀ id, id ∈ s.db.outbox.rows.map OutboxRow.eventId ↔
    id ∈ (valid envelopes).map EventEnvelope.id

variable {s t : World} {envelopes : List EventEnvelope}

/-- A step that is not a call of `publish`. -/
theorem Answered.of_same (h : s.Answered envelopes)
    (hkeys : t.db.outbox.rows.map OutboxRow.eventId = s.db.outbox.rows.map OutboxRow.eventId)
    {obs : List Observation} (hhistory : t.history = s.history ++ obs)
    (hobs : obs.filterMap Observation.answer = []) : t.Answered envelopes where
  answers := by
    rw [World.answers, hhistory, List.filterMap_append, hobs, List.append_nil]
    exact h.answers
  stored id := hkeys ▸ h.stored id

/-- **One more call, one more answer.** -/
theorem answered_step {action : Action} (h : s.Answered envelopes)
    (hserde : ∀ e, action.envelope = some e → bus.serde.RoundTrips e)
    (hstep : step bus s action = some t) : t.Answered (envelopes ++ action.envelope.toList) := by
  cases WorldMove.of_step hstep with
  | accepted e now text hvalid htext =>
    have hknown : (s.db.outbox.lookup e.id).isSome =
        decide (e.id ∈ (valid envelopes).map EventEnvelope.id) := by
      rw [Bool.eq_iff_iff, decide_eq_true_eq, ← h.stored, KeyedTable.mem_keys_iff,
        Option.isSome_iff_ne_none]
    refine ⟨?_, fun id ↦ ?_⟩
    · show (s.history ++ [_]).filterMap Observation.answer = _
      rw [List.filterMap_append, Action.envelope, Option.toList_some, answersAfter_concat,
        answer_of_ok _ hvalid, ← hknown, ← h.answers]
      rfl
    · rw [Action.envelope, Option.toList_some, valid_concat_of_ok _ hvalid, List.map_append,
        List.mem_append, ← h.stored]
      exact (KeyedTable.mem_keys_insertOrIgnore _).trans
        (or_congr_right List.mem_singleton.symm)
  | rejected e now error herror =>
    obtain ⟨invalid, hinvalid, rfl⟩ := SqliteBus.publish_eq_error (hserde e rfl).writes herror
    refine ⟨?_, fun id ↦ ?_⟩
    · show (s.history ++ [_]).filterMap Observation.answer = _
      rw [List.filterMap_append, Action.envelope, Option.toList_some, answersAfter_concat,
        answer_of_error _ hinvalid, ← h.answers]
      rfl
    · rw [Action.envelope, Option.toList_some, valid_concat_of_error _ hinvalid]
      exact h.stored id
  | subscribe w hfree | abort w pc hpc | restart =>
    show Answered _ (envelopes ++ [])
    rw [List.append_nil]
    exact h.of_same rfl (List.append_nil _).symm rfl
  | work w pc pc' action db' obs hpc hmove =>
    show Answered _ (envelopes ++ [])
    rw [List.append_nil]
    exact h.of_same hmove.keys.1 rfl hmove.keys.2

/-- **What `SqliteBus` answers**, whatever its workers do. -/
theorem answered_of_run {as : List Action}
    (hserde : ∀ e ∈ published as, bus.serde.RoundTrips e)
    (hrun : run (step bus) initial as = some s) : s.Answered (published as) := by
  refine run_invariant_of_trace (I := fun as s ↦
    (∀ e ∈ published as, bus.serde.RoundTrips e) → s.Answered (published as))
    (fun _ ↦ ⟨rfl, fun id ↦ Iff.rfl⟩) (fun as a s t ih hstep hserde ↦ ?_) hrun hserde
  have hsplit : published (as ++ [a]) = published as ++ a.envelope.toList := published_concat as a
  rw [hsplit] at hserde ⊢
  refine answered_step (ih fun e he ↦ hserde e (List.mem_append_left _ he)) (fun e he ↦ ?_) hstep
  exact hserde e (List.mem_append_right _ (Option.mem_toList.2 he))

end World

/-! ## In memory

The critical section of `publish` tells by what `HashSet::insert` returns.  The check is made under
the lock, so two calls with one id at the same time are one after the other. -/

namespace InMemoryBus

/-- The envelope of a call of `publish`. -/
def Action.envelope : Action → Option EventEnvelope
  | .publish envelope _ => some envelope
  | _ => none

/-- The envelopes that were published. -/
def published (as : List Action) : List EventEnvelope := as.filterMap Action.envelope

theorem published_concat (as : List Action) (a : Action) :
    published (as ++ [a]) = published as ++ a.envelope.toList :=
  filterMap_concat Action.envelope as a

theorem Inner.mem_seen_record {inner : Inner} {eventId id : Uuid} :
    id ∈ (inner.record eventId).1.seen ↔ id ∈ inner.seen ∨ id = eventId := by
  by_cases h : eventId ∈ inner.seen <;> simp [record, h, or_comm]
  rintro rfl
  exact h

theorem WorkerMove.envelope {s : World} {k : Uuid} {sub sub' : Subscriber} {action : Action}
    (h : WorkerMove s k sub action sub') : action.envelope = none := by
  cases h <;> rfl

namespace World

/-- The answers to the calls, the ids they have left, and what they send. -/
structure Answered (s : World) (envelopes : List EventEnvelope) : Prop where
  answers : s.answers = answersAfter [] envelopes
  seen : ∀ id, id ∈ s.inner.seen ↔ id ∈ (valid envelopes).map EventEnvelope.id
  messages : s.messages.map Message.envelope = valid envelopes

variable {s t : World} {envelopes : List EventEnvelope}

/-- **One more call, one more answer.** -/
theorem answered_step {action : Action} (h : s.Answered envelopes)
    (hstep : s.step action = some t) : t.Answered (envelopes ++ action.envelope.toList) := by
  cases move_of_step hstep with
  | @rejected e senders error hinvalid =>
    rw [Action.envelope, Option.toList_some]
    refine ⟨?_, fun id ↦ ?_, ?_⟩
    · rw [answersAfter_concat, answer_of_error _ hinvalid, ← h.answers]
    · rw [valid_concat_of_error _ hinvalid]
      exact h.seen id
    · rw [valid_concat_of_error _ hinvalid]
      exact h.messages
  | @entered e senders hvalid hnodup hsenders =>
    have hknown : decide (e.id ∈ s.inner.seen) =
        decide (e.id ∈ (valid envelopes).map EventEnvelope.id) :=
      decide_eq_decide.2 (h.seen e.id)
    rw [Action.envelope, Option.toList_some]
    refine ⟨?_, fun id ↦ ?_, ?_⟩
    · rw [answersAfter_concat, answer_of_ok _ hvalid, ← hknown, ← h.answers]
      rfl
    · rw [valid_concat_of_ok _ hvalid, List.map_append, List.mem_append, ← h.seen,
        List.map_singleton, List.mem_singleton]
      exact Inner.mem_seen_record
    · rw [valid_concat_of_ok _ hvalid, ← h.messages, messages, enter, List.map_append,
        List.map_append]
      rfl
  | sent hcalls hsub =>
    show Answered _ (envelopes ++ [])
    rw [List.append_nil]
    refine ⟨h.answers, h.seen, ?_⟩
    rw [messages_sent hcalls rfl]
    exact h.messages
  | worked hsub hmove =>
    rw [hmove.envelope, Option.toList_none, List.append_nil]
    exact ⟨h.answers, h.seen, h.messages⟩
  | subscribed hnew | dropped hk | removed hsub hpc =>
    show Answered _ (envelopes ++ [])
    rw [List.append_nil]
    exact ⟨h.answers, h.seen, h.messages⟩

/-- **What `InMemoryBus` answers**, whatever its subscribers do. -/
theorem answered_of_run {as : List Action} (hrun : run step initial as = some s) :
    s.Answered (published as) := by
  refine run_invariant_of_trace (I := fun as s ↦ s.Answered (published as))
    ⟨rfl, fun id ↦ (by simp [published, valid, initial]), rfl⟩ (fun as a s t h hstep ↦ ?_) hrun
  rw [published_concat]
  exact answered_step h hstep

end World

end InMemoryBus

end PhenoEvents
