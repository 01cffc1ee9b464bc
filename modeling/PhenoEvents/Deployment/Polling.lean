import PhenoEvents.Deployment.Processes

/-!
# Processes that poll

A process that calls `rebuild_from_offset(offset())` again and again goes through the log entry by
entry.  `Process.At` says how many entries it is done with, and that what its call still has to read
comes right behind them, however much has been published in the meantime.  `Poll` says once what a
step can do to that number: it goes up by one when an entry is applied, and back to the offset when
a statement fails.

With one such process, killed and started again at any commit, and the bus at work next to it:

* `polling_shows_prefix`: at every moment the read model is what the first entries of the log make
  of empty tables, their number never goes down, and the checkpoint is this number or one less;
* `rebuild_reads_all`: a call that returns `Ok` has applied everything that was published before it
  began.

## How it goes

* A call reads its rows in one query and applies them afterwards, so it does not see what is
  published during the call.  `Process.At` therefore speaks of a prefix of what is behind the
  process.
* `Polling` is the invariant for any number of processes, and `rebuild_reads_all` follows from it:
  the other processes apply entries too, and never take one back.
* `Alone` is the one for a single process.  Then the tables have been written by this process only,
  and what they show is determined by its place.

Between applying an entry and writing the checkpoint there is a commit.  A process that is killed
there applies the entry a second time, and this changes nothing but `updated_at`: what is shown is
compared without that column (`erase`).
-/

set_option autoImplicit false

namespace PhenoEvents

open Except Resume Transition

namespace Deployment

variable {bus : SqliteBus} {engine : SqlEngine} {s t : Deployment} {action : Action}

/-! ## The entries of the log

The rowids of the outbox are 1, 2, 3 and so on, since rows are never deleted. -/

/-- The entries behind the first `n`. -/
theorem after_log (s : Deployment) (n : ℕ) : after (n : ℤ) s.log = s.log.drop n := by
  have hafter := after_numbered 0 (s.world.db.outbox.rows.map OutboxRow.envelope) n
  rw [Int.zero_add] at hafter
  rw [log_eq_numbered, hafter]

/-- The rowid of an entry is its place. -/
theorem rowid_eq {n : ℕ} {rowid : ℤ} {text : String} (h : s.log[n]? = some (rowid, text)) :
    rowid = n + 1 := by
  rw [log_eq_numbered, getElem?_numbered, Option.map_eq_some_iff] at h
  obtain ⟨entry, -, hrow⟩ := h
  obtain ⟨rfl, -⟩ := Prod.mk.inj hrow
  omega

/-- The first of the entries behind the first `n`. -/
theorem getElem?_of_isPrefix_drop {log : List (ℤ × String)} {row : ℤ × String}
    {rows : List (ℤ × String)} {n : ℕ} (h : row :: rows <+: log.drop n) :
    log[n]? = some row ∧ rows <+: log.drop (n + 1) := by
  obtain ⟨later, hlater⟩ := h
  rw [List.cons_append] at hlater
  constructor
  · have hhead := congrArg List.head? hlater
    rw [List.head?_drop] at hhead
    exact hhead.symm
  · have htail := congrArg List.tail hlater
    rw [List.tail_drop] at htail
    exact ⟨later, htail⟩

end Deployment

/-! ## Where a process is

Its offset is the number of entries it is done with, or one less while the checkpoint has not been
written. -/

/-- The process is done with the first `n` entries of the log, and what its call has read and not
yet applied comes right behind them. -/
inductive Process.At (log : List (ℤ × String)) : Process → ℕ → Prop
  | idle {n : ℕ} (result : Option (Except ProjectionError Unit)) (hn : n ≤ log.length) :
      At log ⟨n, .idle result⟩ n
  | replaying {n : ℕ} {rows : List (ℤ × String)} (hn : n ≤ log.length)
      (hrows : rows <+: log.drop n) :
      At log ⟨n, .replaying rows⟩ n
  | checkpointing {n : ℕ} {text : String} {rows : List (ℤ × String)}
      (hrows : ((n : ℤ) + 1, text) :: rows <+: log.drop n) :
      At log ⟨n, .checkpointing (n + 1) (some rows)⟩ (n + 1)

/-- The log may have grown. -/
theorem Process.At.mono {log log' : List (ℤ × String)} {p : Process} {n : ℕ} (h : p.At log n)
    (hlog : log <+: log') : p.At log' n := by
  have hdrop : ∀ k, log.drop k <+: log'.drop k := fun k ↦ hlog.drop k
  cases h with
  | idle result hn => exact .idle result (hn.trans hlog.length_le)
  | replaying hn hrows => exact .replaying (hn.trans hlog.length_le) (hrows.trans (hdrop _))
  | checkpointing hrows => exact .checkpointing (hrows.trans (hdrop _))

/-- The offset is where the process is, unless a checkpoint is missing. -/
theorem Process.At.offset {log : List (ℤ × String)} {p : Process} {n : ℕ} (h : p.At log n) :
    p.offset ≤ n ∧ (n : ℤ) ≤ p.offset + 1 := by
  cases h with
  | idle result hn => exact ⟨le_rfl, by dsimp only; omega⟩
  | replaying hn hrows => exact ⟨le_rfl, by dsimp only; omega⟩
  | checkpointing hrows => exact ⟨by push_cast; omega, by push_cast; omega⟩

theorem Process.At.le_length {log : List (ℤ × String)} {p : Process} {n : ℕ} (h : p.At log n) :
    n ≤ log.length := by
  cases h with
  | idle result hn => exact hn
  | replaying hn hrows => exact hn
  | checkpointing hrows =>
    have hlength := hrows.length_le
    rw [List.length_cons, List.length_drop] at hlength
    omega

namespace Deployment

variable {bus : SqliteBus} {engine : SqlEngine} {s t : Deployment} {action : Action}

/-- What a step of a process that was done with `n` entries does, and how many it is done with after
it. All that is said about processes that poll goes through these cases. -/
inductive Poll (bus : SqliteBus) (engine : SqlEngine) (s : Deployment) (p : Process) (n : ℕ)
    (action : OrderProjection.Action) (w : OrderProjection.World) : ℕ → Prop
  /-- It writes nothing. -/
  | pauses (m : ℕ) (hm : m ≤ n) (hrm : w.readModel = s.readModel) (happlied : w.applied = s.applied)
      (hstored : w.stored = s.stored) : Poll bus engine s p n action w m
  /-- It is replaced by a process that starts at the checkpoint. -/
  | restarts (m : ℕ) (haction : action = .restart) (hm : s.stored = m)
      (hrm : w.readModel = s.readModel) (happlied : w.applied = s.applied)
      (hstored : w.stored = s.stored) : Poll bus engine s p n action w m
  /-- It writes the checkpoint. -/
  | saves (hoffset : w.projection.offset = n) (hrm : w.readModel = s.readModel)
      (happlied : w.applied = s.applied) (hstored : w.stored = n) : Poll bus engine s p n action w n
  /-- It applies the next entry. -/
  | applies (now : Instant) (text : String) (envelope : EventEnvelope) (hoffset : p.offset = n)
      (hrow : s.log[n]? = some ((n : ℤ) + 1, text))
      (hdecode : bus.serde.fromStr text = .ok envelope)
      (hrm : s.readModel.applyOrderEvent engine now envelope = .ok w.readModel)
      (happlied : w.applied = envelope :: s.applied) (hstored : w.stored = s.stored) :
      Poll bus engine s p n action w (n + 1)

/-- **Every step of a process that polls is one of these.** -/
theorem poll_of_step {p : Process} {n : ℕ} {action : OrderProjection.Action}
    {w : OrderProjection.World} (hat : p.At s.log n) (hresumes : action.resumes = true)
    (hstored : ∃ k : ℕ, s.stored = k ∧ k ≤ s.log.length)
    (h : (s.projector p).step bus engine action = some w) :
    ∃ m, Poll bus engine s p n action w m ∧ Process.At s.log ⟨w.projection.offset, w.call⟩ m ∧
      (p.offset = s.stored → w.projection.offset = w.stored) := by
  cases OrderProjection.World.move_of_step h with
  | published | refused | applied | notApplied => cases hresumes
  | restarted =>
    -- the next process begins at the checkpoint, wherever this one was
    obtain ⟨k, hk, hle⟩ := hstored
    refine ⟨k, .restarts k rfl hk rfl rfl rfl, ?_, fun _ ↦ rfl⟩
    show Process.At s.log ⟨s.stored, .idle none⟩ k
    rw [hk]
    exact .idle none hle
  | rebuilding hcall =>
    -- the call selects everything behind the place of the process
    cases hat with
    | idle result hn =>
      refine ⟨n, .pauses n le_rfl rfl rfl rfl, ?_, fun hoffset ↦ hoffset⟩
      exact .replaying hn (after_log s n ▸ List.prefix_rfl)
    | replaying | checkpointing => cases hcall
  | @replayed now offset text rows envelope rm hcall hdecode hrm =>
    cases hat with
    | idle | checkpointing => cases hcall
    | replaying hn hrows =>
      obtain rfl := OrderProjection.Call.replaying.inj hcall
      obtain ⟨hrow, -⟩ := getElem?_of_isPrefix_drop hrows
      obtain rfl := rowid_eq hrow
      exact ⟨n + 1, .applies now text envelope rfl hrow hdecode hrm rfl rfl, .checkpointing hrows,
        fun hoffset ↦ hoffset⟩
  | rebuilt hcall =>
    cases hat with
    | idle | checkpointing => cases hcall
    | replaying hn hrows =>
      exact ⟨n, .pauses n le_rfl rfl rfl rfl, .idle _ hn, fun hoffset ↦ hoffset⟩
  | savedApply hcall =>
    cases hat with
    | idle | replaying | checkpointing => cases hcall
  | @savedRow now offset rows hcall =>
    -- the entry has been applied, and now the checkpoint says so too
    cases hat with
    | idle | replaying => cases hcall
    | @checkpointing n text rows hrows =>
      obtain ⟨rfl, hsame⟩ := OrderProjection.Call.checkpointing.inj hcall
      obtain rfl := Option.some_inj.1 hsame
      have hle : n + 1 ≤ s.log.length := (Process.At.checkpointing hrows).le_length
      have hsaved : OrderProjection.World.stored
          ⟨(SqlProjection.mk s.tables n).checkpoint now (n + 1),
          .replaying rows, s.applied⟩ = n + 1 := OrderProjection.World.stored_checkpoint ..
      exact ⟨n + 1, .saves rfl rfl rfl hsaved, .replaying hle (getElem?_of_isPrefix_drop hrows).2,
        fun _ ↦ hsaved.symm⟩
  | notDecoded hcall hdecode =>
    cases hat with
    | idle | checkpointing => cases hcall
    | replaying hn hrows =>
      exact ⟨n, .pauses n le_rfl rfl rfl rfl, .idle _ hn, fun hoffset ↦ hoffset⟩
  | notReplayed hcall hdecode herror =>
    cases hat with
    | idle | checkpointing => cases hcall
    | replaying hn hrows =>
      exact ⟨n, .pauses n le_rfl rfl rfl rfl, .idle _ hn, fun hoffset ↦ hoffset⟩
  | failed =>
    -- whatever statement it is, the offset in memory has not moved, and the call is over
    cases hat with
    | idle result hn | replaying hn hrows =>
      exact ⟨n, .pauses n le_rfl rfl rfl rfl, .idle _ hn, fun hoffset ↦ hoffset⟩
    | @checkpointing n text rows hrows =>
      have hle : n + 1 ≤ s.log.length := (Process.At.checkpointing hrows).le_length
      exact ⟨n, .pauses n (Nat.le_succ n) rfl rfl rfl, .idle _ (Nat.le_of_succ_le hle),
        fun hoffset ↦ hoffset⟩

/-! ## Any number of processes

Every process keeps its own place, and the checkpoint is behind what was applied, whoever has
written it. -/

/-- Steps of the bus, and of processes that poll. -/
def Action.polls : Action → Bool
  | .bus _ | .start _ => true
  | .project _ action => action.resumes

/-- The first `n` entries of the log have been applied. -/
def AppliedUpTo (bus : SqliteBus) (s : Deployment) (n : ℕ) : Prop :=
  ∀ row ∈ s.log.take n, ∃ envelope ∈ s.applied, bus.serde.fromStr row.2 = .ok envelope

/-- Every process knows where it is, and neither it nor the checkpoint has skipped an entry.  Which
of the processes has written the checkpoint does not matter. -/
structure Polling (bus : SqliteBus) (s : Deployment) : Prop where
  stored : ∃ n : ℕ, s.stored = n ∧ n ≤ s.log.length ∧ s.AppliedUpTo bus n
  processes : ∀ i p, s.processes i = some p → ∃ n, p.At s.log n ∧ s.AppliedUpTo bus n

theorem polling_initial (bus : SqliteBus) : initial.Polling bus where
  stored := ⟨0, rfl, le_rfl, fun _ hrow ↦ by cases hrow⟩
  processes _ _ hp := by cases hp

theorem AppliedUpTo.mono {n : ℕ} (h : s.AppliedUpTo bus n) (hlog : s.log <+: t.log)
    (hn : n ≤ s.log.length) (happlied : ∀ e ∈ s.applied, e ∈ t.applied) : t.AppliedUpTo bus n := by
  obtain ⟨later, hlater⟩ := hlog
  intro row hrow
  rw [← hlater, List.take_append_of_le_length hn] at hrow
  obtain ⟨envelope, hmem, hdecode⟩ := h row hrow
  exact ⟨envelope, happlied envelope hmem, hdecode⟩

/-- One more entry has been applied. -/
theorem AppliedUpTo.succ {n : ℕ} (h : s.AppliedUpTo bus n) {row : ℤ × String}
    (hrow : s.log[n]? = some row) {envelope : EventEnvelope} (hmem : envelope ∈ s.applied)
    (hdecode : bus.serde.fromStr row.2 = .ok envelope) : s.AppliedUpTo bus (n + 1) := by
  obtain ⟨hlt, rfl⟩ := List.getElem?_eq_some_iff.1 hrow
  intro row' hrow'
  rw [← List.take_append_getElem hlt, List.mem_append, List.mem_singleton] at hrow'
  rcases hrow' with hold | rfl
  · exact h row' hold
  · exact ⟨envelope, hmem, hdecode⟩

namespace Polling

/-- Nothing is ever taken back. -/
theorem applied_subset {p : Process} {n m : ℕ} {action : OrderProjection.Action}
    {w : OrderProjection.World}
    (h : Poll bus engine s p n action w m) : ∀ e ∈ s.applied, e ∈ w.applied := by
  cases h with
  | pauses m hm hrm happlied | restarts m haction hm hrm happlied | saves hoff hrm happlied =>
    rw [happlied]
    exact fun _ he ↦ he
  | applies now text envelope hoffset hrow hdecode hrm happlied =>
    rw [happlied]
    exact fun _ he ↦ List.mem_cons_of_mem _ he

/-- What is known of the other processes stays so. -/
theorem of_step (h : s.Polling bus) (hlog : s.log <+: t.log)
    (happlied : ∀ e ∈ s.applied, e ∈ t.applied) {i : ℕ}
    (hothers : ∀ j, j ≠ i → t.processes j = s.processes j)
    (hi : ∀ p, t.processes i = some p → ∃ n, p.At t.log n ∧ t.AppliedUpTo bus n)
    (hstored : ∃ n : ℕ, t.stored = n ∧ n ≤ t.log.length ∧ t.AppliedUpTo bus n) : t.Polling bus := by
  refine ⟨hstored, fun j p hp ↦ ?_⟩
  by_cases hj : j = i
  · subst hj
    exact hi p hp
  · rw [hothers j hj] at hp
    obtain ⟨n, hat, hup⟩ := h.processes j p hp
    exact ⟨n, hat.mono hlog, hup.mono hlog hat.le_length happlied⟩

/-- A process takes a step. -/
theorem project (h : s.Polling bus) {i : ℕ} {p : Process} (hp : s.processes i = some p)
    {action : OrderProjection.Action} (hresumes : action.resumes = true) {w : OrderProjection.World}
    (hmove : (s.projector p).step bus engine action = some w) : (s.absorb i w).Polling bus := by
  obtain ⟨n, hat, hup⟩ := h.processes i p hp
  obtain ⟨k, hk, hle, hkup⟩ := h.stored
  obtain ⟨m, hpoll, hat', -⟩ := poll_of_step hat hresumes ⟨k, hk, hle⟩ hmove
  have happlied := applied_subset hpoll
  have hsame : ∀ l, s.AppliedUpTo bus l → l ≤ s.log.length → (s.absorb i w).AppliedUpTo bus l :=
    fun l hl hll ↦ hl.mono List.prefix_rfl hll happlied
  have hm : (s.absorb i w).AppliedUpTo bus m := by
    cases hpoll with
    | pauses m hm hrm happlied hstored =>
      have hmup : s.AppliedUpTo bus m := fun row hrow ↦
        hup row ((List.take_prefix_take_left hm).subset hrow)
      exact hsame m hmup hat'.le_length
    | restarts m haction hm hrm happlied hstored =>
      obtain rfl : k = m := by omega
      exact hsame k hkup hle
    | saves hoff hrm happlied hstored => exact hsame _ hup hat.le_length
    | applies now text envelope hoffset hrow hdecode hrm happlied hstored =>
      have hrow' : (s.absorb i w).log[n]? = some ((n : ℤ) + 1, text) := hrow
      refine (hsame n hup hat.le_length).succ hrow' ?_ hdecode
      show envelope ∈ w.applied
      rw [happlied]
      exact List.mem_cons_self
  refine h.of_step List.prefix_rfl happlied (i := i)
    (fun j hj ↦ processes_absorb_of_ne s hj w) (fun p' hp' ↦ ?_) ?_
  · obtain rfl := Option.some_inj.1 ((processes_absorb_self s i w).symm.trans hp')
    exact ⟨m, hat', hm⟩
  · show ∃ l : ℕ, w.stored = l ∧ l ≤ s.log.length ∧ _
    cases hpoll with
    | saves hoff hrm happlied hstored => exact ⟨n, hstored, hat.le_length, hm⟩
    | pauses _ _ _ _ hstored | restarts _ _ _ _ _ hstored | applies _ _ _ _ _ _ _ _ hstored =>
      exact ⟨k, hstored.trans hk, hle, hsame k hkup hle⟩

theorem step (h : s.Polling bus) (hpolls : action.polls = true)
    (hstep : s.step bus engine action = some t) : t.Polling bus := by
  have hlog := log_isPrefix (move_of_step hstep)
  cases move_of_step hstep with
  | bus action world hbus =>
    obtain ⟨k, hk, hle, hkup⟩ := h.stored
    refine ⟨⟨k, hk, hle.trans hlog.length_le, hkup.mono hlog hle fun _ he ↦ he⟩, fun i p hp ↦ ?_⟩
    obtain ⟨n, hat, hup⟩ := h.processes i p hp
    exact ⟨n, hat.mono hlog, hup.mono hlog hat.le_length fun _ he ↦ he⟩
  | started i hfree =>
    obtain ⟨k, hk, hle, hkup⟩ := h.stored
    refine h.of_step List.prefix_rfl (fun _ he ↦ he) (i := i)
      (fun j hj ↦ Function.update_of_ne hj ..) (fun p hp ↦ ?_) ⟨k, hk, hle, hkup⟩
    have hp' : some ⟨s.stored, .idle none⟩ = some p := by simpa using hp
    obtain rfl := Option.some_inj.1 hp'
    rw [hk]
    exact ⟨k, .idle none hle, hkup⟩
  | projected i p action w hp hown hmove => exact h.project hp hpolls hmove

theorem run {as : List Action} (h : s.Polling bus) (has : ∀ a ∈ as, a.polls = true)
    (hrun : Transition.run (Deployment.step bus engine) s as = some t) : t.Polling bus :=
  run_invariant_of_forall (fun _ _ _ hs ha hstep ↦ hs.step ha hstep) h has hrun

end Polling

/-! ## What a call reads

From the query on, a call has a list of rows to go through.  What it is going to be done with can be
told from that list, whatever the others do. -/

/-- A call that returns `Ok` leaves the process done with the first `l` entries. -/
def ReadsUpTo (l : ℕ) (p : Process) : Prop :=
  match p.call with
  | .idle (some (.ok ())) => l ≤ p.offset
  | .idle _ => True
  | .replaying rows => l ≤ p.offset + rows.length
  | .checkpointing offset (some rows) => l ≤ offset + rows.length
  | .checkpointing _ none => False

/-- A step of a call that goes on. -/
theorem ReadsUpTo.step {l n : ℕ} {p : Process} {action : OrderProjection.Action}
    {w : OrderProjection.World} (h : ReadsUpTo l p) (hat : p.At s.log n)
    (hresumes : action.resumes = true) (hcall : action ≠ .rebuild ∧ action ≠ .restart)
    (hmove : (s.projector p).step bus engine action = some w) :
    ReadsUpTo l ⟨w.projection.offset, w.call⟩ := by
  cases OrderProjection.World.move_of_step hmove with
  | published | refused | applied | notApplied => cases hresumes
  | restarted => exact absurd rfl hcall.2
  | rebuilding => exact absurd rfl hcall.1
  | @replayed now offset text rows envelope rm hcall' hdecode hrm =>
    cases hat with
    | idle | checkpointing => cases hcall'
    | @replaying n rows' hn hrows =>
      obtain rfl := OrderProjection.Call.replaying.inj hcall'
      obtain rfl := rowid_eq (getElem?_of_isPrefix_drop hrows).1
      have hle : (l : ℤ) ≤ n + (rows.length + 1 : ℕ) := h
      show (l : ℤ) ≤ n + 1 + rows.length
      push_cast at hle
      omega
  | rebuilt hcall' =>
    cases hat with
    | idle | checkpointing => cases hcall'
    | @replaying n rows hn hrows =>
      obtain rfl := OrderProjection.Call.replaying.inj hcall'
      have hle : (l : ℤ) ≤ n + (0 : ℕ) := h
      show (l : ℤ) ≤ n
      omega
  | savedApply hcall' =>
    cases hat with
    | idle | replaying | checkpointing => cases hcall'
  | savedRow hcall' =>
    cases hat with
    | idle | replaying => cases hcall'
    | checkpointing hrows =>
      obtain ⟨rfl, hsame⟩ := OrderProjection.Call.checkpointing.inj hcall'
      obtain rfl := Option.some_inj.1 hsame
      exact h
  | notDecoded | notReplayed | failed => trivial

/-- A call begins: it reads the whole log. -/
theorem readsUpTo_of_rebuild (h : s.Polling bus) {i : ℕ}
    (hstep : s.step bus engine (.project i .rebuild) = some t) :
    ∃ p, t.processes i = some p ∧ ReadsUpTo s.log.length p := by
  cases move_of_step hstep with
  | projected i p action w hp hown hmove =>
    obtain ⟨n, hat, -⟩ := h.processes i p hp
    refine ⟨_, processes_absorb_self s i w, ?_⟩
    cases OrderProjection.World.move_of_step hmove with
    | rebuilding hcall =>
      cases hat with
      | replaying | checkpointing => cases hcall
      | @idle n result hn =>
        show (s.log.length : ℤ) ≤ n + (after (n : ℤ) s.log).length
        rw [after_log, List.length_drop]
        omega

/-- A process in the middle of a call, while the others take their steps. -/
structure Calling (bus : SqliteBus) (l i : ℕ) (s : Deployment) : Prop where
  polling : s.Polling bus
  reads : ∃ p, s.processes i = some p ∧ ReadsUpTo l p

theorem Calling.step {l i : ℕ} (h : Calling bus l i s) (hpolls : action.polls = true)
    (hcall : action ≠ .project i .rebuild ∧ action ≠ .project i .restart)
    (hstep : s.step bus engine action = some t) : Calling bus l i t := by
  refine ⟨h.polling.step hpolls hstep, ?_⟩
  obtain ⟨p, hp, hreads⟩ := h.reads
  cases move_of_step hstep with
  | bus action world hbus => exact ⟨p, hp, hreads⟩
  | started j hfree =>
    have hj : i ≠ j := by
      rintro rfl
      cases hp.symm.trans hfree
    exact ⟨p, (Function.update_of_ne hj ..).trans hp, hreads⟩
  | projected j p' action w hp' hown hmove =>
    by_cases hj : i = j
    · subst hj
      obtain rfl := Option.some_inj.1 (hp.symm.trans hp')
      obtain ⟨n, hat, -⟩ := h.polling.processes i p hp
      refine ⟨_, processes_absorb_self s i w, hreads.step hat hpolls ⟨?_, ?_⟩ hmove⟩
      · rintro rfl
        exact hcall.1 rfl
      · rintro rfl
        exact hcall.2 rfl
    · exact ⟨p, (processes_absorb_of_ne s hj w).trans hp, hreads⟩

theorem Calling.run {l i : ℕ} (h : Calling bus l i s) {bs : List Action}
    (hbs : ∀ b ∈ bs, b.polls = true)
    (hcall : ∀ b ∈ bs, b ≠ .project i .rebuild ∧ b ≠ .project i .restart)
    (hrun : Transition.run (Deployment.step bus engine) s bs = some t) : Calling bus l i t :=
  run_invariant_of_forall
    (K := fun b ↦ b.polls = true ∧ (b ≠ .project i .rebuild ∧ b ≠ .project i .restart))
    (fun _ _ _ h ha hstep ↦ h.step ha.1 ha.2 hstep) h (fun b hb ↦ ⟨hbs b hb, hcall b hb⟩) hrun

theorem log_isPrefix_of_run {as : List Action} (h : run (step bus engine) s as = some t) :
    s.log <+: t.log :=
  run_invariant (I := fun t ↦ s.log <+: t.log)
    (fun _ _ _ hpre hstep ↦ hpre.trans (log_isPrefix (move_of_step hstep))) List.prefix_rfl h

/-- **A rebuild that returns `Ok` has read everything that was published before it began**, whatever
the bus and the other processes did in the meantime. -/
theorem rebuild_reads_all (bus : SqliteBus) (engine : SqlEngine) (as bs : List Action) (i : ℕ)
    (s t : Deployment) (hs : run (step bus engine) initial as = some s)
    (ht : run (step bus engine) s (.project i .rebuild :: bs) = some t)
    (has : ∀ a ∈ as, a.polls = true) (hbs : ∀ b ∈ bs, b.polls = true)
    (hcall : ∀ b ∈ bs, b ≠ .project i .rebuild ∧ b ≠ .project i .restart) (p : Process)
    (hp : t.processes i = some p) (hdone : p.call = .idle (some (.ok ()))) :
    s.log.length ≤ p.offset ∧
      ∀ row ∈ s.log, ∃ envelope ∈ t.applied, bus.serde.fromStr row.2 = .ok envelope := by
  have hlog := log_isPrefix_of_run ht
  obtain ⟨m, hm, ht⟩ := run_cons_eq_some.1 ht
  have hstart := (polling_initial bus).run has hs
  have hcalling : Calling bus s.log.length i m :=
    ⟨hstart.step rfl hm, readsUpTo_of_rebuild hstart hm⟩
  have hend : Calling bus s.log.length i t :=
    hcalling.run hbs hcall ht
  obtain ⟨p', hp', hreads⟩ := hend.reads
  obtain rfl := Option.some_inj.1 (hp.symm.trans hp')
  obtain ⟨n, hat, hup⟩ := hend.polling.processes i p hp
  rw [ReadsUpTo, hdone] at hreads
  have hle : (s.log.length : ℤ) ≤ p.offset := hreads
  refine ⟨hle, fun row hrow ↦ hup row ?_⟩
  have hn : s.log.length ≤ n := by
    have hoffset := hat.offset.1
    omega
  rw [List.prefix_iff_eq_take.1 hlog] at hrow
  exact (List.take_prefix_take_left hn).subset hrow

/-- An event is published, and a process starts next to another one. -/
def startedRun : List Action :=
  [.start 0, .bus (.publish orderCreated 0), .start 1]

/-- What happens during the call of the second process: another event is published, and the first
process applies an event and is killed before the checkpoint. -/
def overtakenCall : List Action :=
  [.bus (.publish itemAdded 1), .project 0 .rebuild, .project 1 (.next 2), .project 0 (.next 3),
    .project 0 .restart, .project 1 (.save 4), .project 1 (.next 5)]

/-- The second process returns.  It has not read the event that was published meanwhile. -/
theorem overtakenCall_reads_all : ∃ s t p, run (step OrderProjection.ordersBus .plain) initial
    startedRun = some s ∧ run (step OrderProjection.ordersBus .plain) s
      (.project 1 .rebuild :: overtakenCall) = some t ∧ t.processes 1 = some p ∧ p.offset = 1 ∧
    t.log.length = 2 ∧ ∀ row ∈ s.log, ∃ envelope ∈ t.applied,
      OrderProjection.ordersBus.serde.fromStr row.2 = .ok envelope := by
  have hstarts : (run (step OrderProjection.ordersBus .plain) initial startedRun).isSome =
    true := by
    decide +kernel
  have hends : (run (step OrderProjection.ordersBus .plain) initial
      (startedRun ++ .project 1 .rebuild :: overtakenCall)).map
        (fun t ↦ (t.processes 1, t.log.length)) = some (some ⟨1, .idle (some (.ok ()))⟩, 2) := by
    decide +kernel
  obtain ⟨s, hs⟩ := Option.isSome_iff_exists.1 hstarts
  obtain ⟨t, ht, hend⟩ := Option.map_eq_some_iff.1 hends
  rw [run_append, hs, Option.bind_some] at ht
  obtain ⟨hp, hlength⟩ := Prod.ext_iff.1 hend
  obtain ⟨-, happlied⟩ :=
    rebuild_reads_all OrderProjection.ordersBus .plain startedRun overtakenCall 1
    s t hs ht (by decide) (by decide) (by simp [overtakenCall]) _ hp rfl
  exact ⟨s, t, _, hs, ht, hp, rfl, hlength, happlied⟩

/-! ## One process

The tables and the place of the process belong together, until it is killed; then the checkpoint
tells the next one where to begin, which is where the tables are or one entry before. -/

/-- The read model is what the first `n` entries of the log make of empty tables, and the checkpoint
is `n` or one less. -/
structure Shows (bus : SqliteBus) (engine : SqlEngine) (s : Deployment) (n : ℕ) : Prop where
  le_length : n ≤ s.log.length
  replayed : replay (ReadModel.applyText bus.serde engine) .empty (s.log.take n) =
    .ok s.readModel.erase
  stored : ∃ k : ℕ, s.stored = k ∧ k ≤ n ∧ n ≤ k + 1

/-- Steps of the bus, and of one process that polls. -/
def Action.alone : Action → Bool
  | .bus _ => true
  | .start i => i = 0
  | .project i action => i = 0 ∧ action.resumes

/-- The process has not come further than what the tables show.  After a restart it may be one entry
behind them, and then applies that entry once more. -/
structure Alone (bus : SqliteBus) (engine : SqlEngine) (s : Deployment) (n : ℕ) : Prop where
  shows : s.Shows bus engine n
  offset : ∀ p, s.processes 0 = some p → p.offset = s.stored
  position : ∀ p, s.processes 0 = some p → ∃ k, p.At s.log k ∧ k ≤ n

theorem alone_initial (bus : SqliteBus) (engine : SqlEngine) : initial.Alone bus engine 0 where
  shows := ⟨Nat.zero_le _, rfl, 0, rfl, Nat.zero_le _, Nat.zero_le _⟩
  offset _ hp := by cases hp
  position _ hp := by cases hp

theorem Shows.exists_stored {n : ℕ} (h : s.Shows bus engine n) :
    ∃ k : ℕ, s.stored = k ∧ k ≤ s.log.length := by
  obtain ⟨k, hk, hle, -⟩ := h.stored
  exact ⟨k, hk, hle.trans h.le_length⟩

/-- The tables stay, and the log may grow. -/
theorem Shows.of_isPrefix {n : ℕ} (h : s.Shows bus engine n) (hlog : s.log <+: t.log)
    (hrm : t.readModel = s.readModel) (hstored : t.stored = s.stored) : t.Shows bus engine n := by
  refine ⟨h.le_length.trans hlog.length_le, ?_, hstored ▸ h.stored⟩
  obtain ⟨later, hlater⟩ := hlog
  rw [← hlater, List.take_append_of_le_length h.le_length, hrm]
  exact h.replayed

/-- The next entry is applied for the first time. -/
theorem Shows.advance {n : ℕ} (h : s.Shows bus engine n) (hlog : t.log = s.log) {row : ℤ × String}
    (hrow : s.log[n]? = some row) {envelope : EventEnvelope} {now : Instant}
    (hdecode : bus.serde.fromStr row.2 = .ok envelope)
    (hrm : s.readModel.applyOrderEvent engine now envelope = .ok t.readModel)
    (hstored : t.stored = n) : t.Shows bus engine (n + 1) := by
  obtain ⟨hlt, rfl⟩ := List.getElem?_eq_some_iff.1 hrow
  refine ⟨hlog ▸ hlt, ?_, n, hstored, Nat.le_succ n, le_rfl⟩
  rw [hlog, ← List.take_append_getElem hlt, replay_concat, h.replayed]
  show ReadModel.applyText bus.serde engine s.readModel.erase _ = _
  rw [ReadModel.applyText_erase_of_decoded hdecode now, hrm]
  rfl

/-- The last entry is applied again. -/
theorem Shows.again {n : ℕ} (h : s.Shows bus engine (n + 1)) (hlog : t.log = s.log)
    {row : ℤ × String} (hrow : s.log[n]? = some row) {envelope : EventEnvelope} {now : Instant}
    (hdecode : bus.serde.fromStr row.2 = .ok envelope)
    (hrm : s.readModel.applyOrderEvent engine now envelope = .ok t.readModel)
    (hstored : t.stored = s.stored) : t.Shows bus engine (n + 1) := by
  refine ⟨hlog ▸ h.le_length, ?_, hstored ▸ h.stored⟩
  rw [hlog, h.replayed]
  -- what the entry has made of the tables it absorbs
  obtain ⟨hlt, rfl⟩ := List.getElem?_eq_some_iff.1 hrow
  have honce := h.replayed
  rw [← List.take_append_getElem hlt, replay_concat, bind_eq_ok_iff] at honce
  obtain ⟨rm, -, happly⟩ := honce
  have htwice := ReadModel.applyText_absorbs _ _ _ happly
  rw [ReadModel.applyText_erase_of_decoded hdecode now, hrm] at htwice
  exact htwice.symm

namespace Alone

variable {n : ℕ}

/-- The process takes a step. -/
theorem project (h : s.Alone bus engine n) {p : Process} (hp : s.processes 0 = some p)
    {action : OrderProjection.Action} (hresumes : action.resumes = true) {w : OrderProjection.World}
    (hmove : (s.projector p).step bus engine action = some w) :
    ∃ m, n ≤ m ∧ (s.absorb 0 w).Alone bus engine m := by
  obtain ⟨k, hat, hkn⟩ := h.position p hp
  have hoffset := h.offset p hp
  obtain ⟨c, hc, hcn, hnc⟩ := h.shows.stored
  obtain ⟨m, hpoll, hat', hoffset'⟩ := poll_of_step hat hresumes h.shows.exists_stored hmove
  have hoffsets : ∀ p', (s.absorb 0 w).processes 0 = some p' → p'.offset = w.stored := by
    intro p' hp'
    rw [processes_absorb_self] at hp'
    exact Option.some_inj.1 hp' ▸ hoffset' hoffset
  have hposition : ∀ l, m ≤ l → ∀ p', (s.absorb 0 w).processes 0 = some p' →
      ∃ k, p'.At s.log k ∧ k ≤ l := by
    intro l hl p' hp'
    rw [processes_absorb_self] at hp'
    exact Option.some_inj.1 hp' ▸ ⟨m, hat', hl⟩
  cases hpoll with
  | pauses m hm hrm happlied hstored =>
    exact ⟨n, le_rfl, h.shows.of_isPrefix List.prefix_rfl hrm hstored, hoffsets,
      hposition n (hm.trans hkn)⟩
  | restarts m haction hm hrm happlied hstored =>
    exact ⟨n, le_rfl, h.shows.of_isPrefix List.prefix_rfl hrm hstored, hoffsets,
      hposition n (by omega)⟩
  | saves hoff hrm happlied hstored =>
    -- the checkpoint moves to where the process is, which is not behind where it was
    obtain ⟨hle, -⟩ := hat.offset
    refine ⟨n, le_rfl, ⟨⟨h.shows.le_length, ?_, k, hstored, hkn, by omega⟩, hoffsets,
      hposition n hkn⟩⟩
    show replay _ .empty (s.log.take n) = .ok w.readModel.erase
    rw [hrm]
    exact h.shows.replayed
  | applies now text envelope hk hrow hdecode hrm happlied hstored =>
    rcases hkn.lt_or_eq with hlt | rfl
    · obtain rfl : n = k + 1 := by omega
      exact ⟨k + 1, le_rfl, h.shows.again rfl hrow hdecode hrm hstored, hoffsets,
        hposition (k + 1) le_rfl⟩
    · have hnext : w.stored = k := hstored.trans (hoffset.symm.trans hk)
      exact ⟨k + 1, Nat.le_succ k, h.shows.advance rfl hrow hdecode hrm hnext, hoffsets,
        hposition (k + 1) le_rfl⟩

/-- **The tables never go back.** -/
theorem step (h : s.Alone bus engine n) (halone : action.alone = true)
    (hstep : s.step bus engine action = some t) : ∃ m, n ≤ m ∧ t.Alone bus engine m := by
  have hlog := log_isPrefix (move_of_step hstep)
  cases move_of_step hstep with
  | bus action world hbus =>
    refine ⟨n, le_rfl, h.shows.of_isPrefix hlog rfl rfl, h.offset, fun p hp ↦ ?_⟩
    obtain ⟨k, hat, hk⟩ := h.position p hp
    exact ⟨k, hat.mono hlog, hk⟩
  | started i hfree =>
    obtain rfl : i = 0 := of_decide_eq_true halone
    obtain ⟨c, hc, hcn, -⟩ := h.shows.stored
    refine ⟨n, le_rfl, h.shows.of_isPrefix List.prefix_rfl rfl rfl, fun p hp ↦ ?_, fun p hp ↦ ?_⟩
    · have hp' : some ⟨s.stored, .idle none⟩ = some p := by simpa using hp
      exact Option.some_inj.1 hp' ▸ rfl
    · have hp' : some ⟨s.stored, .idle none⟩ = some p := by simpa using hp
      obtain rfl := Option.some_inj.1 hp'
      rw [hc]
      exact ⟨c, .idle none (hcn.trans h.shows.le_length), hcn⟩
  | projected i p action w hp hown hmove =>
    obtain ⟨rfl, hresumes⟩ := of_decide_eq_true halone
    exact h.project hp hresumes hmove

theorem run {as : List Action} (h : s.Alone bus engine n) (has : ∀ a ∈ as, a.alone = true)
    (hrun : Transition.run (Deployment.step bus engine) s as = some t) :
    ∃ m, n ≤ m ∧ t.Alone bus engine m := by
  refine run_invariant_of_forall (I := fun t ↦ ∃ m, n ≤ m ∧ t.Alone bus engine m)
    (fun s' a t' hs ha hstep ↦ ?_) ⟨n, le_rfl, h⟩ has hrun
  obtain ⟨m, hnm, hs'⟩ := hs
  obtain ⟨m', hmm', ht'⟩ := hs'.step ha hstep
  exact ⟨m', hnm.trans hmm', ht'⟩

end Alone

/-- **A process that polls shows a beginning of the log, and never a shorter one than before.**  The
bus may be at work next to it in any way, and the process may be killed and started again at any
commit.

What is shown are the columns a reader of the orders looks at.  `updated_at` is left out (`erase`):
a row that is applied again after a crash gets the time of the second attempt. -/
theorem polling_shows_prefix (bus : SqliteBus) (engine : SqlEngine) (as bs : List Action)
    (s t : Deployment) (hs : run (step bus engine) initial as = some s)
    (ht : run (step bus engine) s bs = some t) (has : ∀ a ∈ as, a.alone = true)
    (hbs : ∀ b ∈ bs, b.alone = true) :
    s.log <+: t.log ∧ ∃ n m, n ≤ m ∧ s.Shows bus engine n ∧ t.Shows bus engine m := by
  obtain ⟨n, -, hn⟩ := (alone_initial bus engine).run has hs
  obtain ⟨m, hnm, hm⟩ := hn.run hbs ht
  exact ⟨log_isPrefix_of_run ht, n, m, hnm, hn.shows, hm.shows⟩

/-- An event is applied, and the process is killed before the checkpoint. -/
def killedRun : List Action :=
  [.start 0, .bus (.publish orderCreated 0), .project 0 .rebuild, .project 0 (.next 1),
    .project 0 .restart]

/-- It is applied again, and so is the next one. -/
def resumedRun : List Action :=
  [.bus (.publish itemAdded 2), .project 0 .rebuild, .project 0 (.next 3), .project 0 (.save 4),
    .project 0 (.next 5)]

/-- The tables show one event at first, and two in the end. -/
theorem killedRun_shows_prefix :
    ∃ s t, run (step OrderProjection.ordersBus .plain) initial killedRun =
    some s ∧ run (step OrderProjection.ordersBus .plain) s resumedRun = some t ∧
    s.applied = [orderCreated] ∧ t.applied = [itemAdded, orderCreated, orderCreated] ∧
    ∃ n m, n ≤ m ∧ s.Shows OrderProjection.ordersBus .plain n ∧
      t.Shows OrderProjection.ordersBus .plain m := by
  have hkilled : (run (step OrderProjection.ordersBus .plain) initial killedRun).map
      Deployment.applied = some [orderCreated] := by
    decide +kernel
  have hends : (run (step OrderProjection.ordersBus .plain) initial (killedRun ++ resumedRun)).map
      Deployment.applied = some [itemAdded, orderCreated, orderCreated] := by
    decide +kernel
  obtain ⟨s, hs, hbefore⟩ := Option.map_eq_some_iff.1 hkilled
  obtain ⟨t, ht, hafter⟩ := Option.map_eq_some_iff.1 hends
  rw [run_append, hs, Option.bind_some] at ht
  obtain ⟨-, hshows⟩ :=
    polling_shows_prefix OrderProjection.ordersBus .plain killedRun resumedRun s t
    hs ht (by decide) (by decide)
  exact ⟨s, t, hs, ht, hbefore, hafter, hshows⟩

end Deployment

end PhenoEvents
