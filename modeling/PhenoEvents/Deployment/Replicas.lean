import PhenoEvents.Deployment.Polling
import PhenoEvents.Library.Replicas
import PhenoEvents.Projection.LivePath

/-!
# Processes that share the read model

Several processes poll, each at its own place, and all of them write to one read model.  A process
that is behind the others takes the tables back: a cancelled order opens again, an item goes back to
an old quantity, and a total is computed from lines of different times.  Nobody notices, and nobody
has to: when all of them have come to the end of the log, the tables are what one process alone
would have made of it (`processes_converge`).

This needs one thing the code does not see to.  A process that is killed starts again at the
checkpoint, which is the place of whoever wrote it last.  If that is ahead of where the process was,
the entries in between are skipped, and an old entry it has written may stay for good.  `paced`
rules this out, and `skippedRun` is a run where it happens.

The argument is the one of `Replicas`: the processes are its consumers (`Consumes`), and every step
is one of its steps (`step_of_step`).

## What is compared

The tables in the end and those of a replay have the same rows in the same order, with the same
values in all columns but `updated_at`, which is the time of the writing and is left out of the
comparison (`erase`).  That each column shows the last event that writes it is the library's result;
for the total of an order this is not enough, as it is computed from the lines.  Every item that is
written computes it anew, so it is the sum of the lines there are as soon as the order has got an
item since it was created; and in the log an item comes after its order.
-/

set_option autoImplicit false

namespace PhenoEvents

open Except Resume Transition OrderEvent ReadModel

/-! ## The same rows in the same order

Where a row is depends on when it was first written, and an entry is reached for the first time in
the order of the log. -/

namespace ReadModel

variable {engine : SqlEngine} {now now' : Instant} {rm rm' new new' : ReadModel}
  {event : OrderEvent}

theorem sameKeys_updateTotal {o : String} (h : rm.updateTotal engine now o = .ok new) :
    SameKeys new rm := by
  rcases updateTotal_eq_ok_iff.1 h with ⟨-, rfl⟩ | ⟨-, total, -, rfl⟩
  · exact SameKeys.refl _
  · exact ⟨KeyedTable.keys_updateWhere _ fun r _ ↦ r.orderId_withTotal now total, rfl⟩

theorem sameKeys_writeStatus (o st : String) : SameKeys (rm.writeStatus now o st) rm :=
  ⟨KeyedTable.keys_updateWhere _ fun r _ ↦ r.orderId_withStatus now st, rfl⟩

theorem SameKeys.symm (h : SameKeys rm rm') : SameKeys rm' rm := ⟨h.orders.symm, h.items.symm⟩

/-- Where an event leaves the rows depends only on where they were. -/
theorem SameKeys.write (hkeys : SameKeys rm rm') (h : rm.write engine now event = .ok new)
    (h' : rm'.write engine now' event = .ok new') : SameKeys new new' := by
  cases event with
  | created o c st =>
    obtain rfl := Except.ok.inj h
    obtain rfl := Except.ok.inj h'
    exact ⟨KeyedTable.keys_upsert_congr (fun r _ ↦ r.orderId_recreated now c st)
      (fun r _ ↦ r.orderId_recreated now' c st) hkeys.orders rfl, hkeys.items⟩
  | itemAdded o sku q p =>
    have hitem : SameKeys (rm.writeItem now o sku q p) (rm'.writeItem now' o sku q p) :=
      ⟨hkeys.orders, KeyedTable.keys_upsert_congr (fun i _ ↦ i.key_replaced now q p)
        (fun i _ ↦ i.key_replaced now' q p) hkeys.items rfl⟩
    exact ((sameKeys_updateTotal h).trans hitem).trans (sameKeys_updateTotal h').symm
  | cancelled o =>
    obtain rfl := Except.ok.inj h
    obtain rfl := Except.ok.inj h'
    exact ((sameKeys_writeStatus o "cancelled").trans hkeys).trans
      (sameKeys_writeStatus o "cancelled").symm
  | other =>
    obtain rfl := Except.ok.inj h
    obtain rfl := Except.ok.inj h'
    exact hkeys

end ReadModel

/-! ## The processes as consumers

The place of a process is its position, and the checkpoint is the position of the one that wrote it.
-/

/-- How many entries the process is done with. -/
def Process.position (p : Process) : ℕ :=
  match p.call with
  | .checkpointing offset _ => offset.toNat
  | _ => p.offset.toNat

theorem Process.At.position {log : List (ℤ × String)} {p : Process} {n : ℕ} (h : p.At log n) :
    p.position = n := by
  cases h with
  | idle | replaying => exact Int.toNat_natCast n
  | checkpointing => exact Int.toNat_natCast _

namespace Deployment

variable {bus : SqliteBus} {engine : SqlEngine} {s t : Deployment} {action : Action}
  {r r' : Replicas.State ℕ (ℤ × String)}

/-- No process is replaced while the checkpoint is ahead of it.  Then the next process does not skip
an entry that the one before it was going to write. -/
def paced (s : Deployment) : Action → Bool
  | .project i .restart => (s.processes i).all fun p ↦ s.stored ≤ p.position
  | action => action.polls

theorem polls_of_paced (h : s.paced action = true) : action.polls = true := by
  rw [paced.eq_def] at h
  split at h
  · rfl
  · exact h

theorem stored_le_of_paced {i : ℕ} (h : s.paced (.project i .restart) = true) {p : Process}
    (hp : s.processes i = some p) : s.stored ≤ p.position := by
  rw [paced, hp, Option.all_some] at h
  exact of_decide_eq_true h

/-- Whom a step starts. -/
def Action.started : Action → Option ℕ
  | .start i => some i
  | _ => none

/-- The processes are the consumers, and the offset of one of them is the checkpoint.  So as long as
there are processes, the next one to start begins at the place of one that is there. -/
structure Consumes (s : Deployment) (r : Replicas.State ℕ (ℤ × String)) : Prop where
  log : r.log = s.log
  position : r.position = fun i ↦ (s.processes i).map Process.position
  place : ∀ i p, s.processes i = some p → p.At s.log p.position
  stored : ∃ k : ℕ, s.stored = k ∧ k ≤ r.high
  owner : (∃ i p, s.processes i = some p) → ∃ i p, s.processes i = some p ∧ p.offset = s.stored

theorem consumes_initial : initial.Consumes .initial where
  log := rfl
  position := rfl
  place _ _ hp := by cases hp
  stored := ⟨0, rfl, Nat.le_refl 0⟩
  owner := fun ⟨_, _, hp⟩ ↦ by cases hp

/-- What a step writes to the read model. -/
inductive Writes (bus : SqliteBus) (engine : SqlEngine) (s t : Deployment)
    (r r' : Replicas.State ℕ (ℤ × String)) : Prop
  | nothing (hrm : t.readModel = s.readModel) (hpast : r'.past = r.past) (hhigh : r'.high = r.high)
      (hlog : r.log <+: r'.log)
  | entry (n : ℕ) (row : ℤ × String) (event : OrderEvent) (now : Instant) (hn : n ≤ r.high)
      (hrow : r.log[n]? = some row) (hread : readText bus.serde row.2 = .ok event)
      (hrm : s.readModel.write engine now event = .ok t.readModel) (hpast : r'.past = row :: r.past)
      (hhigh : r'.high = max r.high (n + 1)) (hlog : r'.log = r.log)

/-- A process is at another place. -/
theorem Consumes.moved (h : s.Consumes r) {i n : ℕ} {p : Process} {past : List (ℤ × String)}
    {high : ℕ}
    (hlog : t.log = s.log) (hprocesses : t.processes = Function.update s.processes i (some p))
    (hat : p.At s.log n) (hstored : ∃ k : ℕ, t.stored = k ∧ k ≤ high)
    (howner : ∃ j q, t.processes j = some q ∧ q.offset = t.stored) :
    t.Consumes ⟨r.log, past, Function.update r.position i (some n), high⟩ := by
  refine ⟨h.log.trans hlog.symm, ?_, fun j q hq ↦ ?_, hstored, fun _ ↦ howner⟩
  · dsimp only
    rw [h.position, hprocesses]
    have hcomp := Function.comp_update (Option.map Process.position) s.processes i (some p)
    rw [Option.map_some, hat.position] at hcomp
    exact hcomp.symm
  · rw [hprocesses, Function.update_apply] at hq
    rw [hlog]
    split at hq
    · obtain rfl := Option.some_inj.1 hq
      rw [hat.position]
      exact hat
    · exact h.place j q hq

/-- The checkpoint has an owner after a step of a process that leaves the checkpoint as it was. -/
theorem Consumes.owner_absorb (h : s.Consumes r) {i : ℕ} {p : Process} (hp : s.processes i = some p)
    {w : OrderProjection.World} (hstored : w.stored = s.stored)
    (hoffset : p.offset = s.stored → w.projection.offset = w.stored) :
    ∃ j q, (s.absorb i w).processes j = some q ∧ q.offset = w.stored := by
  obtain ⟨j, q, hq, howner⟩ := h.owner ⟨i, p, hp⟩
  by_cases hj : j = i
  · subst hj
    obtain rfl := Option.some_inj.1 (hp.symm.trans hq)
    exact ⟨j, _, processes_absorb_self s j w, hoffset howner⟩
  · exact ⟨j, q, (processes_absorb_of_ne s hj w).trans hq, howner.trans hstored.symm⟩

/-- **A step of a process is a step of its consumer.** -/
theorem step_of_project (h : s.Consumes r) (hgood : Replicas.Good r) {i : ℕ} {p : Process}
    (hp : s.processes i = some p) {action : OrderProjection.Action}
    (hpaced : s.paced (.project i action) = true) {w : OrderProjection.World}
    (hmove : (s.projector p).step bus engine action = some w) :
    ∃ r', Replicas.Step r r' ∧ (s.absorb i w).Consumes r' ∧
      Writes bus engine s (s.absorb i w) r r' := by
  have hat := h.place i p hp
  have hpos : r.position i = some p.position := by
    rw [h.position]
    exact congrArg (Option.map Process.position) hp
  have hhigh : p.position ≤ r.high := hgood.le_high i _ hpos
  obtain ⟨k, hk, hkhigh⟩ := h.stored
  have hklog : k ≤ s.log.length := h.log ▸ hkhigh.trans hgood.high_le
  have hresumes : action.resumes = true := polls_of_paced hpaced
  obtain ⟨m, hpoll, hat', hoffset⟩ := poll_of_step hat hresumes ⟨k, hk, hklog⟩ hmove
  have hback : m ≤ p.position → ∀ m', r.position i = some m' → m ≤ m' := by
    intro hle m' hm'
    exact Option.some_inj.1 (hpos.symm.trans hm') ▸ hle
  cases hpoll with
  | pauses m hm hrm happlied hstored =>
    refine ⟨_, .place i m (hm.trans hhigh) (hback hm), ?_, .nothing hrm rfl rfl List.prefix_rfl⟩
    exact h.moved rfl rfl hat' ⟨k, hstored.trans hk, hkhigh⟩ (h.owner_absorb hp hstored hoffset)
  | restarts m haction hm hrm happlied hstored =>
    -- `paced` says that the checkpoint is not ahead of the process that is replaced
    subst haction
    have hle : s.stored ≤ p.position := stored_le_of_paced hpaced hp
    have hm' : m ≤ p.position := by omega
    refine ⟨_, .place i m (hm'.trans hhigh) (hback hm'), ?_, .nothing hrm rfl rfl List.prefix_rfl⟩
    exact h.moved rfl rfl hat' ⟨k, hstored.trans hk, hkhigh⟩ (h.owner_absorb hp hstored hoffset)
  | saves hoff hrm happlied hstored =>
    -- the process stays where it is, and becomes the owner of the checkpoint
    refine ⟨_, .place i p.position hhigh (hback le_rfl), ?_, .nothing hrm rfl rfl List.prefix_rfl⟩
    refine h.moved rfl rfl hat' ⟨p.position, hstored, hhigh⟩ ⟨i, _, processes_absorb_self s i w, ?_⟩
    exact hoff.trans hstored.symm
  | applies now text envelope hoff hrow hdecode hrm happlied hstored =>
    have hrow' : r.log[p.position]? = some ((p.position : ℤ) + 1, text) := h.log ▸ hrow
    rw [applyOrderEvent_eq, bind_eq_ok_iff] at hrm
    obtain ⟨event, hread, hwrite⟩ := hrm
    refine ⟨_, .write i p.position _ hpos hrow', ?_, ?_⟩
    · exact h.moved rfl rfl hat' ⟨k, hstored.trans hk, hkhigh.trans (le_max_left ..)⟩
        (h.owner_absorb hp hstored hoffset)
    · refine .entry p.position _ event now hhigh hrow' ?_ hwrite rfl rfl rfl
      rw [readText, hdecode]
      exact hread

/-- **Every step is a step of the consumers.**  Publishing makes the log grow, applying a row is a
write, and a process that starts or falls back is placed. -/
theorem step_of_step (h : s.Consumes r) (hgood : Replicas.Good r) (hpaced : s.paced action = true)
    (hstep : s.step bus engine action = some t) :
    ∃ r', Replicas.Step r r' ∧ t.Consumes r' ∧ Writes bus engine s t r r' := by
  have hlog := log_isPrefix (move_of_step hstep)
  cases move_of_step hstep with
  | bus action world hbus =>
    obtain ⟨entries, hentries⟩ := hlog
    refine ⟨_, .grow entries, ?_, .nothing rfl rfl rfl (List.prefix_append ..)⟩
    refine ⟨?_, h.position, fun i p hp ↦ (h.place i p hp).mono ⟨entries, hentries⟩,
      h.stored, h.owner⟩
    rw [← hentries, ← h.log]
  | started i hfree =>
    obtain ⟨k, hk, hkhigh⟩ := h.stored
    have hklog : k ≤ s.log.length := h.log ▸ hkhigh.trans hgood.high_le
    have hat : Process.At s.log ⟨s.stored, .idle none⟩ k := by
      rw [hk]
      exact .idle none hklog
    refine ⟨_, .place i k hkhigh fun m hm ↦ ?_, ?_, .nothing rfl rfl rfl List.prefix_rfl⟩
    · have hnone : r.position i = none := by
        rw [h.position]
        exact congrArg (Option.map Process.position) hfree
      cases hnone.symm.trans hm
    · exact h.moved rfl rfl hat ⟨k, hk, hkhigh⟩ ⟨i, _, Function.update_self .., rfl⟩
  | projected i p action w hp hown hmove => exact step_of_project h hgood hp hpaced hmove

/-! ## The tables

The read model is a replay of all that was written, in the order of the writing, which `past` keeps.
-/

/-- The tables are what the consumers have written, in the order of the log. -/
structure Replicated (bus : SqliteBus) (engine : SqlEngine) (s : Deployment)
    (r : Replicas.State ℕ (ℤ × String)) : Prop where
  consumes : s.Consumes r
  good : Replicas.Good r
  describes : s.readModel.Describes engine (eventsOf bus.serde r.past)
  keys : ∀ rm, replay (applyText bus.serde engine) .empty r.reached = .ok rm →
    SameKeys s.readModel rm

theorem replicated_initial (bus : SqliteBus) (engine : SqlEngine) :
    initial.Replicated bus engine .initial where
  consumes := consumes_initial
  good := Replicas.good_initial
  describes := describes_empty engine
  keys rm hrm := by
    obtain rfl := Except.ok.inj hrm
    exact SameKeys.refl _

/-- An entry that has been reached is there already, and the next one is put where the replay puts
it. -/
theorem Replicated.keys_of_writes (h : s.Replicated bus engine r)
    (hwrites : Writes bus engine s t r r')
    (rm : ReadModel) (hrm : replay (applyText bus.serde engine) .empty r'.reached = .ok rm) :
    SameKeys t.readModel rm := by
  cases hwrites with
  | nothing hsame hpast hhigh hlog =>
    obtain ⟨later, hlater⟩ := hlog
    have hreached : r'.reached = r.reached := by
      rw [Replicas.State.reached, hhigh, ← hlater]
      exact List.take_append_of_le_length h.good.high_le
    rw [hsame]
    exact h.keys rm (hreached ▸ hrm)
  | entry n row event now hn hrow hread hwrite hpast hhigh hlog =>
    rcases hn.lt_or_eq with hlt | rfl
    · have hreached : r'.reached = r.reached := by
        rw [Replicas.State.reached, hhigh, hlog, max_eq_left hlt]
        rfl
      have hmem : event ∈ eventsOf bus.serde r.past := by
        refine List.mem_filterMap.2 ⟨row, h.good.seen row ?_, by rw [hread]; rfl⟩
        exact List.mem_of_getElem? ((List.getElem?_take_of_lt hlt).trans hrow)
      exact (h.describes.sameKeys_write hmem hwrite).trans (h.keys rm (hreached ▸ hrm))
    · obtain ⟨hlt, hget⟩ := List.getElem?_eq_some_iff.1 hrow
      have hreached : r'.reached = r.reached ++ [row] := by
        rw [Replicas.State.reached, hhigh, hlog, max_eq_right (Nat.le_succ _), ← hget]
        exact (List.take_append_getElem hlt).symm
      rw [hreached, replay_concat, bind_eq_ok_iff] at hrm
      obtain ⟨mid, hmid, hlast⟩ := hrm
      rw [applyText_eq, hread] at hlast
      exact (h.keys mid hmid).write hwrite hlast

theorem Replicated.step (h : s.Replicated bus engine r) (hpaced : s.paced action = true)
    (hstep : s.step bus engine action = some t) : ∃ r', t.Replicated bus engine r' := by
  obtain ⟨r', hr, hconsumes, hwrites⟩ := step_of_step h.consumes h.good hpaced hstep
  refine ⟨r', hconsumes, h.good.step hr, ?_, h.keys_of_writes hwrites⟩
  cases hwrites with
  | nothing hsame hpast =>
    rw [hsame, hpast]
    exact h.describes
  | entry n row event now hn hrow hread hwrite hpast =>
    rw [hpast, eventsOf_cons hread]
    exact h.describes.write hwrite

theorem exists_replicated {as : List Action}
    (hpaced : StepsMeet (step bus engine) (fun s a ↦ s.paced a = true) initial as)
    (hrun : run (step bus engine) initial as = some s) : ∃ r, s.Replicated bus engine r :=
  hpaced.invariant (I := fun s ↦ ∃ r, s.Replicated bus engine r)
    (fun _ _ _ ⟨_, hr⟩ ha hstep ↦ hr.step ha hstep) ⟨_, replicated_initial bus engine⟩
    (visits_of_run hrun)

/-! ## At the end

When everybody has come to the end, `past` has every entry of the log, some of them several times,
and for each column the last one that writes it is the last of the log. -/

theorem mem_eventsOf_iff {serde : Serde} {rows : List (ℤ × String)} {event : OrderEvent} :
    event ∈ eventsOf serde rows ↔ ∃ row ∈ rows, (readText serde row.2).toOption = some event :=
  List.mem_filterMap

/-- A column shows what the last event that writes it has written. -/
theorem findSome?_eventsOf {serde : Serde} {β : Type} (f : OrderEvent → Option β)
    (rows : List (ℤ × String)) :
    (eventsOf serde rows).findSome? f =
      rows.findSome? fun row ↦ (readText serde row.2).toOption.bind f := by
  induction rows with
  | nil => rfl
  | cons row rows ih =>
    rw [List.findSome?_cons, ← ih, eventsOf, List.filterMap_cons]
    cases (readText serde row.2).toOption <;> rfl

/-- An order that has got an item has got it after it was created, in whatever order the entries
were written. -/
theorem totalled_past_iff {serde : Serde} (h : Replicas.Good r) (hreached : r.reached = r.log)
    (hpreceded : ItemsPreceded (eventsOf serde r.log)) (o : String) :
    Totalled o (eventsOf serde r.past) ↔ ∃ e ∈ eventsOf serde r.log, addsItem o e = true := by
  constructor
  · intro htotalled
    obtain ⟨e, he, hadds⟩ := htotalled.exists_addsItem
    obtain ⟨row, hrow, hread⟩ := mem_eventsOf_iff.1 he
    obtain ⟨newer, older, hpast⟩ := List.append_of_mem hrow
    obtain ⟨k, -, hk, -⟩ := h.ordered newer row older hpast
    exact ⟨e, mem_eventsOf_iff.2 ⟨row, List.mem_of_getElem? hk, hread⟩, hadds⟩
  · rintro ⟨e, he, hadds⟩
    obtain ⟨sku, q, p, rfl⟩ := exists_itemAdded_of_addsItem hadds
    obtain ⟨row, hrow, hread⟩ := mem_eventsOf_iff.1 he
    obtain ⟨newer, older, hpast⟩ := List.append_of_mem (h.seen row (hreached ▸ hrow))
    -- the order was created in front of the item, and that had been written
    obtain ⟨k, -, hk, hfront⟩ := h.ordered newer row older hpast
    obtain ⟨hlt, rfl⟩ := List.getElem?_eq_some_iff.1 hk
    have hevents : ∀ newest oldest : List (ℤ × String),
        eventsOf serde (newest ++ r.log[k] :: oldest) =
          eventsOf serde newest ++ .itemAdded o sku q p :: eventsOf serde oldest := by
      intro newest oldest
      rw [eventsOf_append, eventsOf, eventsOf, List.filterMap_cons, hread]
      rfl
    obtain ⟨c, st, hmem⟩ := hpreceded (eventsOf serde (r.log.take k)) o sku q p
      (eventsOf serde (r.log.drop (k + 1))) (by
        rw [← hevents, ← List.drop_eq_getElem_cons hlt, List.take_append_drop])
    obtain ⟨row', hrow', hread'⟩ := mem_eventsOf_iff.1 hmem
    rw [hpast, hevents]
    refine ⟨eventsOf serde newer ++ [.itemAdded o sku q p], eventsOf serde older, by simp, ?_,
      c, st,
      ?_⟩
    · exact ⟨_, List.mem_append_right _ (List.mem_singleton_self _), hadds⟩
    · exact mem_eventsOf_iff.2 ⟨row', hfront row' hrow', hread'⟩

/-- When all are at the end, the same things were written last as by one consumer alone. -/
theorem sameLast_of_good {serde : Serde} (h : Replicas.Good r) {i : ℕ}
    (hi : r.position i = some r.log.length) (hall : ∀ j n, r.position j = some n → n = r.log.length)
    (hpreceded : ItemsPreceded (eventsOf serde r.log)) :
    SameLast (eventsOf serde r.past) (eventsOf serde r.log).reverse := by
  have hcolumn : ∀ {β : Type} (f : OrderEvent → Option β),
      (eventsOf serde r.past).findSome? f = (eventsOf serde r.log).reverse.findSome? f := by
    intro β f
    rw [eventsOf, eventsOf, ← List.filterMap_reverse]
    exact (findSome?_eventsOf f _).trans ((h.findSome?_past hi hall _).trans
      (findSome?_eventsOf f _).symm)
  refine ⟨fun o ↦ hcolumn _, fun o ↦ hcolumn _, fun o sku ↦ hcolumn _, fun o ↦ ?_⟩
  rw [totalled_iff_of_preceded hpreceded]
  exact totalled_past_iff h (h.reached_eq_log hi) hpreceded o

/-- **Processes that share the read model come to what one process alone would have come to.**  They
may have read the log at any pace, overtaken one another, failed, and been killed, as long as none
was replaced while the checkpoint was ahead of it.

The two read models agree in everything but `updated_at` (`erase`), which holds the clock of the
process that was the last to touch a row. -/
theorem processes_converge (bus : SqliteBus) (engine : SqlEngine) (as : List Action)
    (s : Deployment) (rm : ReadModel) (hrun : run (step bus engine) initial as = some s)
    (hpaced : StepsMeet (step bus engine) (fun s a ↦ s.paced a = true) initial as)
    (hlive : ∃ i p, s.processes i = some p)
    (hend : ∀ i p, s.processes i = some p → p.offset = s.log.length)
    (hrm : replay (applyText bus.serde engine) .empty s.log = .ok rm)
    (hpreceded : ItemsPreceded (eventsOf bus.serde s.log)) :
    s.readModel.erase = rm.erase ∧ s.stored = s.log.length := by
  obtain ⟨r, hr⟩ := exists_replicated hpaced hrun
  obtain ⟨i, p, hp, howner⟩ := hr.consumes.owner hlive
  refine ⟨?_, howner.symm.trans (hend i p hp)⟩
  have hposition : ∀ j q, s.processes j = some q → q.position = s.log.length := by
    intro j q hq
    have hat := hr.consumes.place j q hq
    have hoffset := hat.offset.1
    have hle := hat.le_length
    have hat_end := hend j q hq
    omega
  have hi : r.position i = some r.log.length := by
    rw [hr.consumes.position, hr.consumes.log, ← hposition i p hp]
    exact congrArg (Option.map Process.position) hp
  have hall : ∀ j n, r.position j = some n → n = r.log.length := by
    intro j n hn
    rw [hr.consumes.position, Option.map_eq_some_iff] at hn
    obtain ⟨q, hq, rfl⟩ := hn
    rw [hr.consumes.log]
    exact hposition j q hq
  rw [← hr.consumes.log] at hrm hpreceded
  have halone : rm.Describes engine (eventsOf bus.serde r.log).reverse := by
    have hempty := (describes_empty engine).replay hrm
    rwa [List.append_nil] at hempty
  refine hr.describes.erase_eq halone (hr.keys rm ?_) (sameLast_of_good hr.good hi hall hpreceded)
  rw [hr.good.reached_eq_log hi]
  exact hrm

/-- The second process is ahead, is killed, and starts again where the first one is. -/
def overtakenRun : List Action :=
  [.bus (.publish orderCreated 0), .bus (.publish itemAdded 1), .start 0, .start 1,
    .project 0 .rebuild, .project 1 .rebuild, .project 1 (.next 2), .project 1 (.save 3),
    .project 1 (.next 4), .project 0 (.next 5), .project 0 (.save 6), .project 1 .restart,
    .project 1 .rebuild, .project 0 (.next 7), .project 0 (.save 8), .project 1 (.next 9),
    .project 1 (.save 10)]

/-- Who has not been started is not there. -/
theorem processes_eq_none {as : List Action} {i : ℕ} (hs : s.processes i = none)
    (has : ∀ a ∈ as, a.started ≠ some i) (hrun : run (step bus engine) s as = some t) :
    t.processes i = none := by
  refine run_invariant_of_forall (I := fun t ↦ t.processes i = none)
    (K := fun a ↦ a.started ≠ some i) (fun s a t hs ha hstep ↦ ?_) hs has hrun
  cases move_of_step hstep with
  | bus => exact hs
  | started j hfree =>
    have hj : i ≠ j := fun hij ↦ ha (hij ▸ rfl)
    exact (Function.update_of_ne hj ..).trans hs
  | projected j p action w hp =>
    have hj : i ≠ j := by
      rintro rfl
      cases hp.symm.trans hs
    exact (processes_absorb_of_ne s hj w).trans hs

theorem itemsPreceded_order (o c st sku : String) (q p : Int64) :
    ItemsPreceded [.created o c st, .itemAdded o sku q p] := by
  intro before o' sku' q' p' later h
  rcases before with - | ⟨first, - | ⟨second, before⟩⟩
  · cases h
  · obtain ⟨rfl, hrest⟩ := List.cons.inj h
    obtain ⟨hsecond, -⟩ := List.cons.inj hrest
    obtain ⟨rfl, -⟩ := OrderEvent.itemAdded.inj hsecond
    exact ⟨c, st, List.mem_singleton_self _⟩
  · cases before <;> cases h

/-- The outbox in the end. -/
def orderLog : List (ℤ × String) :=
  [(1, OrderProjection.orderCreatedText), (2, OrderProjection.itemAddedText)]

/-- Both events come several times. -/
theorem overtakenRun_converges : ∃ s rm,
    run (step OrderProjection.ordersBus .plain) initial overtakenRun = some s ∧
    replay (applyText OrderProjection.ordersBus.serde .plain) .empty s.log = .ok rm ∧
    s.applied.length = 5 ∧ s.readModel.erase = rm.erase ∧ s.stored = s.log.length := by
  have hruns : (run (step OrderProjection.ordersBus .plain) initial overtakenRun).map (fun s ↦
      (s.processes 0, s.processes 1, s.applied.length, s.log)) =
      some (some ⟨2, .replaying []⟩, some ⟨2, .replaying []⟩, 5, orderLog) := by
    decide +kernel
  obtain ⟨s, hs, hend⟩ := Option.map_eq_some_iff.1 hruns
  obtain ⟨hzero, hend⟩ := Prod.mk.inj hend
  obtain ⟨hone, hend⟩ := Prod.mk.inj hend
  obtain ⟨happlied, hlog⟩ := Prod.mk.inj hend
  have hevents : eventsOf OrderProjection.ordersBus.serde s.log =
      [.created "ord_1" "cust_1" "open", .itemAdded "ord_1" "sku_1" 2 500] := by
    rw [hlog]
    decide +kernel
  obtain ⟨rm, hrm⟩ : ∃ rm, replay (applyText OrderProjection.ordersBus.serde .plain) .empty s.log =
      .ok rm := by
    have hok : (replay (applyText OrderProjection.ordersBus.serde .plain) .empty orderLog).isOk =
        true := by
      decide +kernel
    rw [hlog]
    cases hreplay : replay (applyText OrderProjection.ordersBus.serde .plain) .empty orderLog with
    | ok rm => exact ⟨rm, rfl⟩
    | error error =>
      rw [hreplay] at hok
      cases hok
  have hplaces : ∀ i p, s.processes i = some p → p.offset = s.log.length := by
    intro i p hp
    rw [hlog]
    rcases i with - | - | i
    · exact Option.some_inj.1 (hzero.symm.trans hp) ▸ rfl
    · exact Option.some_inj.1 (hone.symm.trans hp) ▸ rfl
    · have hnone := processes_eq_none (i := i + 2) rfl (by simp [overtakenRun, Action.started]) hs
      cases hnone.symm.trans hp
  obtain ⟨hmodel, hstored⟩ :=
    processes_converge OrderProjection.ordersBus .plain overtakenRun s rm hs
    (by decide +kernel) ⟨0, _, hzero⟩ hplaces hrm (hevents ▸ itemsPreceded_order _ _ _ _ _ _)
  exact ⟨s, rm, hs, hrm, happlied, hmodel, hstored⟩

/-- A process that is replaced while the checkpoint is ahead of it: it has opened a cancelled order
again, and never gets to the cancellation. -/
def skippedRun : List Action :=
  [.bus (.publish orderCreated 0), .bus (.publish OrderProjection.cancelledAsTwo 1), .start 0,
    .start 1, .project 0 .rebuild, .project 1 .rebuild, .project 1 (.next 2), .project 1 (.save 3),
    .project 1 (.next 4), .project 1 (.save 5), .project 0 (.next 6), .project 0 .restart]

example : (run (step OrderProjection.costlyBus .plain) initial skippedRun).map (fun s ↦
    ((s.processes 0).map Process.offset, (s.processes 1).map Process.offset,
      s.readModel.orders.rows.map OrderRow.status)) = some (some 2, some 2, ["open"]) := by
  decide +kernel

end Deployment

end PhenoEvents
