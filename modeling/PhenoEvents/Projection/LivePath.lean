import PhenoEvents.Bus.Conservation
import PhenoEvents.Projection.Convergence

/-!
# The live path and the rebuild path

An event can reach the read model in two ways: someone calls `apply` when it is published, or
`rebuild_from_offset` finds it in the outbox later.  On a fresh projection both come to the same,
the error at which they stop included (`rebuild_eq_live`): the outbox holds the first accepted
envelope of each id, in order, whatever the workers have done to its other columns, and the rowids
are what `apply` counts.

The offset is the number of ids as long as nothing stops them, and nothing does if the payloads can
be read and no sum overflows.  An order whose total overflows does (`overflow_stops`).

## What is here

* `StoresFirsts.decodes`: the rows of the outbox decode to the first accepted envelopes.
* `SameEnd` and `sameEnd_applyAll`: going through rows that are numbered on from the offset is
  calling `apply` on their envelopes, one after the other, up to the first error.
* `rebuild_eq_live`: for every outbox a bus can reach.  Both ways stop at the same event, with the
  same error, and leave the same tables and the same checkpoint.

What is applied live are the envelopes that were accepted as new.  A caller that also applies an
envelope that was answered with `duplicate` comes to something else, and so does one that goes on
after an error.
-/

set_option autoImplicit false

namespace PhenoEvents

open Except Resume Transition

/-! ## The texts of the outbox

What is assumed of the encoding is that an envelope which was written down can be read again. -/

/-- The rows of the outbox decode to the first accepted envelope of each id, if what `publish` has
encoded can be decoded again. -/
theorem World.StoresFirsts.decodes {bus : SqliteBus} {s : World} (h : s.StoresFirsts bus)
    (hround : ∀ e ∈ s.acceptedEnvelopes, ∀ text, bus.serde.toString e = .ok text →
      bus.serde.fromStr text = .ok e) :
    List.Forall₂ (fun e text ↦ bus.serde.fromStr text = .ok e)
      (s.acceptedEnvelopes.firsts EventEnvelope.id) (s.db.outbox.rows.map OutboxRow.envelope) := by
  have hstored : List.Forall₂ (fun e r ↦ bus.stored e = OutboxRow.stored r)
      (s.acceptedEnvelopes.firsts EventEnvelope.id) s.db.outbox.rows := by
    rw [← List.forall₂_map_right_iff, ← List.forall₂_map_left_iff, List.forall₂_eq_eq_eq]
    exact h.symm
  have haccepted : ∀ e ∈ s.acceptedEnvelopes.firsts EventEnvelope.id, e ∈ s.acceptedEnvelopes :=
    fun e he ↦ List.mem_of_mem_firsts he
  rw [List.forall₂_map_right_iff]
  refine ((List.forall₂_and_left _ _).2 ⟨haccepted, hstored⟩).imp fun e r ⟨he, hsame⟩ ↦ ?_
  exact hround e he r.envelope (congrArg Prod.snd hsame)

namespace OrderProjection

variable {serde : Serde} {engine : SqlEngine}

/-! ## One projection, two callers

The clocks of the two are not related.  They only reach the `updated_at` columns. -/

/-- Call `apply` on one envelope after the other, up to the first error.  No offset comes twice, so
the clock is a function of the offset. -/
def applyAll (engine : SqlEngine) (clock : ℤ → Instant × Instant) :
    List EventEnvelope → OrderProjection → OrderProjection × Except ProjectionError Unit
  | [], p => (p, .ok ())
  | envelope :: rest, p =>
    match apply engine (clock p.offset) envelope p with
    | (p, .error e) => (p, .error e)
    | (p, .ok ()) => applyAll engine clock rest p

/-- Two calls end alike: the same result, the same tables and the same offset.  The times in the
tables are not compared. -/
structure SameEnd (a b : OrderProjection × Except ProjectionError Unit) : Prop where
  result : a.2 = b.2
  readModel : a.1.pool.readModel.erase = b.1.pool.readModel.erase
  offset : a.1.offset = b.1.offset

/-- Applying an envelope at the same offset to the same tables. -/
theorem sameEnd_applyAtOffset {p q : OrderProjection}
    (hrm : p.pool.readModel.erase = q.pool.readModel.erase) (hoffset : p.offset = q.offset)
    (clock clock' : Instant × Instant) (envelope : EventEnvelope) (offset : ℤ) :
    SameEnd (applyAtOffset engine clock envelope offset p)
      (applyAtOffset engine clock' envelope offset q) := by
  have herase : (p.pool.readModel.applyOrderEvent engine clock.1 envelope).map ReadModel.erase =
      (q.pool.readModel.applyOrderEvent engine clock'.1 envelope).map ReadModel.erase := by
    rw [ReadModel.erase_applyOrderEvent, ReadModel.erase_applyOrderEvent, hrm]
  rw [applyAtOffset, applyAtOffset]
  cases hp : p.pool.readModel.applyOrderEvent engine clock.1 envelope with
  | error error =>
    cases hq : q.pool.readModel.applyOrderEvent engine clock'.1 envelope with
    | error error' =>
      rw [hp, hq] at herase
      obtain rfl : error = error' := Except.error.inj herase
      exact ⟨rfl, hrm, hoffset⟩
    | ok rm =>
      rw [hp, hq] at herase
      cases herase
  | ok rm =>
    cases hq : q.pool.readModel.applyOrderEvent engine clock'.1 envelope with
    | error error =>
      rw [hp, hq] at herase
      cases herase
    | ok rm' =>
      rw [hp, hq] at herase
      exact ⟨rfl, Except.ok.inj herase, rfl⟩

/-- An envelope that is applied moves the offset. -/
theorem offset_applyAtOffset {p q : OrderProjection} {clock : Instant × Instant}
    {envelope : EventEnvelope} {offset : ℤ}
    (h : applyAtOffset engine clock envelope offset p = (q, .ok ())) : q.offset = offset := by
  rw [applyAtOffset] at h
  split at h
  · cases h
  · obtain ⟨rfl, -⟩ := Prod.mk.inj h
    rfl

/-- **Rows that are numbered on from the offset are applied as `apply` would.** -/
theorem sameEnd_applyAll {envelopes : List EventEnvelope} {texts : List String}
    (hdecode : List.Forall₂ (fun e text ↦ serde.fromStr text = .ok e) envelopes texts)
    (clock clock' : ℤ → Instant × Instant) {p q : OrderProjection}
    (hrm : p.pool.readModel.erase = q.pool.readModel.erase) (hoffset : p.offset = q.offset) :
    SameEnd (rebuildRows serde engine clock (numbered p.offset texts) p)
      (applyAll engine clock' envelopes q) := by
  induction hdecode generalizing p q with
  | nil => exact ⟨rfl, hrm, hoffset⟩
  | @cons envelope text envelopes texts htext htexts ih =>
    have hstep : SameEnd (applyAtOffset engine (clock (p.offset + 1)) envelope (p.offset + 1) p)
        (apply engine (clock' q.offset) envelope q) := by
      rw [apply, ← hoffset]
      exact sameEnd_applyAtOffset hrm hoffset _ _ envelope _
    rw [numbered, rebuildRows, applyAll]
    simp only [htext]
    obtain ⟨⟨p', result⟩, hp⟩ : ∃ a, applyAtOffset engine (clock (p.offset + 1)) envelope
      (p.offset + 1) p = a := ⟨_, rfl⟩
    obtain ⟨⟨q', result'⟩, hq⟩ : ∃ b, apply engine (clock' q.offset) envelope q = b := ⟨_, rfl⟩
    rw [hp, hq] at hstep
    obtain rfl : result = result' := hstep.result
    rw [hp, hq]
    cases result with
    | error e => exact ⟨rfl, hstep.readModel, hstep.offset⟩
    | ok u =>
      have hnext : p'.offset = p.offset + 1 := offset_applyAtOffset hp
      rw [← hnext]
      exact ih hstep.readModel hstep.offset

/-! ## What the envelopes say

The rows of the log are the first envelopes under each id, so they say what these envelopes say. -/

/-- What the handlers read of the envelopes. -/
def eventsIn (envelopes : List EventEnvelope) : List OrderEvent :=
  envelopes.filterMap fun e ↦ (readEvent e).toOption

theorem readText_of_decoded {text : String} {e : EventEnvelope} (h : serde.fromStr text = .ok e) :
    ReadModel.readText serde text = readEvent e := by
  rw [ReadModel.readText, h]
  rfl

/-- Rows that decode to the envelopes say what the envelopes say. -/
theorem eventsOf_numbered {envelopes : List EventEnvelope} {texts : List String}
    (hdecode : List.Forall₂ (fun e text ↦ serde.fromStr text = .ok e) envelopes texts)
    (offset : ℤ) :
    ReadModel.eventsOf serde (numbered offset texts) = eventsIn envelopes := by
  induction hdecode generalizing offset with
  | nil => rfl
  | @cons e text envelopes texts htext _ ih =>
    rw [numbered, ReadModel.eventsOf, eventsIn, List.filterMap_cons, List.filterMap_cons,
      readText_of_decoded htext]
    cases readEvent e with
    | ok event => exact congrArg (event :: ·) (ih (offset + 1))
    | error error => exact ih (offset + 1)

/-- Rows that decode to envelopes that can be read can be read. -/
theorem exists_readText_numbered {envelopes : List EventEnvelope} {texts : List String}
    (hdecode : List.Forall₂ (fun e text ↦ serde.fromStr text = .ok e) envelopes texts) (offset : ℤ)
    (hread : ∀ e ∈ envelopes, ∃ event, readEvent e = .ok event) :
    ∀ row ∈ numbered offset texts, ∃ event, ReadModel.readText serde row.2 = .ok event := by
  induction hdecode generalizing offset with
  | nil => exact fun row hrow ↦ absurd hrow List.not_mem_nil
  | @cons e text envelopes texts htext _ ih =>
    rw [List.forall_mem_cons] at hread
    refine List.forall_mem_cons.2 ⟨?_, ih (offset + 1) hread.2⟩
    obtain ⟨event, hevent⟩ := hread.1
    exact ⟨event, (readText_of_decoded htext).trans hevent⟩

/-- **Rebuilding a fresh projection and applying what was published come to the same.**  They return
the same result, leave the same tables, and count to the same offset, which is the number of ids if
nothing stops them; and nothing stops them if every payload can be read and no sum overflows. -/
theorem rebuild_eq_live (bus : SqliteBus) (engine : SqlEngine)
    (clock clock' : ℤ → Instant × Instant)
    (s : PhenoEvents.World) (hs : Reachable (PhenoEvents.World.step bus) .initial s)
    (hround : ∀ e ∈ s.acceptedEnvelopes, ∀ text, bus.serde.toString e = .ok text →
      bus.serde.fromStr text = .ok e) :
    let rebuilt := rebuildFromOffset bus.serde engine clock 0 (.new ⟨s.db, .empty, .empty⟩)
    let live := applyAll engine clock' (s.acceptedEnvelopes.firsts EventEnvelope.id) (.new .empty)
    rebuilt.2 = live.2 ∧
      rebuilt.1.pool.readModel.erase = live.1.pool.readModel.erase ∧
      rebuilt.1.offset = live.1.offset ∧
      (live.2 = .ok () →
        live.1.offset = (s.acceptedEnvelopes.map EventEnvelope.id).toFinset.card) ∧
      ((∀ e ∈ s.acceptedEnvelopes.firsts EventEnvelope.id, ∃ event, readEvent e = .ok event) →
        ReadModel.SumsFit engine .empty (eventsIn (s.acceptedEnvelopes.firsts EventEnvelope.id)) →
        live.2 = .ok ()) := by
  intro rebuilt live
  have hdecode := (PhenoEvents.World.storesFirsts_of_reachable hs).decodes hround
  let texts := s.db.outbox.rows.map OutboxRow.envelope
  have hrebuilt : rebuilt =
      rebuildRows bus.serde engine clock (numbered 0 texts) (.new ⟨s.db, .empty, .empty⟩) := by
    show rebuildRows bus.serde engine clock (after 0 (Tables.log ⟨s.db, .empty, .empty⟩)) _ = _
    rw [Tables.after_zero_log, Tables.log_eq_numbered]
  -- the rows are numbered from one on, and so are the calls of `apply`
  have hsame : SameEnd rebuilt live := by
    rw [hrebuilt]
    exact sameEnd_applyAll (p := .new ⟨s.db, .empty, .empty⟩) (q := .new .empty) hdecode
      clock clock'
      rfl rfl
  refine ⟨hsame.result, hsame.readModel, hsame.offset, fun hok ↦ ?_, fun hread hfits ↦ ?_⟩
  · have hend : rebuilt.2 = .ok () := hsame.result.trans hok
    rw [hrebuilt] at hend
    calc live.1.offset
        = rebuilt.1.offset := hsame.offset.symm
      _ = lastOffset 0 (numbered 0 texts) := by
        rw [hrebuilt]
        exact offset_rebuildRows clock _ _ hend
      _ = (s.acceptedEnvelopes.map EventEnvelope.id).toFinset.card := by
        rw [lastOffset_numbered, Int.zero_add, ← hdecode.length_eq, List.length_firsts]
  · rw [← eventsOf_numbered hdecode 0] at hfits
    obtain ⟨rm, hrm⟩ := ReadModel.exists_replay (exists_readText_numbered hdecode 0 hread) hfits
    have hcall : (.ok rm : Except ProjectionError ReadModel) =
        rebuilt.2.map fun _ ↦ rebuilt.1.pool.readModel.erase := by
      rw [hrebuilt]
      exact hrm.symm.trans (replay_rebuildRows clock (numbered 0 texts)
        (.new ⟨s.db, .empty, .empty⟩))
    exact hsame.result.symm.trans (map_const_eq_ok_iff.1 hcall.symm).1

/-- A cancellation under the id of `itemAdded`. -/
def cancelledAsTwo : EventEnvelope := { orderCancelled with id := ⟨2⟩ }

/-- An item for all the money there is. -/
def costlyItem (id : Uuid) (sku : String) : EventEnvelope :=
  orderEvent id "order.item_added"
    (.ofEntries [("order_id", .string "ord_1"), ("quantity", .number (.posInt 1)),
      ("sku", .string sku), ("unit_price_cents", .number (.posInt 9223372036854775807))]
      (show List.Pairwise (· < ·) ["order_id", "quantity", "sku", "unit_price_cents"] by decide))

/-- The text of `costlyItem`. -/
def costlyItemText (id sku : String) : String :=
  orderEventText id "order.item_added"
    ("\x7b\"order_id\":\"ord_1\",\"quantity\":1,\"sku\":\"" ++ sku ++
    "\",\"unit_price_cents\":9223372036854775807\x7d")

/-- A bus that knows these events. -/
def costlyBus : SqliteBus :=
  ⟨.table [(orderCreated, orderCreatedText), (itemAdded, itemAddedText),
    (cancelledAsTwo, orderEventText "2" "order.cancelled" "\x7b\"order_id\":\"ord_1\"\x7d"),
    (costlyItem ⟨3⟩ "sku_1", costlyItemText "3" "sku_1"),
    (costlyItem ⟨4⟩ "sku_2", costlyItemText "4" "sku_2")] (by decide +kernel), 3⟩

theorem costlyBus_roundTrip {e : EventEnvelope} {text : String}
    (h : costlyBus.serde.toString e = .ok text) : costlyBus.serde.fromStr text = .ok e :=
  Serde.fromStr_table (by decide +kernel) h

/-- The cancellation comes under an id that is taken, and a worker claims the first event. -/
def claimedOrderRun : List PhenoEvents.Action :=
  [.publish orderCreated 0, .publish itemAdded 1, .publish cancelledAsTwo 2, .subscribe 0,
    .work 0 (.poll 3), .work 0 (.claim 0)]

/-- Two events out of three: the third envelope came under the id of the second, and has no row. -/
theorem claimedOrderRun_live :
    ∃ s, run (PhenoEvents.World.step costlyBus) .initial claimedOrderRun =
    some s ∧
      (rebuildFromOffset costlyBus.serde .plain (fun _ ↦ (0, 0)) 0
        (.new ⟨s.db, .empty, .empty⟩)).1.offset = 2 := by
  have hrun : (run (PhenoEvents.World.step costlyBus) .initial claimedOrderRun).map (fun s ↦
      ((applyAll .plain (fun _ ↦ (1, 1)) (s.acceptedEnvelopes.firsts EventEnvelope.id)
        (.new .empty)).2, (s.acceptedEnvelopes.map EventEnvelope.id).toFinset.card)) =
      some (.ok (), 2) := by decide +kernel
  obtain ⟨s, hs, hend⟩ := Option.map_eq_some_iff.1 hrun
  obtain ⟨hlive, hcard⟩ := Prod.ext_iff.1 hend
  obtain ⟨-, -, hoffset, hcount, -⟩ := rebuild_eq_live costlyBus .plain (fun _ ↦ (0, 0))
    (fun _ ↦ (1, 1)) s ⟨_, hs⟩ fun _ _ _ ↦ costlyBus_roundTrip
  exact ⟨s, hs, hoffset.trans ((hcount hlive).trans (congrArg Nat.cast hcard))⟩

/-- Two items whose total does not fit. -/
def costlyRun : List PhenoEvents.Action :=
  [.publish orderCreated 0, .publish (costlyItem ⟨3⟩ "sku_1") 1,
    .publish (costlyItem ⟨4⟩ "sku_2") 2]

/-- The rebuild does not get to the last event, whose item makes the sum of the order too great. -/
theorem overflow_stops :
    ¬∀ (bus : SqliteBus) (engine : SqlEngine) (clock : ℤ → Instant × Instant)
      (s : PhenoEvents.World), Reachable (PhenoEvents.World.step bus) .initial s →
      (∀ e ∈ s.acceptedEnvelopes, ∃ event, readEvent e = .ok event) →
      (∀ e ∈ s.acceptedEnvelopes, ∀ text, bus.serde.toString e = .ok text →
        bus.serde.fromStr text = .ok e) →
      (rebuildFromOffset bus.serde engine clock 0 (.new ⟨s.db, .empty, .empty⟩)).1.offset =
        (s.acceptedEnvelopes.map EventEnvelope.id).toFinset.card := by
  intro h
  have hrun : (run (PhenoEvents.World.step costlyBus) .initial costlyRun).map (fun s ↦
      (s.acceptedEnvelopes.all fun e ↦ (readEvent e).toOption.isSome,
        (rebuildFromOffset costlyBus.serde .plain (fun _ ↦ (0, 0)) 0
          (.new ⟨s.db, .empty, .empty⟩)).1.offset,
        (s.acceptedEnvelopes.map EventEnvelope.id).toFinset.card)) =
      some (true, 2, 3) := by decide +kernel
  obtain ⟨s, hs, hend⟩ := Option.map_eq_some_iff.1 hrun
  obtain ⟨hread, hcounts⟩ := Prod.ext_iff.1 hend
  obtain ⟨hoffset, hcard⟩ := Prod.ext_iff.1 hcounts
  have hclaim := h costlyBus .plain (fun _ ↦ (0, 0)) s ⟨_, hs⟩ (fun e he ↦ ?_)
    fun _ _ _ ↦ costlyBus_roundTrip
  · have hcounted : (2 : ℤ) = (3 : ℕ) :=
      hoffset.symm.trans (hclaim.trans (congrArg Nat.cast hcard))
    exact absurd hcounted (by decide)
  · have hsome := List.all_eq_true.1 hread e he
    cases hevent : readEvent e with
    | ok event => exact ⟨event, rfl⟩
    | error error =>
      rw [hevent] at hsome
      cases hsome

end OrderProjection

end PhenoEvents
