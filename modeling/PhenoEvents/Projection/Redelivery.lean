import PhenoEvents.Projection.History

/-!
# Redelivered events

An envelope that is applied again writes what it wrote the first time, over whatever came since.
`StillHolds` says of an event and a history that nothing came since that matters, and
`redelivery_iff` that the read model is left alone exactly then.  `cancelledRun` is an order that is
created and cancelled; a late duplicate of the first envelope opens it again.

## How it goes

* For each statement there is the exact condition under which it changes nothing: the row is there,
  and the columns it sets are what it sets them to.
* `Keeps` is the same for an event, on a read model without its times.  An item has to leave two
  tables alone, or to be refused by SQLite, which leaves them alone as well.
* `Describes.keeps_iff` turns a condition on the tables into one on the history.
* `redelivery_iff` puts that together for every reachable state.  Nothing is assumed about how often
  or by whom the envelope was applied before.

An item that comes again may also do some good: it computes the total of its order, which may have
been wrong.  This is a change, so `StillHolds` excludes it.
-/

set_option autoImplicit false

namespace PhenoEvents

open Except Transition OrderEvent

namespace ReadModel

variable {engine : SqlEngine} {now : Instant} {rm rm' : ReadModel} {o : String}

/-! ## Writes that change nothing

An `UPSERT` that changes nothing finds its row as it would leave it; an `UPDATE` may also find none.
-/

theorem writeOrder_eq_self_iff (c st : String) :
    rm.writeOrder now o c st = rm ↔
      ∃ row, rm.orders.lookup o = some row ∧ row.recreated now c st = row := by
  have horders : (rm.writeOrder now o c st).orders = rm.orders ↔
      ∃ row, rm.orders.lookup o = some row ∧ row.recreated now c st = row :=
    rm.orders.upsert_eq_self_iff ⟨o, c, st, .integer 0, now⟩
      fun r _ ↦ r.orderId_recreated now c st
  rw [← horders]
  exact ⟨fun h ↦ congrArg orders h, fun h ↦ ext h rfl⟩

theorem writeItem_eq_self_iff (sku : String) (q p : Int64) :
    rm.writeItem now o sku q p = rm ↔
      ∃ item, rm.orderItems.lookup (o, sku) = some item ∧ item.replaced now q p = item := by
  have hitems : (rm.writeItem now o sku q p).orderItems = rm.orderItems ↔
      ∃ item, rm.orderItems.lookup (o, sku) = some item ∧ item.replaced now q p = item :=
    rm.orderItems.upsert_eq_self_iff ⟨o, sku, q, p, now⟩ fun i _ ↦ i.key_replaced now q p
  rw [← hitems]
  exact ⟨fun h ↦ congrArg orderItems h, fun h ↦ ext rfl h⟩

/-- An update of one order changes nothing exactly if it leaves its row as it is. -/
theorem updateOrder_eq_self_iff {f : OrderRow → OrderRow}
    (hf : ∀ r : OrderRow, decide (r.orderId = o) = true → (f r).orderId = r.orderId) :
    rm.orders.updateWhere (fun r : OrderRow ↦ r.orderId = o) f hf = rm.orders ↔
      ∀ row, rm.orders.lookup o = some row → f row = row := by
  rw [KeyedTable.updateWhere_eq_self_iff]
  constructor
  · intro h row hrow
    obtain ⟨hmem, hkey⟩ := KeyedTable.lookup_eq_some_iff.1 hrow
    exact h row hmem (decide_eq_true hkey)
  · intro h row hmem hkey
    exact h row (KeyedTable.lookup_eq_some_iff.2 ⟨hmem, of_decide_eq_true hkey⟩)

theorem writeStatus_eq_self_iff (st : String) :
    rm.writeStatus now o st = rm ↔
      ∀ row, rm.orders.lookup o = some row → row.withStatus now st = row := by
  rw [← updateOrder_eq_self_iff (fun r _ ↦ r.orderId_withStatus now st)]
  exact ⟨fun h ↦ congrArg orders h, fun h ↦ ext h rfl⟩

theorem setTotal_eq_self_iff (total : SqlNumber) :
    rm.setTotal now o total = rm ↔
      ∀ row, rm.orders.lookup o = some row → row.withTotal now total = row := by
  rw [← updateOrder_eq_self_iff (fun r _ ↦ r.orderId_withTotal now total)]
  exact ⟨fun h ↦ congrArg orders h, fun h ↦ ext h rfl⟩

/-! ## Events that change nothing

An event is one statement or two.  The times are erased first, since a statement that sets
`updated_at` always changes that. -/

/-- The event, written now, changes nothing.  One that cannot be written changes nothing either, as
its transaction is rolled back. -/
def Keeps (engine : SqlEngine) (rm : ReadModel) (event : OrderEvent) : Prop :=
  ∀ rm', rm.write engine 0 event = .ok rm' → rm' = rm

theorem lookup_erase : rm.erase.orders.lookup o = (rm.orders.lookup o).map OrderRow.erase :=
  rm.orders.lookup_mapRows OrderRow.erase OrderRow.orderId_erase o

theorem map_status_erase :
    (rm.erase.orders.lookup o).map OrderRow.status = (rm.orders.lookup o).map OrderRow.status := by
  rw [lookup_erase, Option.map_map]
  rfl

/-- An order that is created again is left alone if it has this customer and this status. -/
theorem keeps_created_iff (c st : String) :
    rm.erase.Keeps engine (.created o c st) ↔
      ∃ row, rm.orders.lookup o = some row ∧ row.customerId = c ∧ row.status = st := by
  have hkeeps : rm.erase.Keeps engine (.created o c st) ↔ rm.erase.writeOrder 0 o c st = rm.erase :=
    ⟨fun h ↦ h _ rfl, fun h rm' hrm ↦ (Except.ok.inj hrm).symm.trans h⟩
  rw [hkeeps, writeOrder_eq_self_iff, lookup_erase]
  constructor
  · rintro ⟨row', hrow', hsame⟩
    obtain ⟨row, hrow, rfl⟩ := Option.map_eq_some_iff.1 hrow'
    exact ⟨row, hrow, (congrArg OrderRow.customerId hsame).symm,
      (congrArg OrderRow.status hsame).symm⟩
  · rintro ⟨row, hrow, rfl, rfl⟩
    exact ⟨row.erase, by rw [hrow, Option.map_some], rfl⟩

/-- An order that is cancelled again is left alone if it is cancelled, or not there. -/
theorem keeps_cancelled_iff :
    rm.erase.Keeps engine (.cancelled o) ↔
      ∀ row, rm.orders.lookup o = some row → row.status = "cancelled" := by
  have hkeeps : rm.erase.Keeps engine (.cancelled o) ↔
      rm.erase.writeStatus 0 o "cancelled" = rm.erase :=
    ⟨fun h ↦ h _ rfl, fun h rm' hrm ↦ (Except.ok.inj hrm).symm.trans h⟩
  rw [hkeeps, writeStatus_eq_self_iff, lookup_erase]
  constructor
  · intro h row hrow
    exact (congrArg OrderRow.status (h row.erase (by rw [hrow, Option.map_some]))).symm
  · intro h row' hrow'
    obtain ⟨row, hrow, rfl⟩ := Option.map_eq_some_iff.1 hrow'
    rw [← h row hrow]
    rfl

/-- An item that is written as it is leaves its table alone. -/
theorem writeItem_erase_eq_iff (sku : String) (q p : Int64) :
    rm.erase.writeItem 0 o sku q p = rm.erase ↔
      (rm.orderItems.lookup (o, sku)).map ItemRow.values = some (q, p) := by
  rw [writeItem_eq_self_iff, Option.map_eq_some_iff]
  have hlookup : rm.erase.orderItems.lookup (o, sku) =
      (rm.orderItems.lookup (o, sku)).map ItemRow.erase :=
    rm.orderItems.lookup_mapRows ItemRow.erase ItemRow.key_erase (o, sku)
  rw [hlookup]
  constructor
  · rintro ⟨item', hitem', hsame⟩
    obtain ⟨item, hitem, rfl⟩ := Option.map_eq_some_iff.1 hitem'
    exact ⟨item, hitem, congrArg ItemRow.values hsame.symm⟩
  · rintro ⟨item, hitem, hvalues⟩
    obtain ⟨rfl, rfl⟩ := Prod.mk.inj hvalues
    exact ⟨item.erase, by rw [hitem, Option.map_some], rfl⟩

/-- The total of an order that is computed as it is leaves its row alone.  If the sum cannot be
computed the statement fails, and leaves it alone as well. -/
theorem updateTotal_erase_eq_self_iff :
    (∀ rm', rm.erase.updateTotal engine 0 o = .ok rm' → rm' = rm.erase) ↔
      ∀ row, rm.orders.lookup o = some row →
        ∀ total, totalOf engine (rm.linesOf o) = .ok total → row.totalCents = total := by
  constructor
  · intro h row hrow total htotal
    have hlookup : rm.erase.orders.lookup o = some row.erase := by
      rw [lookup_erase, hrow, Option.map_some]
    have hset := h (rm.erase.setTotal 0 o total) (updateTotal_eq_ok_iff.2
      (Or.inr ⟨Option.isSome_of_eq_some hlookup, total, by rw [linesOf_erase]; exact htotal, rfl⟩))
    have hrow' := (setTotal_eq_self_iff total).1 hset row.erase hlookup
    exact (congrArg OrderRow.totalCents hrow').symm
  · intro h rm' hrm
    rcases updateTotal_eq_ok_iff.1 hrm with ⟨-, rfl⟩ | ⟨-, total, htotal, rfl⟩
    · rfl
    · refine (setTotal_eq_self_iff total).2 fun row' hrow' ↦ ?_
      rw [lookup_erase, Option.map_eq_some_iff] at hrow'
      obtain ⟨row, hrow, rfl⟩ := hrow'
      rw [linesOf_erase] at htotal
      rw [← h row hrow total htotal]
      rfl

/-- The sum over the items of the order, this one in its place, cannot be computed, and SQLite
refuses the item.  The transaction then leaves both tables as they were. -/
def Refuses (engine : SqlEngine) (rm : ReadModel) (o sku : String) (q p : Int64) : Prop :=
  ∃ message, totalOf engine ((rm.writeItem 0 o sku q p).linesOf o) = .error message

theorem linesOf_erase_writeItem (sku : String) (q p : Int64) :
    (rm.erase.writeItem 0 o sku q p).linesOf o = (rm.writeItem 0 o sku q p).linesOf o := by
  rw [← erase_writeItem, linesOf_erase]

theorem exists_updateTotal_iff :
    (∃ rm', rm.updateTotal engine now o = .ok rm') ↔
      ((rm.orders.lookup o).isSome → ∃ total, totalOf engine (rm.linesOf o) = .ok total) := by
  constructor
  · rintro ⟨rm', hrm⟩ hsome
    rcases updateTotal_eq_ok_iff.1 hrm with ⟨hnone, -⟩ | ⟨-, total, htotal, -⟩
    · rw [hnone] at hsome
      cases hsome
    · exact ⟨total, htotal⟩
  · intro h
    cases hrow : rm.orders.lookup o with
    | none => exact ⟨rm, updateTotal_eq_ok_iff.2 (Or.inl ⟨hrow, rfl⟩)⟩
    | some row =>
      have hsome : (rm.orders.lookup o).isSome := Option.isSome_of_eq_some hrow
      obtain ⟨total, htotal⟩ := h hsome
      exact ⟨_, updateTotal_eq_ok_iff.2 (Or.inr ⟨hsome, total, htotal, rfl⟩)⟩

/-- Adding an item fails exactly if its order is there and SQLite refuses it. -/
theorem exists_write_itemAdded_iff (sku : String) (q p : Int64) :
    (∃ rm', rm.erase.write engine 0 (.itemAdded o sku q p) = .ok rm') ↔
      ¬((rm.orders.lookup o).isSome ∧ rm.Refuses engine o sku q p) := by
  have hisSome : ((rm.erase.writeItem 0 o sku q p).orders.lookup o).isSome =
      (rm.orders.lookup o).isSome := isSome_lookup_erase
  have hwrite : (∃ rm', rm.erase.write engine 0 (.itemAdded o sku q p) = .ok rm') ↔
      ((rm.orders.lookup o).isSome →
        ∃ total, totalOf engine ((rm.writeItem 0 o sku q p).linesOf o) = .ok total) := by
    rw [← hisSome, ← linesOf_erase_writeItem]
    exact exists_updateTotal_iff
  rw [hwrite, not_and, Refuses]
  refine imp_congr_right fun _ ↦ ?_
  cases totalOf engine ((rm.writeItem 0 o sku q p).linesOf o) <;> simp

theorem keeps_itemAdded_iff (sku : String) (q p : Int64) :
    rm.erase.Keeps engine (.itemAdded o sku q p) ↔
      (rm.orderItems.lookup (o, sku)).map ItemRow.values = some (q, p) ∧
          (∀ row, rm.orders.lookup o = some row →
            ∀ total, totalOf engine (rm.linesOf o) = .ok total → row.totalCents = total) ∨
        (rm.orders.lookup o).isSome ∧ rm.Refuses engine o sku q p := by
  by_cases hitem : (rm.orderItems.lookup (o, sku)).map ItemRow.values = some (q, p)
  · have hsame := (writeItem_erase_eq_iff sku q p).2 hitem
    have hlines : (rm.writeItem 0 o sku q p).linesOf o = rm.linesOf o := by
      rw [← linesOf_erase_writeItem, hsame, linesOf_erase]
    have hkeeps : rm.erase.Keeps engine (.itemAdded o sku q p) ↔
        ∀ rm', rm.erase.updateTotal engine 0 o = .ok rm' → rm' = rm.erase := by
      rw [Keeps]
      simp only [write, hsame]
    rw [hkeeps, updateTotal_erase_eq_self_iff, Refuses, hlines]
    refine ⟨fun h ↦ Or.inl ⟨hitem, h⟩, ?_⟩
    rintro (⟨-, h⟩ | ⟨-, message, hmessage⟩)
    · exact h
    · intro row _ total htotal
      cases hmessage.symm.trans htotal
  · constructor
    · intro hkeeps
      refine Or.inr (by_contra fun hnot ↦ hitem ?_)
      obtain ⟨rm', hrm⟩ := (exists_write_itemAdded_iff sku q p).2 hnot
      obtain rfl := hkeeps rm' hrm
      have hitems : rm.erase.orderItems = (rm.erase.writeItem 0 o sku q p).orderItems :=
        orderItems_updateTotal hrm
      exact (writeItem_erase_eq_iff sku q p).1 (ext rfl hitems.symm)
    · rintro (⟨hvalues, -⟩ | hrefused) rm' hrm
      · exact absurd hvalues hitem
      · exact absurd hrefused ((exists_write_itemAdded_iff sku q p).1 ⟨rm', hrm⟩)

/-! ## Events that still hold

The last event that writes a column decides what is in it.  So an event changes nothing exactly if,
for each column it writes, the last event to write it wrote the same. -/

/-- Nothing that came after the event matters to it: what it wrote is still the last thing written,
and its order has no total that adding the item once more would correct.  An item that SQLite
refuses holds as well, whatever it says. -/
def StillHolds (engine : SqlEngine) (rm : ReadModel) (past : List OrderEvent) : OrderEvent → Prop
  | .created o customerId status =>
    past.findSome? (customerOf o) = some customerId ∧ past.findSome? (statusOf o) = some status
  | .itemAdded o sku quantity unitPriceCents =>
    past.findSome? (itemOf o sku) = some (quantity, unitPriceCents) ∧
        (Created o past → Totalled o past ∨
          ∀ total, totalOf engine (rm.linesOf o) = .ok total → total = .integer 0) ∨
      Created o past ∧ rm.Refuses engine o sku quantity unitPriceCents
  | .cancelled o => Created o past → past.findSome? (statusOf o) = some "cancelled"
  | .other => True

/-- **An event changes nothing exactly if it still holds.**  The left side is about the tables, and
the right side about the history alone. -/
theorem Describes.keeps_iff {past : List OrderEvent} (h : Describes engine past rm)
    (event : OrderEvent) : rm.erase.Keeps engine event ↔ rm.StillHolds engine past event := by
  cases event with
  | created o c st =>
    rw [keeps_created_iff, StillHolds, ← h.customer]
    constructor
    · rintro ⟨row, hrow, rfl, rfl⟩
      exact ⟨by rw [hrow, Option.map_some], h.status o row hrow⟩
    · rintro ⟨hcustomer, hstatus⟩
      obtain ⟨row, hrow, hc⟩ := Option.map_eq_some_iff.1 hcustomer
      exact ⟨row, hrow, hc, Option.some_inj.1 ((h.status o row hrow).symm.trans hstatus)⟩
  | itemAdded o sku q p =>
    -- the total is left alone if it was computed before, or is zero as it should be
    rw [keeps_itemAdded_iff, StillHolds, h.item, h.isSome_lookup_iff]
    refine or_congr_left (and_congr_right fun _ ↦ ?_)
    rw [← h.isSome_lookup_iff]
    constructor
    · intro htotal hsome
      obtain ⟨row, hrow⟩ := Option.isSome_iff_exists.1 hsome
      rcases h.total o row hrow with ⟨htotalled, -⟩ | ⟨-, hzero⟩
      · exact Or.inl htotalled
      · exact Or.inr fun total hsum ↦ (htotal row hrow total hsum).symm.trans hzero
    · intro hright row hrow total hsum
      rcases h.total o row hrow with ⟨-, hcomputed⟩ | ⟨hnot, hzero⟩
      · exact Except.ok.inj (hcomputed.symm.trans hsum)
      · rcases hright (Option.isSome_of_eq_some hrow) with htotalled | hsumzero
        · exact absurd htotalled hnot
        · rw [hzero, hsumzero total hsum]
  | cancelled o =>
    rw [keeps_cancelled_iff, StillHolds, ← h.isSome_lookup_iff]
    constructor
    · intro hstatus hsome
      obtain ⟨row, hrow⟩ := Option.isSome_iff_exists.1 hsome
      rw [h.status o row hrow, hstatus row hrow]
    · intro hstatus row hrow
      exact Option.some_inj.1
        ((h.status o row hrow).symm.trans (hstatus (Option.isSome_of_eq_some hrow)))
  | other => exact ⟨fun _ ↦ trivial, fun _ rm' hrm ↦ (Except.ok.inj hrm).symm⟩

end ReadModel

namespace OrderProjection

open ReadModel

variable {engine : SqlEngine} {envelope : EventEnvelope} {event : OrderEvent}

/-- A call of `apply` leaves the read model alone exactly if its event changes nothing. -/
theorem apply_keeps_iff (hread : readEvent envelope = .ok event) (clock : Instant × Instant)
    (p : OrderProjection) :
    (apply engine clock envelope p).1.pool.readModel.erase = p.pool.readModel.erase ↔
      p.pool.readModel.erase.Keeps engine event := by
  have herase : (p.pool.readModel.applyOrderEvent engine clock.1 envelope).map erase =
      p.pool.readModel.erase.write engine 0 event := by
    rw [erase_applyOrderEvent, applyOrderEvent_eq, hread]
    rfl
  rw [apply, applyAtOffset, Keeps, ← herase]
  cases p.pool.readModel.applyOrderEvent engine clock.1 envelope with
  | error error => exact ⟨fun _ rm' hrm ↦ (by cases hrm), fun _ ↦ rfl⟩
  | ok rm => exact ⟨fun h rm' hrm ↦ (Except.ok.inj hrm).symm.trans h, fun h ↦ h _ rfl⟩

/-- **A redelivered envelope leaves the read model alone exactly if it still holds.**  It need not
have been applied before; all that counts is what the history has written since. -/
theorem redelivery_iff (bus : SqliteBus) (engine : SqlEngine) (db : Database)
    (checkpoints : KeyedTable CheckpointRow.name) (s : World)
    (hs : Reachable (World.step bus engine) (.start ⟨db, .empty, checkpoints⟩) s)
    (clock : Instant × Instant) (hread : readEvent envelope = .ok event) :
    (apply engine clock envelope s.projection).1.pool.readModel.erase = s.readModel.erase ↔
      s.readModel.StillHolds engine s.past event :=
  (apply_keeps_iff hread clock s.projection).trans
    ((World.describes_of_reachable hs).keeps_iff event)

/-- An order is created. -/
def createdRun : List Action := [.apply orderCreated 1, .save 1]

/-- It is created once more. -/
theorem createdRun_redelivered : ∃ s, run (World.step ordersBus .plain) (.start .empty) createdRun =
    some s ∧ (apply .plain (2, 2) orderCreated s.projection).1.pool.readModel.erase =
      s.readModel.erase := by
  have hrun : (run (World.step ordersBus .plain) (.start .empty) createdRun).map World.past =
      some [.created "ord_1" "cust_1" "open"] := by decide +kernel
  have hread : readEvent orderCreated = .ok (.created "ord_1" "cust_1" "open") := by decide +kernel
  obtain ⟨s, hs, hpast⟩ := Option.map_eq_some_iff.1 hrun
  refine ⟨s, hs, (redelivery_iff ordersBus .plain .empty .empty s ⟨_, hs⟩ (2, 2) hread).2 ?_⟩
  rw [hpast]
  exact ⟨rfl, rfl⟩

/-- An order is created and cancelled. -/
def cancelledRun : List Action := createdRun ++ [.apply orderCancelled 2, .save 2]

/-- It is created once more, and open again. -/
theorem cancelledRun_redelivered :
    ¬∀ s, Reachable (World.step ordersBus .plain) (.start .empty) s → ∀ envelope ∈ s.applied,
      ∀ clock, (apply .plain clock envelope s.projection).1.pool.readModel.erase =
        s.readModel.erase := by
  intro h
  have hrun : (run (World.step ordersBus .plain) (.start .empty) cancelledRun).map (fun s ↦
      (decide (orderCreated ∈ s.applied), (s.readModel.orders.lookup "ord_1").map OrderRow.status,
        ((apply .plain (3, 3) orderCreated s.projection).1.pool.readModel.orders.lookup "ord_1").map
          OrderRow.status)) = some (true, some "cancelled", some "open") := by decide +kernel
  obtain ⟨s, hs, hend⟩ := Option.map_eq_some_iff.1 hrun
  rw [Prod.mk.injEq, Prod.mk.injEq] at hend
  obtain ⟨hmem, hbefore, hafter⟩ := hend
  have hsame := h s ⟨_, hs⟩ orderCreated (of_decide_eq_true hmem) (3, 3)
  rw [← map_status_erase] at hbefore hafter
  rw [hsame, hbefore] at hafter
  exact absurd hafter (by decide)

end OrderProjection

end PhenoEvents
