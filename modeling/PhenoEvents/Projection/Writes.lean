import PhenoEvents.Projection.Orders

/-!
# What the writes do

Three facts about `ReadModel.write`, for every kind of event and every read model.

* Writing an event again, right away, changes nothing (`write_write`).
* The clock only reaches the `updated_at` columns (`erase_write`), so a read model can be replaced
  by its erasure wherever these columns do not matter.
* What a write does to one row of each table: the lemmas `lookup_…`.

Each is proved for the statements first and then for the events, which are one statement or two.  An
item is two: the item itself, and the total of its order, which is computed from the items as they
are after it.  Writing an item again leaves the items as they are, and so the total comes out the
same.

That an event may be written again right away is what a crash between two commits needs.  Written
again later it may well change something, as it then overwrites what came in between.
-/

set_option autoImplicit false

namespace PhenoEvents

open Except

namespace ReadModel

variable {engine : SqlEngine} {now : Instant} {rm rm' : ReadModel} {o : String}

theorem ext (ho : rm.orders = rm'.orders) (hi : rm.orderItems = rm'.orderItems) : rm = rm' := by
  cases rm; cases rm'; cases ho; cases hi; rfl

/-! ## One row

Each statement is about one key, and leaves the rows with other keys as they are. -/

section Lookup

variable {o' : String}

/-- An order that is there is rewritten, keeping its total; a new one begins with a total of zero.
-/
theorem lookup_writeOrder (c st : String) :
    (rm.writeOrder now o c st).orders.lookup o =
      some (((rm.orders.lookup o).map (OrderRow.recreated now c st)).getD
        ⟨o, c, st, .integer 0, now⟩) :=
  rm.orders.lookup_upsert_self ⟨o, c, st, .integer 0, now⟩ (OrderRow.recreated now c st)
    fun r _ ↦ r.orderId_recreated now c st

theorem lookup_writeOrder_of_ne (h : o ≠ o') (c st : String) :
    (rm.writeOrder now o c st).orders.lookup o' = rm.orders.lookup o' :=
  rm.orders.lookup_upsert_of_ne (r := ⟨o, c, st, .integer 0, now⟩) (OrderRow.recreated now c st)
    (fun r _ ↦ r.orderId_recreated now c st) h

/-- The status of an order that is not there is not written. -/
theorem lookup_writeStatus (st : String) :
    (rm.writeStatus now o st).orders.lookup o =
      (rm.orders.lookup o).map (OrderRow.withStatus now st) :=
  KeyedTable.lookup_updateWhere_key (fun r _ ↦ r.orderId_withStatus now st) fun r hr ↦ by simp [hr]

theorem lookup_writeStatus_of_ne (h : o ≠ o') (st : String) :
    (rm.writeStatus now o st).orders.lookup o' = rm.orders.lookup o' :=
  KeyedTable.lookup_updateWhere_of_false (fun r _ ↦ r.orderId_withStatus now st)
    fun r hr ↦ by simpa [hr] using h.symm

/-- The total of an order that is not there is not written. -/
theorem lookup_setTotal (total : SqlNumber) :
    (rm.setTotal now o total).orders.lookup o =
      (rm.orders.lookup o).map (OrderRow.withTotal now total) :=
  KeyedTable.lookup_updateWhere_key (fun r _ ↦ r.orderId_withTotal now total)
    fun r hr ↦ by simp [hr]

theorem lookup_setTotal_of_ne (h : o ≠ o') (total : SqlNumber) :
    (rm.setTotal now o total).orders.lookup o' = rm.orders.lookup o' :=
  KeyedTable.lookup_updateWhere_of_false (fun r _ ↦ r.orderId_withTotal now total)
    fun r hr ↦ by simpa [hr] using h.symm

theorem isSome_lookup_writeOrder (c st : String) :
    ((rm.writeOrder now o c st).orders.lookup o').isSome =
      (decide (o = o') || (rm.orders.lookup o').isSome) :=
  rm.orders.isSome_lookup_upsert ⟨o, c, st, .integer 0, now⟩ (OrderRow.recreated now c st)
    (fun r _ ↦ r.orderId_recreated now c st) o'

theorem isSome_lookup_writeStatus (st : String) :
    ((rm.writeStatus now o st).orders.lookup o').isSome = (rm.orders.lookup o').isSome :=
  rm.orders.isSome_lookup_updateWhere _ _ (fun r _ ↦ r.orderId_withStatus now st) o'

theorem isSome_lookup_setTotal (total : SqlNumber) :
    ((rm.setTotal now o total).orders.lookup o').isSome = (rm.orders.lookup o').isSome :=
  rm.orders.isSome_lookup_updateWhere _ _ (fun r _ ↦ r.orderId_withTotal now total) o'

/-- An item that is there gets the new quantity and price, not the sum of both. -/
theorem lookup_writeItem (sku : String) (q p : Int64) :
    (rm.writeItem now o sku q p).orderItems.lookup (o, sku) =
      some (((rm.orderItems.lookup (o, sku)).map (ItemRow.replaced now q p)).getD
        ⟨o, sku, q, p, now⟩) :=
  rm.orderItems.lookup_upsert_self ⟨o, sku, q, p, now⟩ (ItemRow.replaced now q p)
    fun i _ ↦ i.key_replaced now q p

theorem lookup_writeItem_of_ne {sku : String} {k : String × String} (h : (o, sku) ≠ k)
    (q p : Int64) :
    (rm.writeItem now o sku q p).orderItems.lookup k = rm.orderItems.lookup k :=
  rm.orderItems.lookup_upsert_of_ne (r := ⟨o, sku, q, p, now⟩) (ItemRow.replaced now q p)
    (fun i _ ↦ i.key_replaced now q p) h

/-- A row after `writeOrder`: rewritten, new, or as it was. -/
theorem lookup_writeOrder_cases {c st : String} {row : OrderRow}
    (h : (rm.writeOrder now o c st).orders.lookup o' = some row) :
    (∃ old, o = o' ∧ rm.orders.lookup o = some old ∧ row = old.recreated now c st) ∨
      (o = o' ∧ rm.orders.lookup o = none ∧ row = ⟨o, c, st, .integer 0, now⟩) ∨
      o ≠ o' ∧ rm.orders.lookup o' = some row :=
  rm.orders.lookup_upsert_cases ⟨o, c, st, .integer 0, now⟩
    (fun r _ ↦ r.orderId_recreated now c st) h

/-- A row after `writeStatus`: rewritten, or as it was. -/
theorem lookup_writeStatus_cases {st : String} {row : OrderRow}
    (h : (rm.writeStatus now o st).orders.lookup o' = some row) :
    (∃ old, o = o' ∧ rm.orders.lookup o = some old ∧ row = old.withStatus now st) ∨
      o ≠ o' ∧ rm.orders.lookup o' = some row :=
  rm.orders.lookup_updateWhere_cases (fun r _ ↦ r.orderId_withStatus now st) (fun _ ↦ rfl) h

/-- A row after `setTotal`: rewritten, or as it was. -/
theorem lookup_setTotal_cases {total : SqlNumber} {row : OrderRow}
    (h : (rm.setTotal now o total).orders.lookup o' = some row) :
    (∃ old, o = o' ∧ rm.orders.lookup o = some old ∧ row = old.withTotal now total) ∨
      o ≠ o' ∧ rm.orders.lookup o' = some row :=
  rm.orders.lookup_updateWhere_cases (fun r _ ↦ r.orderId_withTotal now total) (fun _ ↦ rfl) h

/-- An item of one order does not count for another. -/
theorem linesOf_writeItem_of_ne (h : o ≠ o') (sku : String) (q p : Int64) :
    (rm.writeItem now o sku q p).linesOf o' = rm.linesOf o' := by
  refine congrArg (List.map ItemRow.line) ?_
  refine rm.orderItems.filter_rows_upsert (r := ⟨o, sku, q, p, now⟩)
    (fun i _ ↦ i.key_replaced now q p) fun i hi ↦ decide_eq_false ?_
  exact fun ho ↦ h ((congrArg Prod.fst hi).symm.trans ho)

end Lookup

/-! ## Writing twice

The second write finds its own row and sets every column to what it is.  The clock of both is the
same here; that it need not be follows with the lemmas of the next section. -/

theorem writeOrder_writeOrder (c st : String) :
    (rm.writeOrder now o c st).writeOrder now o c st = rm.writeOrder now o c st :=
  ext (rm.orders.upsert_upsert (fun r _ ↦ r.orderId_recreated now c st) (fun _ ↦ rfl) rfl) rfl

theorem writeStatus_writeStatus (st : String) :
    (rm.writeStatus now o st).writeStatus now o st = rm.writeStatus now o st :=
  ext (rm.orders.updateWhere_updateWhere (fun r _ ↦ r.orderId_withStatus now st) fun _ ↦ rfl) rfl

theorem setTotal_setTotal (total : SqlNumber) :
    (rm.setTotal now o total).setTotal now o total = rm.setTotal now o total :=
  ext (rm.orders.updateWhere_updateWhere (fun r _ ↦ r.orderId_withTotal now total) fun _ ↦ rfl) rfl

/-- The total is written exactly if the order is there and the sum can be computed. -/
theorem updateTotal_eq_ok_iff :
    rm.updateTotal engine now o = .ok rm' ↔
      rm.orders.lookup o = none ∧ rm' = rm ∨
        (rm.orders.lookup o).isSome ∧ ∃ total, totalOf engine (rm.linesOf o) = .ok total ∧
          rm' = rm.setTotal now o total := by
  rw [updateTotal]
  cases h : rm.orders.lookup o with
  | none => simp [pure, Except.pure, eq_comm]
  | some row =>
    rw [Option.isSome_some, if_pos rfl, bind_eq_ok_iff]
    simp only [mapError_eq_ok_iff, reduceCtorEq, false_and, false_or, true_and]
    refine exists_congr fun total ↦ and_congr_right fun _ ↦ ?_
    exact ⟨fun h' ↦ (Except.ok.inj h').symm, fun h' ↦ congrArg Except.ok h'.symm⟩

theorem updateTotal_updateTotal (h : rm.updateTotal engine now o = .ok rm') :
    rm'.updateTotal engine now o = .ok rm' := by
  rcases updateTotal_eq_ok_iff.1 h with ⟨hnone, rfl⟩ | ⟨hsome, total, htotal, rfl⟩
  · exact updateTotal_eq_ok_iff.2 (Or.inl ⟨hnone, rfl⟩)
  · refine updateTotal_eq_ok_iff.2 (Or.inr ⟨?_, total, htotal, (setTotal_setTotal total).symm⟩)
    rw [isSome_lookup_setTotal]
    exact hsome

theorem orderItems_updateTotal (h : rm.updateTotal engine now o = .ok rm') :
    rm'.orderItems = rm.orderItems := by
  rcases updateTotal_eq_ok_iff.1 h with ⟨-, rfl⟩ | ⟨-, total, -, rfl⟩
  · rfl
  · rfl

/-- **Writing an event again, right away, changes nothing.**  A write that has failed changes
nothing either, and fails again. -/
theorem write_write {event : OrderEvent} (h : rm.write engine now event = .ok rm') :
    rm'.write engine now event = .ok rm' := by
  cases event with
  | created o c st =>
    obtain rfl := Except.ok.inj h
    exact congrArg _ (writeOrder_writeOrder c st)
  | itemAdded o sku q p =>
    -- the item is as it was written, and so is everything its total is computed from
    have hitem : rm'.writeItem now o sku q p = rm' := by
      have hitems : rm'.orderItems = (rm.writeItem now o sku q p).orderItems :=
        orderItems_updateTotal h
      refine ext rfl ?_
      show rm'.orderItems.upsert ⟨o, sku, q, p, now⟩ (ItemRow.replaced now q p)
        (fun i _ ↦ i.key_replaced now q p) = rm'.orderItems
      rw [hitems]
      exact rm.orderItems.upsert_upsert (fun i _ ↦ i.key_replaced now q p) (fun _ ↦ rfl) rfl
    show (rm'.writeItem now o sku q p).updateTotal engine now o = .ok rm'
    rw [hitem]
    exact updateTotal_updateTotal h
  | cancelled o =>
    obtain rfl := Except.ok.inj h
    exact congrArg _ (writeStatus_writeStatus "cancelled")
  | other => rfl

/-- **Applying an envelope again, right away, changes nothing.** -/
theorem applyOrderEvent_applyOrderEvent {envelope : EventEnvelope}
    (h : rm.applyOrderEvent engine now envelope = .ok rm') :
    rm'.applyOrderEvent engine now envelope = .ok rm' := by
  rw [applyOrderEvent_eq, bind_eq_ok_iff] at h ⊢
  obtain ⟨event, hread, hwrite⟩ := h
  exact ⟨event, hread, write_write hwrite⟩

end ReadModel

/-! ## Without the clock

An erased read model has no times left, and a write with any reading of the clock does the same to
it. -/

/-- The row without `updated_at`. -/
def OrderRow.erase (r : OrderRow) : OrderRow := { r with updatedAt := 0 }

/-- The row without `updated_at`. -/
def ItemRow.erase (i : ItemRow) : ItemRow := { i with updatedAt := 0 }

theorem OrderRow.orderId_erase (r : OrderRow) : r.erase.orderId = r.orderId := rfl

theorem ItemRow.key_erase (i : ItemRow) : i.erase.key = i.key := rfl

namespace ReadModel

variable {engine : SqlEngine} {now : Instant} {rm rm' : ReadModel} {o : String}

/-- The read model without the `updated_at` columns. -/
def erase (rm : ReadModel) : ReadModel where
  orders := rm.orders.mapRows OrderRow.erase OrderRow.orderId_erase
  orderItems := rm.orderItems.mapRows ItemRow.erase ItemRow.key_erase

theorem erase_erase : rm.erase.erase = rm.erase := by
  refine ext (KeyedTable.ext ?_) (KeyedTable.ext ?_)
  · simp only [erase, KeyedTable.rows_mapRows, List.map_map]
    rfl
  · simp only [erase, KeyedTable.rows_mapRows, List.map_map]
    rfl

theorem linesOf_erase : rm.erase.linesOf o = rm.linesOf o := by
  show ((rm.orderItems.mapRows ItemRow.erase ItemRow.key_erase).rows.filter
    fun i : ItemRow ↦ i.orderId = o).map ItemRow.line = _
  rw [KeyedTable.rows_mapRows, List.filter_map, List.map_map]
  rfl

theorem isSome_lookup_erase : (rm.erase.orders.lookup o).isSome = (rm.orders.lookup o).isSome := by
  show ((rm.orders.mapRows OrderRow.erase OrderRow.orderId_erase).lookup o).isSome = _
  rw [KeyedTable.lookup_mapRows, Option.isSome_map]

theorem erase_writeOrder (c st : String) :
    (rm.writeOrder now o c st).erase = rm.erase.writeOrder 0 o c st :=
  ext (rm.orders.mapRows_upsert (fun r _ ↦ r.orderId_recreated now c st)
    (fun r _ ↦ r.orderId_recreated 0 c st) OrderRow.orderId_erase rfl fun _ ↦ rfl) rfl

theorem erase_writeItem (sku : String) (q p : Int64) :
    (rm.writeItem now o sku q p).erase = rm.erase.writeItem 0 o sku q p :=
  ext rfl (rm.orderItems.mapRows_upsert (fun i _ ↦ i.key_replaced now q p)
    (fun i _ ↦ i.key_replaced 0 q p) ItemRow.key_erase rfl fun _ ↦ rfl)

theorem erase_writeStatus (st : String) :
    (rm.writeStatus now o st).erase = rm.erase.writeStatus 0 o st :=
  ext (rm.orders.mapRows_updateWhere (fun r _ ↦ r.orderId_withStatus now st)
    (fun r _ ↦ r.orderId_withStatus 0 st) OrderRow.orderId_erase (fun _ ↦ rfl) fun _ ↦ rfl) rfl

theorem erase_setTotal (total : SqlNumber) :
    (rm.setTotal now o total).erase = rm.erase.setTotal 0 o total :=
  ext (rm.orders.mapRows_updateWhere (fun r _ ↦ r.orderId_withTotal now total)
    (fun r _ ↦ r.orderId_withTotal 0 total) OrderRow.orderId_erase (fun _ ↦ rfl) fun _ ↦ rfl) rfl

theorem erase_updateTotal :
    (rm.updateTotal engine now o).map erase = rm.erase.updateTotal engine 0 o := by
  rw [updateTotal, updateTotal, isSome_lookup_erase, linesOf_erase]
  split
  · cases totalOf engine (rm.linesOf o) with
    | error e => rfl
    | ok total => exact congrArg Except.ok (erase_setTotal total)
  · rfl

/-- **The clock only reaches the `updated_at` columns.**  So tables that differ in nothing else are
taken to tables that differ in nothing else. -/
theorem erase_write (event : OrderEvent) :
    (rm.write engine now event).map erase = rm.erase.write engine 0 event := by
  cases event with
  | created o c st => exact congrArg Except.ok (erase_writeOrder c st)
  | itemAdded o sku q p =>
    rw [write, erase_updateTotal, erase_writeItem]
    rfl
  | cancelled o => exact congrArg Except.ok (erase_writeStatus "cancelled")
  | other => rfl

theorem erase_applyOrderEvent (envelope : EventEnvelope) :
    (rm.applyOrderEvent engine now envelope).map erase =
      rm.erase.applyOrderEvent engine 0 envelope := by
  rw [applyOrderEvent_eq, applyOrderEvent_eq]
  cases readEvent envelope with
  | error e => rfl
  | ok event => exact erase_write event

end ReadModel

end PhenoEvents
