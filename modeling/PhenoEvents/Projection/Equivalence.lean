import Mathlib.Algebra.BigOperators.Group.Finset.Basic
import PhenoEvents.Projection.Convergence
import PhenoEvents.Projection.Money
import PhenoEvents.Projection.Redelivery
import PhenoEvents.Projection.Separation

/-!
# Histories that come to the same

Two projections have applied envelopes, each in its own order: one live, as they were delivered, the
other from the outbox, with failures, repetitions and restarts in between.  Do they show the same
tables?  Nothing of a history can be seen but what it wrote last to each column, and whether an item
came after its order, which decides if there is a total at all.  `SameShown` compares just that, and
`same_tables_iff` says that the tables have the same rows exactly if it holds.

The sum of an order is a function of the history too (`sumIn`), as long as no price times quantity
overflows.  Where one does, the sum is a REAL, and SQLite may add REALs up in any order.

## How it goes

* From a history to the tables: `Describes` says what each column holds.
* From the tables to a history: a column that is there was written, and it tells by what.  The total
  is the one column that does not tell how it came about.  It is zero for an order without a
  computed total and also for one whose items cost nothing, and `SameShown` has to allow for that.
* `Describes.sameRows_iff` is the two directions for two read models, and `same_tables_iff` the
  result for two runs.

The rows are compared without `updated_at`, and without their places in the tables.
-/

set_option autoImplicit false

namespace PhenoEvents

open Except Transition OrderEvent

/-- The sku the event writes, if it is about the order. -/
def OrderEvent.skuOf (o : String) : OrderEvent → Option String
  | .itemAdded o' sku _ _ => if o' = o then some sku else none
  | _ => none

/-- Quantity times price fits `i64`. -/
def OrderEvent.priceFits : OrderEvent → Bool
  | .itemAdded _ _ quantity unitPriceCents => FitsInt64 (quantity.toInt * unitPriceCents.toInt)
  | _ => true

/-! ## Sums of a history

A history tells what an order costs without looking at a table: the items are those an event has
written, and each costs what it was written with last. -/

section Sums

variable {past past' : List OrderEvent} {o sku : String}

/-- What an item costs, as it was written last. -/
def centsIn (past : List OrderEvent) (o sku : String) : ℤ :=
  (past.findSome? (itemOf o sku)).elim 0 fun values ↦ values.1.toInt * values.2.toInt

/-- What the items of an order cost, in cents: a sum over the skus, each counted once and with what
was written last. -/
def sumIn (past : List OrderEvent) (o : String) : ℤ :=
  ∑ sku ∈ (past.filterMap (skuOf o)).toFinset, centsIn past o sku

theorem isSome_itemOf_iff (event : OrderEvent) :
    (itemOf o sku event).isSome = true ↔ skuOf o event = some sku := by
  cases event with
  | itemAdded o' sku' q p => by_cases ho : o' = o <;> by_cases hsku : sku' = sku <;>
      simp [itemOf, skuOf, ho, hsku]
  | _ => simp [itemOf, skuOf]

/-- The skus of an order are those an event has written. -/
theorem mem_filterMap_skuOf_iff :
    sku ∈ past.filterMap (skuOf o) ↔ (past.findSome? (itemOf o sku)).isSome = true := by
  rw [List.mem_filterMap, List.findSome?_isSome_iff]
  simp only [isSome_itemOf_iff]

theorem sumIn_congr (h : ∀ sku, past.findSome? (itemOf o sku) = past'.findSome? (itemOf o sku)) :
    sumIn past o = sumIn past' o := by
  refine Finset.sum_congr (Finset.ext fun sku ↦ ?_) fun sku _ ↦ by rw [centsIn, centsIn, h]
  rw [List.mem_toFinset, List.mem_toFinset, mem_filterMap_skuOf_iff, mem_filterMap_skuOf_iff, h]

theorem exists_itemAdded_of_findSome? {values : Int64 × Int64}
    (h : past.findSome? (itemOf o sku) = some values) :
    OrderEvent.itemAdded o sku values.1 values.2 ∈ past := by
  obtain ⟨event, hmem, hitem⟩ := List.exists_of_findSome?_eq_some h
  cases event with
  | itemAdded o' sku' q p =>
    rw [itemOf, Option.ite_none_right_eq_some] at hitem
    obtain ⟨hkey, hvalues⟩ := hitem
    obtain ⟨rfl, rfl⟩ := Prod.mk.inj hkey
    obtain rfl := Option.some_inj.1 hvalues
    exact hmem
  | _ => cases hitem

end Sums

/-- A total of products that fit is an integer, and exact. -/
theorem integer_of_totalOf {engine : SqlEngine} {lines : List Line} {total : SqlNumber}
    (h : ∀ l ∈ lines, FitsInt64 l.cents) (htotal : totalOf engine lines = .ok total) :
    ∃ n : Int64, total = .integer n ∧ n.toInt = centsOf lines := by
  have hexact := equals_of_totalOf h htotal
  have hproducts : ∀ l ∈ engine.scan lines, FitsInt64 l.cents :=
    fun l hl ↦ h l ((engine.scan_perm lines).mem_iff.1 hl)
  rw [totalOf, sqlSum, integers_products hproducts] at htotal
  cases hadd : addIntegers 0 ((engine.scan lines).map fun l ↦ Int64.ofInt l.cents) with
  | none =>
    simp only [hadd] at htotal
    cases htotal
  | some n =>
    simp only [hadd] at htotal
    obtain rfl := Except.ok.inj htotal
    exact ⟨n, rfl, of_decide_eq_true hexact⟩

namespace ReadModel

variable {engine : SqlEngine} {rm rm' : ReadModel} {past past' : List OrderEvent} {o : String}

/-! ## What the tables show of a history

`Describes` says what each row holds, in terms of the history.  Two of the columns are no values of
an event: `updated_at`, which is not compared, and the total. -/

/-- The sum of the items is the sum of the history. -/
theorem Describes.centsOf_linesOf (h : rm.Describes engine past) (o : String) :
    centsOf (rm.linesOf o) = sumIn past o := by
  let items := rm.orderItems.rows.filter fun i : ItemRow ↦ i.orderId = o
  have horder : ∀ i ∈ items, i.orderId = o := fun i hi ↦ of_decide_eq_true (List.mem_filter.1 hi).2
  have hlookup : ∀ i ∈ items, rm.orderItems.lookup (o, i.sku) = some i := by
    intro i hi
    rw [← horder i hi]
    exact KeyedTable.lookup_of_mem (List.mem_filter.1 hi).1
  have hnodup : (items.map ItemRow.sku).Nodup := by
    have hkeys : (items.map ItemRow.key).Nodup :=
      rm.orderItems.nodup.sublist (List.filter_sublist.map _)
    have hmap : items.map ItemRow.key = (items.map ItemRow.sku).map fun sku ↦ (o, sku) := by
      rw [List.map_map]
      exact List.map_congr_left fun i hi ↦ Prod.ext (horder i hi) rfl
    rw [hmap] at hkeys
    exact hkeys.of_map _
  have hskus : (items.map ItemRow.sku).toFinset = (past.filterMap (skuOf o)).toFinset := by
    ext sku
    rw [List.mem_toFinset, List.mem_toFinset, mem_filterMap_skuOf_iff, ← h.item, Option.isSome_map,
      Option.isSome_iff_exists, List.mem_map]
    constructor
    · rintro ⟨i, hi, rfl⟩
      exact ⟨i, hlookup i hi⟩
    · rintro ⟨i, hi⟩
      have hkey : i.key = (o, sku) := KeyedTable.key_of_lookup hi
      obtain ⟨ho, hsku⟩ := Prod.mk.inj hkey
      exact ⟨i, List.mem_filter.2 ⟨KeyedTable.mem_of_lookup hi, decide_eq_true ho⟩, hsku⟩
  calc centsOf (rm.linesOf o)
      = (items.map fun i ↦ centsIn past o i.sku).sum := by
        rw [centsOf, linesOf, List.map_map]
        refine congrArg List.sum (List.map_congr_left fun i hi ↦ ?_)
        rw [centsIn, ← h.item, hlookup i hi]
        rfl
    _ = ((items.map ItemRow.sku).map (centsIn past o)).sum := by
        rw [List.map_map]
        rfl
    _ = sumIn past o := by
        rw [sumIn, ← hskus, List.sum_toFinset _ hnodup]

/-- The total is the sum of the history, or the zero of an order that has got no item yet.  Which of
the two it is depends on whether an item came after the order; an item before it is in the sum, but
does not have it computed. -/
theorem Describes.total_eq (h : rm.Describes engine past) (hfits : ∀ e ∈ past, e.priceFits = true)
    {row : OrderRow} (hrow : rm.orders.lookup o = some row) :
    ∃ n : Int64, row.totalCents = .integer n ∧
      (Totalled o past ∧ n.toInt = sumIn past o ∨ ¬Totalled o past ∧ n = 0) := by
  rcases h.total o row hrow with ⟨hyes, htotal⟩ | ⟨hno, hzero⟩
  · have hproducts : ∀ l ∈ rm.linesOf o, FitsInt64 l.cents := by
      intro l hl
      obtain ⟨sku, i, hi, rfl⟩ := mem_linesOf_iff.1 hl
      have hitem : past.findSome? (itemOf o sku) = some i.values := by
        rw [← h.item, hi]
        rfl
      exact of_decide_eq_true (hfits _ (exists_itemAdded_of_findSome? hitem))
    obtain ⟨n, hn, hexact⟩ := integer_of_totalOf hproducts htotal
    exact ⟨n, hn, Or.inl ⟨hyes, hexact.trans (h.centsOf_linesOf o)⟩⟩
  · exact ⟨0, hzero, Or.inr ⟨hno, rfl⟩⟩

/-- Nobody can tell the histories apart by the tables: the last customer and status of each order,
the last quantity and price of each item, and what can be seen of whether a total was computed.  The
status and the total are columns of an order, so they show only if it was created; and if the items
cost nothing, a total that was computed looks like one that was not. -/
structure SameShown (past past' : List OrderEvent) : Prop where
  customer : ∀ o, past.findSome? (customerOf o) = past'.findSome? (customerOf o)
  status : ∀ o, Created o past → past.findSome? (statusOf o) = past'.findSome? (statusOf o)
  item : ∀ o sku, past.findSome? (itemOf o sku) = past'.findSome? (itemOf o sku)
  totalled : ∀ o, Created o past → sumIn past o ≠ 0 → (Totalled o past ↔ Totalled o past')

theorem lookup_erase_items {k : String × String} :
    rm.erase.orderItems.lookup k = (rm.orderItems.lookup k).map ItemRow.erase :=
  rm.orderItems.lookup_mapRows ItemRow.erase ItemRow.key_erase k

/-- The same rows, up to the clock, in any place. -/
theorem sameRows_erase_iff : SameRows rm.erase rm'.erase ↔
    (∀ o, (rm.orders.lookup o).map OrderRow.erase = (rm'.orders.lookup o).map OrderRow.erase) ∧
      ∀ k, (rm.orderItems.lookup k).map ItemRow.erase =
        (rm'.orderItems.lookup k).map ItemRow.erase := by
  constructor
  · intro h
    refine ⟨fun o ↦ ?_, fun k ↦ ?_⟩
    · rw [← lookup_erase, ← lookup_erase]
      exact KeyedTable.lookup_eq_of_rows_perm h.orders o
    · rw [← lookup_erase_items, ← lookup_erase_items]
      exact KeyedTable.lookup_eq_of_rows_perm h.orderItems k
  · rintro ⟨horders, hitems⟩
    refine ⟨KeyedTable.rows_perm_of_lookup_eq fun o ↦ ?_,
      KeyedTable.rows_perm_of_lookup_eq fun k ↦ ?_⟩
    · rw [lookup_erase, lookup_erase, horders]
    · rw [lookup_erase_items, lookup_erase_items, hitems]

/-- The items of the tables are the same exactly if they were written alike.  An item shows its
quantity and price whether its order is there or not. -/
theorem Describes.items_erase_iff (h : rm.Describes engine past) (h' : rm'.Describes engine past') :
    (∀ k, (rm.orderItems.lookup k).map ItemRow.erase =
      (rm'.orderItems.lookup k).map ItemRow.erase) ↔
      ∀ o sku, past.findSome? (itemOf o sku) = past'.findSome? (itemOf o sku) := by
  constructor
  · intro hitems o sku
    have hvalues := congrArg (Option.map ItemRow.values) (hitems (o, sku))
    rw [Option.map_map, Option.map_map] at hvalues
    rw [← h.item, ← h'.item]
    exact hvalues
  · rintro hlast ⟨o, sku⟩
    have hvalues : (rm.orderItems.lookup (o, sku)).map ItemRow.values =
        (rm'.orderItems.lookup (o, sku)).map ItemRow.values := by
      rw [h.item, h'.item, hlast]
    cases hi : rm.orderItems.lookup (o, sku) with
    | none =>
      rw [hi] at hvalues
      rw [Option.map_eq_none_iff.1 hvalues.symm]
    | some i =>
      rw [hi] at hvalues
      obtain ⟨i', hi', hsame⟩ := Option.map_eq_some_iff.1 hvalues.symm
      rw [hi', Option.map_some, Option.map_some]
      refine congrArg some (erase_item_eq ?_ hsame.symm)
      rw [KeyedTable.key_of_lookup hi, KeyedTable.key_of_lookup hi']

/-- An order that was created shows its customer, its status and its total. -/
theorem erase_order_eq_iff {row row' : OrderRow} (hkey : row.orderId = row'.orderId) :
    row.erase = row'.erase ↔ row.customerId = row'.customerId ∧ row.status = row'.status ∧
      row.totalCents = row'.totalCents := by
  obtain ⟨o, c, st, total, now⟩ := row
  obtain ⟨o', c', st', total', now'⟩ := row'
  obtain rfl : o = o' := hkey
  simp [OrderRow.erase]

/-- Two totals are the same exactly if both have been computed, or neither, or it makes no
difference, because the items cost nothing. -/
theorem Describes.total_eq_iff (h : rm.Describes engine past) (h' : rm'.Describes engine past')
    (hfits : ∀ e ∈ past, e.priceFits = true) (hfits' : ∀ e ∈ past', e.priceFits = true)
    (hsum : sumIn past o = sumIn past' o) {row row' : OrderRow}
    (hrow : rm.orders.lookup o = some row) (hrow' : rm'.orders.lookup o = some row') :
    row.totalCents = row'.totalCents ↔
    (sumIn past o ≠ 0 → (Totalled o past ↔ Totalled o past')) := by
  obtain ⟨n, hn, hcases⟩ := h.total_eq hfits hrow
  obtain ⟨n', hn', hcases'⟩ := h'.total_eq hfits' hrow'
  rw [hn, hn', SqlNumber.integer.injEq]
  have hzero : ∀ m : Int64, m = 0 ↔ m.toInt = 0 := fun m ↦ (Int64.toInt_inj (y := 0)).symm
  rcases hcases with ⟨hyes, hn⟩ | ⟨hno, rfl⟩
  · rcases hcases' with ⟨hyes', hn'⟩ | ⟨hno', rfl⟩
    · have hsame : n = n' := Int64.toInt_inj.1 (by rw [hn, hn', hsum])
      simp [hyes, hyes', hsame]
    · rw [hzero, hn]
      simp [hyes, hno']
  · rcases hcases' with ⟨hyes', hn'⟩ | ⟨hno', rfl⟩
    · rw [eq_comm, hzero, hn', ← hsum]
      simp [hno, hyes']
    · simp [hno, hno']

/-- **The tables have the same rows exactly if the histories come to the same.**  The two read
models may be those of different engines and different runs; only what they describe matters. -/
theorem Describes.sameRows_iff (h : rm.Describes engine past) (h' : rm'.Describes engine past')
    (hfits : ∀ e ∈ past, e.priceFits = true) (hfits' : ∀ e ∈ past', e.priceFits = true) :
    SameRows rm.erase rm'.erase ↔ SameShown past past' := by
  rw [sameRows_erase_iff, h.items_erase_iff h']
  constructor
  -- from the tables to the histories: a column that is there was written last by somebody
  · rintro ⟨horders, hitem⟩
    have hcustomer : ∀ o, past.findSome? (customerOf o) = past'.findSome? (customerOf o) := by
      intro o
      have hsame := congrArg (Option.map OrderRow.customerId) (horders o)
      rw [Option.map_map, Option.map_map] at hsame
      rw [← h.customer, ← h'.customer]
      exact hsame
    have hcolumns : ∀ o, Created o past → ∃ row row', rm.orders.lookup o = some row ∧
        rm'.orders.lookup o = some row' ∧ row.status = row'.status ∧
          row.totalCents = row'.totalCents := by
      intro o hcreated
      obtain ⟨row, hrow⟩ := Option.isSome_iff_exists.1 ((h.isSome_lookup_iff o).2 hcreated)
      have hsame := horders o
      rw [hrow, Option.map_some, eq_comm, Option.map_eq_some_iff] at hsame
      obtain ⟨row', hrow', hsame⟩ := hsame
      have hkey : row'.orderId = row.orderId :=
        (KeyedTable.key_of_lookup hrow').trans (KeyedTable.key_of_lookup hrow).symm
      obtain ⟨-, hstatus, htotal⟩ := (erase_order_eq_iff hkey).1 hsame
      exact ⟨row, row', hrow, hrow', hstatus.symm, htotal.symm⟩
    refine ⟨hcustomer, fun o hcreated ↦ ?_, hitem, fun o hcreated ↦ ?_⟩
    · obtain ⟨row, row', hrow, hrow', hstatus, -⟩ := hcolumns o hcreated
      rw [h.status o row hrow, h'.status o row' hrow', hstatus]
    · obtain ⟨row, row', hrow, hrow', -, htotal⟩ := hcolumns o hcreated
      exact (h.total_eq_iff h' hfits hfits' (sumIn_congr (hitem o)) hrow hrow').1 htotal
  -- from the histories to the tables, one order at a time; without a customer there is no row
  · intro hshown
    refine ⟨fun o ↦ ?_, hshown.item⟩
    have hcustomer : (rm.orders.lookup o).map OrderRow.customerId =
        (rm'.orders.lookup o).map OrderRow.customerId := by
      rw [h.customer, h'.customer, hshown.customer]
    cases hrow : rm.orders.lookup o with
    | none =>
      rw [hrow] at hcustomer
      rw [Option.map_eq_none_iff.1 hcustomer.symm]
    | some row =>
      rw [hrow] at hcustomer
      obtain ⟨row', hrow', hsame⟩ := Option.map_eq_some_iff.1 hcustomer.symm
      have hcreated : Created o past := (h.isSome_lookup_iff o).1 (by rw [hrow]; rfl)
      have hkey : row.orderId = row'.orderId :=
        (KeyedTable.key_of_lookup hrow).trans (KeyedTable.key_of_lookup hrow').symm
      have hstatus : row.status = row'.status :=
        Option.some_inj.1 ((h.status o row hrow).symm.trans
          ((hshown.status o hcreated).trans (h'.status o row' hrow')))
      have htotal : row.totalCents = row'.totalCents :=
        (h.total_eq_iff h' hfits hfits' (sumIn_congr (hshown.item o)) hrow hrow').2
          (hshown.totalled o hcreated)
      rw [hrow', Option.map_some, Option.map_some]
      exact congrArg some ((erase_order_eq_iff hkey).2 ⟨hsame.symm, hstatus, htotal⟩)

end ReadModel

namespace OrderProjection

open ReadModel

/-- **What can be seen of a history.**  Two projections started on empty tables, and have applied
envelopes in any way.  Their tables have the same rows exactly if the histories wrote the same last.
That is about both directions: nothing else can be seen, and all of this can. -/
theorem same_tables_iff (bus : SqliteBus) (engine : SqlEngine) (db db' : Database)
    (checkpoints checkpoints' : KeyedTable CheckpointRow.name) (s t : World)
    (hs : Reachable (World.step bus engine) (.start ⟨db, .empty, checkpoints⟩) s)
    (ht : Reachable (World.step bus engine) (.start ⟨db', .empty, checkpoints'⟩) t)
    (hfits : ∀ e ∈ s.past, e.priceFits = true) (hfits' : ∀ e ∈ t.past, e.priceFits = true) :
    SameRows s.readModel.erase t.readModel.erase ↔ SameShown s.past t.past :=
  (World.describes_of_reachable hs).sameRows_iff (World.describes_of_reachable ht) hfits hfits'

/-- Two orders, one after the other. -/
def inTurnRun : List Action :=
  [.apply orderCreated 1, .save 1, .apply itemAdded 2, .save 2, .apply otherCreated 3, .save 3]

/-- The other order comes first, and the first one twice. -/
def outOfTurnRun : List Action :=
  [.apply otherCreated 1, .save 1, .apply orderCreated 2, .fail "busy", .apply orderCreated 3,
    .save 3,
    .apply itemAdded 4, .save 4]

/-- What the runs have applied, the newest first. -/
theorem sameShown_runs :
    SameShown [.created "ord_2" "cust_2" "open", .itemAdded "ord_1" "sku_1" 2 500,
        .created "ord_1" "cust_1" "open"]
      [.itemAdded "ord_1" "sku_1" 2 500, .created "ord_1" "cust_1" "open",
        .created "ord_1" "cust_1" "open", .created "ord_2" "cust_2" "open"] where
  customer o := by
    by_cases ho : "ord_2" = o
    · subst ho
      decide
    · by_cases ho' : "ord_1" = o <;> simp [List.findSome?_cons, customerOf, ho, ho']
  status o _ := by
    by_cases ho : "ord_2" = o
    · subst ho
      decide
    · by_cases ho' : "ord_1" = o <;> simp [List.findSome?_cons, statusOf, ho, ho']
  item o sku := by
    by_cases hkey : ("ord_1", "sku_1") = (o, sku) <;> simp [List.findSome?_cons, itemOf, hkey]
  totalled o _ _ := by
    have hnil : ¬Totalled o [] := fun h ↦ by simpa using h.exists_addsItem
    by_cases ho : "ord_1" = o
    · subst ho
      simp [totalled_cons_iff, addsItem, Created, hnil]
    · simp [totalled_cons_iff, addsItem, hnil, ho]

/-- The same rows, in another order. -/
theorem outOfTurnRun_same : ∃ s t,
    run (World.step ordersBus .plain) (.start .empty) inTurnRun = some s ∧
    run (World.step ordersBus .plain) (.start .empty) outOfTurnRun = some t ∧
    s.readModel.orders.rows.map OrderRow.orderId = ["ord_1", "ord_2"] ∧
    t.readModel.orders.rows.map OrderRow.orderId = ["ord_2", "ord_1"] ∧
    SameRows s.readModel.erase t.readModel.erase := by
  have hrun : (run (World.step ordersBus .plain) (.start .empty) inTurnRun).map (fun s ↦
      (s.readModel.orders.rows.map OrderRow.orderId, s.past)) =
      some (["ord_1", "ord_2"], [.created "ord_2" "cust_2" "open", .itemAdded "ord_1" "sku_1" 2 500,
        .created "ord_1" "cust_1" "open"]) := by decide +kernel
  have hrun' : (run (World.step ordersBus .plain) (.start .empty) outOfTurnRun).map (fun s ↦
      (s.readModel.orders.rows.map OrderRow.orderId, s.past)) =
      some (["ord_2", "ord_1"], [.itemAdded "ord_1" "sku_1" 2 500, .created "ord_1" "cust_1" "open",
        .created "ord_1" "cust_1" "open", .created "ord_2" "cust_2" "open"]) := by decide +kernel
  obtain ⟨s, hs, hend⟩ := Option.map_eq_some_iff.1 hrun
  obtain ⟨hrows, hpast⟩ := Prod.mk.inj hend
  obtain ⟨t, ht, hend'⟩ := Option.map_eq_some_iff.1 hrun'
  obtain ⟨hrows', hpast'⟩ := Prod.mk.inj hend'
  refine ⟨s, t, hs, ht, hrows, hrows',
    (same_tables_iff ordersBus .plain .empty .empty .empty .empty s t
    ⟨_, hs⟩ ⟨_, ht⟩ ?_ ?_).2 ?_⟩
  · rw [hpast]
    decide
  · rw [hpast']
    decide
  · rw [hpast, hpast']
    exact sameShown_runs

end OrderProjection

end PhenoEvents
