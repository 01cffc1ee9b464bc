import PhenoEvents.Library.Confinement
import PhenoEvents.Projection.Checkpoint
import PhenoEvents.Projection.Writes

/-!
# Orders do not interfere

The rows of one order are a read model of their own (`ReadModel.only`).  An event about the order
does to them what it does to the whole tables, its sum and its failures included (`only_write`), and
any other event leaves them alone (`only_write_of_ne`).  So the steps of the projection are confined
to the orders the envelopes name, and what a sequence of envelopes makes of an order is what the
ones that name it make of it (`orders_separate`).

A call of `apply` that fails changes nothing, and the next one goes on from there.  The clock only
reaches the `updated_at` columns.

What is shown of an order is the same in two sequences that agree on its envelopes, in whatever way
the others come between them.  Where its rows are in the tables is not: that depends on which orders
came first.

## How it goes

* `names o` is a predicate on envelopes, and `OrderEvent.order` the same on the events the handlers
  read of them (`order_eq_some_iff_names`).
* Each statement commutes with `only o` if it is about `o`, and does not show in `only o` if it is
  about another order.
* `confined_afterApply` puts this in the terms of the library: the steps are confined, and then a
  run can be cut down to the steps that matter to one part of the state.
* `sameRows_of_only`: tables that agree on every order have the same rows, in some order.
-/

set_option autoImplicit false

namespace PhenoEvents

open Except Confinement

/-- The order an event is about.  Every event the handlers know is about one order. -/
def OrderEvent.order : OrderEvent → Option String
  | .created o _ _ | .itemAdded o _ _ _ | .cancelled o => some o
  | .other => none

/-- The envelope is one of an order, and its payload names this one. -/
def names (o : String) (envelope : EventEnvelope) : Bool :=
  envelope.eventType ∈ ["order.created", "order.item_added", "order.cancelled"] ∧
    (envelope.payload.get "order_id").bind Value.asStr = some o

theorem order_eq_some_iff_names {envelope : EventEnvelope} {event : OrderEvent} {o : String}
    (h : readEvent envelope = .ok event) : event.order = some o ↔ names o envelope = true := by
  have hnames : names o envelope = true ↔
      envelope.eventType ∈ ["order.created", "order.item_added", "order.cancelled"] ∧
        requiredStr envelope.payload "order_id" = .ok o := by
    rw [names, decide_eq_true_eq, requiredStr_eq_ok_iff]
  rw [hnames]
  unfold readEvent at h
  split at h
  · rename_i htype
    obtain ⟨o', ho, h⟩ := bind_eq_ok_iff.1 h
    obtain ⟨c, -, h⟩ := bind_eq_ok_iff.1 h
    obtain rfl := Except.ok.inj h
    simp [OrderEvent.order, htype, ho]
  · rename_i htype
    obtain ⟨o', ho, h⟩ := bind_eq_ok_iff.1 h
    obtain ⟨sku, -, h⟩ := bind_eq_ok_iff.1 h
    obtain ⟨q, -, h⟩ := bind_eq_ok_iff.1 h
    obtain ⟨p, -, h⟩ := bind_eq_ok_iff.1 h
    obtain rfl := Except.ok.inj h
    simp [OrderEvent.order, htype, ho]
  · rename_i htype
    obtain ⟨o', ho, h⟩ := bind_eq_ok_iff.1 h
    obtain rfl := Except.ok.inj h
    simp [OrderEvent.order, htype, ho]
  · rename_i hcreated hadded hcancelled
    obtain rfl := Except.ok.inj h
    refine ⟨fun hother ↦ (by cases hother), fun ⟨htype, _⟩ ↦ ?_⟩
    rcases List.mem_cons.1 htype with htype | htype
    · exact (hcreated htype).elim
    · rcases List.mem_cons.1 htype with htype | htype
      · exact (hadded htype).elim
      · exact (hcancelled (List.mem_singleton.1 htype)).elim

namespace ReadModel

variable {engine : SqlEngine} {now : Instant} {rm rm' : ReadModel} {o o' : String}

/-- The rows of one order: its own row, if it is there, and its items. -/
def only (o : String) (rm : ReadModel) : ReadModel where
  orders := rm.orders.filterRows fun r : OrderRow ↦ r.orderId = o
  orderItems := rm.orderItems.filterRows fun i : ItemRow ↦ i.orderId = o

theorem lookup_only : (rm.only o).orders.lookup o = rm.orders.lookup o :=
  KeyedTable.lookup_filterRows fun _ hr ↦ decide_eq_true hr

theorem lookup_only_items (sku : String) :
    (rm.only o).orderItems.lookup (o, sku) = rm.orderItems.lookup (o, sku) :=
  KeyedTable.lookup_filterRows fun _ hi ↦ decide_eq_true (congrArg Prod.fst hi)

theorem linesOf_only : (rm.only o).linesOf o = rm.linesOf o := by
  refine congrArg (List.map ItemRow.line) ?_
  show (rm.orderItems.rows.filter fun i : ItemRow ↦ i.orderId = o).filter _ = _
  rw [List.filter_filter]
  simp

/-! ## Events of the order

Each statement commutes with taking the rows of the order.  The sum is over the items of the order,
and these are all there. -/

theorem only_writeOrder (c st : String) :
    (rm.writeOrder now o c st).only o = (rm.only o).writeOrder now o c st :=
  ext (rm.orders.filterRows_upsert (fun r _ ↦ r.orderId_recreated now c st)
    fun _ hr ↦ decide_eq_true hr) rfl

theorem only_writeItem (sku : String) (q p : Int64) :
    (rm.writeItem now o sku q p).only o = (rm.only o).writeItem now o sku q p :=
  ext rfl (rm.orderItems.filterRows_upsert (fun i _ ↦ i.key_replaced now q p)
    fun _ hi ↦ decide_eq_true (congrArg Prod.fst hi))

theorem only_setTotal (total : SqlNumber) :
    (rm.setTotal now o' total).only o = (rm.only o).setTotal now o' total :=
  ext (rm.orders.filterRows_updateWhere (fun r _ ↦ r.orderId_withTotal now total) fun _ _ ↦ rfl) rfl

theorem only_writeStatus (st : String) :
    (rm.writeStatus now o' st).only o = (rm.only o).writeStatus now o' st :=
  ext (rm.orders.filterRows_updateWhere (fun r _ ↦ r.orderId_withStatus now st) fun _ _ ↦ rfl) rfl

theorem only_updateTotal :
    (rm.updateTotal engine now o).map (only o) = (rm.only o).updateTotal engine now o := by
  rw [updateTotal, updateTotal, lookup_only, linesOf_only]
  split
  · cases totalOf engine (rm.linesOf o) with
    | error e => rfl
    | ok total => exact congrArg Except.ok (only_setTotal total)
  · rfl

/-- **An event does to the rows of its order what it does to the tables.**  If one of the two fails,
so does the other, and with the same error. -/
theorem only_write {event : OrderEvent} (h : event.order = some o) :
    (rm.write engine now event).map (only o) = (rm.only o).write engine now event := by
  cases event with
  | created o' c st =>
    obtain rfl := Option.some_inj.1 h
    exact congrArg Except.ok (only_writeOrder c st)
  | itemAdded o' sku q p =>
    obtain rfl := Option.some_inj.1 h
    rw [write, only_updateTotal, only_writeItem]
    rfl
  | cancelled o' => exact congrArg Except.ok (only_writeStatus "cancelled")
  | other => cases h

/-! ## Other events

Each statement selects by the key of its own order, and so it finds nothing among the rows of
another. -/

theorem only_writeOrder_of_ne (h : o' ≠ o) (c st : String) :
    (rm.writeOrder now o' c st).only o = rm.only o :=
  ext (rm.orders.filterRows_upsert_of_false (fun r _ ↦ r.orderId_recreated now c st)
    fun _ hr ↦ decide_eq_false fun ho ↦ h (hr.symm.trans ho)) rfl

theorem only_writeItem_of_ne (h : o' ≠ o) (sku : String) (q p : Int64) :
    (rm.writeItem now o' sku q p).only o = rm.only o :=
  ext rfl (rm.orderItems.filterRows_upsert_of_false (fun i _ ↦ i.key_replaced now q p)
    fun _ hi ↦ decide_eq_false fun ho ↦ h ((congrArg Prod.fst hi).symm.trans ho))

theorem only_setTotal_of_ne (h : o' ≠ o) (total : SqlNumber) :
    (rm.setTotal now o' total).only o = rm.only o :=
  ext (rm.orders.filterRows_updateWhere_of_false (fun r _ ↦ r.orderId_withTotal now total)
    (fun _ _ ↦ rfl) fun _ hr ↦ decide_eq_false fun ho ↦ h ((of_decide_eq_true hr).symm.trans ho))
    rfl

theorem only_writeStatus_of_ne (h : o' ≠ o) (st : String) :
    (rm.writeStatus now o' st).only o = rm.only o :=
  ext (rm.orders.filterRows_updateWhere_of_false (fun r _ ↦ r.orderId_withStatus now st)
    (fun _ _ ↦ rfl) fun _ hr ↦ decide_eq_false fun ho ↦ h ((of_decide_eq_true hr).symm.trans ho))
    rfl

/-- **An event leaves the rows of other orders alone.** -/
theorem only_write_of_ne {event : OrderEvent} (h : event.order ≠ some o)
    (hrm : rm.write engine now event = .ok rm') : rm'.only o = rm.only o := by
  cases event with
  | created o' c st =>
    obtain rfl := Except.ok.inj hrm
    exact only_writeOrder_of_ne (fun ho ↦ h (congrArg some ho)) c st
  | itemAdded o' sku q p =>
    have ho : o' ≠ o := fun ho ↦ h (congrArg some ho)
    rcases updateTotal_eq_ok_iff.1 hrm with ⟨-, rfl⟩ | ⟨-, total, -, rfl⟩
    · exact only_writeItem_of_ne ho sku q p
    · exact (only_setTotal_of_ne ho total).trans (only_writeItem_of_ne ho sku q p)
  | cancelled o' =>
    obtain rfl := Except.ok.inj hrm
    exact only_writeStatus_of_ne (fun ho ↦ h (congrArg some ho)) "cancelled"
  | other =>
    obtain rfl := Except.ok.inj hrm
    rfl

/-! ## Envelopes

An envelope names an order by its payload.  One that names none, or cannot be read, changes nothing.
-/

/-- **The projection is confined to the orders the envelopes name.**  A failing envelope is confined
too, as it changes nothing. -/
theorem confined_afterApply (engine : SqlEngine) : Confined (afterApply engine 0) names only := by
  refine confined_of_commutes (fun o rm envelope hnames ↦ ?_) fun o rm envelope hnames ↦ ?_
  · cases hrm : rm.applyOrderEvent engine 0 envelope with
    | error e => rw [afterApply_of_error hrm]
    | ok rm' =>
      rw [afterApply_of_ok hrm]
      rw [applyOrderEvent_eq, bind_eq_ok_iff] at hrm
      obtain ⟨event, hread, hwrite⟩ := hrm
      refine only_write_of_ne (fun horder ↦ ?_) hwrite
      rw [(order_eq_some_iff_names hread).1 horder] at hnames
      cases hnames
  · refine map_afterApply ?_
    rw [applyOrderEvent_eq, applyOrderEvent_eq]
    cases hread : readEvent envelope with
    | error e => rfl
    | ok event => exact only_write ((order_eq_some_iff_names hread).2 hnames)

/-- The tables have the same rows, in whatever places. -/
structure SameRows (rm rm' : ReadModel) : Prop where
  orders : rm.orders.rows.Perm rm'.orders.rows
  orderItems : rm.orderItems.rows.Perm rm'.orderItems.rows

theorem sameRows_of_only (h : ∀ o, rm.only o = rm'.only o) : SameRows rm rm' where
  orders := KeyedTable.rows_perm_of_lookup_eq fun o ↦ by rw [← lookup_only, h o, lookup_only]
  orderItems := KeyedTable.rows_perm_of_lookup_eq fun (o, sku) ↦ by
    rw [← lookup_only_items, h o, lookup_only_items]

end ReadModel

/-! ## Sequences of envelopes

Each envelope is applied by a call of its own, which may fail, and at a time of its own, which does
not matter to the erased tables. -/

namespace OrderProjection

open ReadModel

variable {engine : SqlEngine}

theorem erase_apply (clock : Instant × Instant) (envelope : EventEnvelope) (p : OrderProjection) :
    (apply engine clock envelope p).1.pool.readModel.erase =
      p.pool.readModel.erase.afterApply engine 0 envelope := by
  rw [readModel_apply]
  exact map_afterApply (erase_applyOrderEvent envelope)

theorem erase_applyEach (envelopes : List ((Instant × Instant) × EventEnvelope))
    (p : OrderProjection) : (applyEach engine envelopes p).pool.readModel.erase =
      (envelopes.map Prod.snd).foldl (afterApply engine 0) p.pool.readModel.erase := by
  induction envelopes generalizing p with
  | nil => rfl
  | cons e envelopes ih =>
    rw [List.map_cons, List.foldl_cons, ← erase_apply e.1]
    exact ih (apply engine e.1 e.2 p).1

/-- **What becomes of an order is up to the envelopes that name it.**  Two sequences are applied to
empty tables.  If one is what the other says of an order, they end with the same rows of that order,
and if they say the same of every order, however interleaved, they end with the same rows.  Sums
that overflow are included: the envelope fails in both. -/
theorem orders_separate (engine : SqlEngine) (envelopes envelopes' :
      List ((Instant × Instant) × EventEnvelope)) (p p' : OrderProjection)
    (hempty : p.pool.readModel = .empty) (hempty' : p'.pool.readModel = .empty) :
    let rm := (applyEach engine envelopes p).pool.readModel.erase
    let rm' := (applyEach engine envelopes' p').pool.readModel.erase
    (∀ o, envelopes'.map Prod.snd = (envelopes.map Prod.snd).filter (names o) →
        rm.only o = rm'.only o) ∧
      ((∀ o, (envelopes.map Prod.snd).filter (names o) =
          (envelopes'.map Prod.snd).filter (names o)) → SameRows rm rm') := by
  intro rm rm'
  have hconfined := confined_afterApply engine
  have hrm : rm = (envelopes.map Prod.snd).foldl (afterApply engine 0) ReadModel.empty.erase := by
    rw [← hempty]
    exact erase_applyEach envelopes p
  have hrm' : rm' = (envelopes'.map Prod.snd).foldl (afterApply engine 0)
    ReadModel.empty.erase := by
    rw [← hempty']
    exact erase_applyEach envelopes' p'
  rw [hrm, hrm']
  refine ⟨fun o hnamed ↦ ?_, fun hsame ↦ sameRows_of_only fun o ↦ ?_⟩
  · rw [hnamed]
    exact hconfined.part_foldl rfl
  · exact hconfined.part_foldl_eq rfl (hsame o)

/-- Another order is created. -/
def otherCreated : EventEnvelope :=
  orderEvent ⟨4⟩ "order.created"
    (.ofEntries [("customer_id", .string "cust_2"), ("order_id", .string "ord_2")] (by decide))

/-- The same item is added to it. -/
def otherItemAdded : EventEnvelope :=
  orderEvent ⟨5⟩ "order.item_added"
    (.ofEntries [("order_id", .string "ord_2"), ("quantity", .number (.posInt 7)),
      ("sku", .string "sku_1"), ("unit_price_cents", .number (.posInt 300))] (by decide))

theorem names_eq {envelope : EventEnvelope} {o : String}
    (htype : envelope.eventType ∈ ["order.created", "order.item_added", "order.cancelled"])
    (hpayload : (envelope.payload.get "order_id").bind Value.asStr = some o) (o' : String) :
    names o' envelope = decide (o = o') := by
  rw [names, hpayload]
  simp [htype]

/-- The order on its own, next to the other one, and after it. -/
theorem interleavedOrders_separate :
    let alone := applyEach .plain [((1, 1), orderCreated), ((2, 2), itemAdded)] (.new .empty)
    let next := applyEach .plain [((1, 1), orderCreated), ((3, 3), otherCreated),
      ((4, 4), otherItemAdded), ((5, 5), itemAdded)] (.new .empty)
    let behind := applyEach .plain [((3, 3), otherCreated), ((4, 4), otherItemAdded),
      ((6, 6), orderCreated), ((7, 7), itemAdded)] (.new .empty)
    next.pool.readModel.erase.only "ord_1" = alone.pool.readModel.erase.only "ord_1" ∧
      SameRows next.pool.readModel.erase behind.pool.readModel.erase := by
  have hcreated : ∀ o, names o orderCreated = decide ("ord_1" = o) :=
    names_eq (by decide) (by decide +kernel)
  have hadded : ∀ o, names o itemAdded = decide ("ord_1" = o) :=
    names_eq (by decide) (by decide +kernel)
  have hcreated' : ∀ o, names o otherCreated = decide ("ord_2" = o) :=
    names_eq (by decide) (by decide +kernel)
  have hadded' : ∀ o, names o otherItemAdded = decide ("ord_2" = o) :=
    names_eq (by decide) (by decide +kernel)
  constructor
  · refine (orders_separate .plain _ _ (.new .empty) (.new .empty) rfl rfl).1 "ord_1" ?_
    simp [hcreated, hadded, hcreated', hadded']
  · refine (orders_separate .plain _ _ (.new .empty) (.new .empty) rfl rfl).2 fun o ↦ ?_
    by_cases hfirst : "ord_1" = o
    · subst hfirst
      simp [hcreated, hadded, hcreated', hadded']
    · simp [List.filter_cons, hcreated, hadded, hcreated', hadded', hfirst]

end OrderProjection

end PhenoEvents
