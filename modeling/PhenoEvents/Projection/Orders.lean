import PhenoEvents.Envelope
import PhenoEvents.Library.KeyedTable
import PhenoEvents.Projection.Sql

/-!
# The read model of orders

`apply_order_event` and the three handlers behind it, on the tables `orders` and `order_items`.

A handler first reads its payload, field by field, and stops at the first that is missing or of the
wrong type; then it writes.  The two halves are also available apart: `readEvent` is what an
envelope says (`OrderEvent`), `ReadModel.write` is what the read model does with it, and
`applyOrderEvent_eq` puts them together.  Later modules argue about `OrderEvent`s.

`upsert_item` is one transaction: if the total cannot be computed, the item is not written either.
The subquery is evaluated only if there is an order to update.

The clock is an argument.  It reaches the `updated_at` columns and nothing else: `ReadModel.erase`
clears them, and `erase_write` says that the write of an erased model is the erased write.

An envelope of any other type than the three is not an error.  The handlers leave it alone, and the
projection counts it as applied (`OrderEvent.other`, where nothing is written).
-/

set_option autoImplicit false

namespace PhenoEvents

open Except

/-- `ProjectionError`. -/
inductive ProjectionError
  | missingField (field : String)
  | invalidField (field : String)
  | json (message : String)
  | sqlite (message : String)
  deriving DecidableEq

/-- A row of `orders`. -/
structure OrderRow where
  orderId : String
  customerId : String
  status : String
  totalCents : SqlNumber
  updatedAt : Instant
  deriving DecidableEq

/-- A row of `order_items`. -/
structure ItemRow where
  orderId : String
  sku : String
  quantity : Int64
  unitPriceCents : Int64
  updatedAt : Instant
  deriving DecidableEq

/-- The primary key of `order_items`. -/
def ItemRow.key (i : ItemRow) : String × String := (i.orderId, i.sku)

/-- The order after another `order.created`. -/
def OrderRow.recreated (now : Instant) (customerId status : String) (r : OrderRow) : OrderRow :=
  { r with customerId := customerId, status := status, updatedAt := now }

/-- The order with another total. -/
def OrderRow.withTotal (now : Instant) (totalCents : SqlNumber) (r : OrderRow) : OrderRow :=
  { r with totalCents := totalCents, updatedAt := now }

/-- The order with another status. -/
def OrderRow.withStatus (now : Instant) (status : String) (r : OrderRow) : OrderRow :=
  { r with status := status, updatedAt := now }

/-- The item after another `order.item_added`. -/
def ItemRow.replaced (now : Instant) (quantity unitPriceCents : Int64) (i : ItemRow) : ItemRow :=
  { i with quantity := quantity, unitPriceCents := unitPriceCents, updatedAt := now }

theorem OrderRow.orderId_recreated (now : Instant) (customerId status : String) (r : OrderRow) :
    (r.recreated now customerId status).orderId = r.orderId := rfl

theorem OrderRow.orderId_withTotal (now : Instant) (totalCents : SqlNumber) (r : OrderRow) :
    (r.withTotal now totalCents).orderId = r.orderId := rfl

theorem OrderRow.orderId_withStatus (now : Instant) (status : String) (r : OrderRow) :
    (r.withStatus now status).orderId = r.orderId := rfl

theorem ItemRow.key_replaced (now : Instant) (quantity unitPriceCents : Int64) (i : ItemRow) :
    (i.replaced now quantity unitPriceCents).key = i.key := rfl

/-- What the total reads of an item. -/
def ItemRow.line (i : ItemRow) : Line := ⟨i.sku, i.quantity, i.unitPriceCents⟩

/-- The tables `migrate_orders` creates. -/
structure ReadModel where
  orders : KeyedTable OrderRow.orderId
  orderItems : KeyedTable ItemRow.key

/-! ## Reading the payload

`required_str` and `required_i64` say which field is missing, with the text the source has.  The
fields are read in a fixed order, so the error of a payload with several faults is that of the first
of them. -/

/-- `required_str`. -/
def requiredStr (payload : Value) (field : String) : Except ProjectionError String :=
  match payload.get field with
  | none => .error (.missingField field)
  | some value =>
    match value.asStr with
    | none => .error (.invalidField field)
    | some s => .ok s

/-- `required_i64`. -/
def requiredI64 (payload : Value) (field : String) : Except ProjectionError Int64 :=
  match payload.get field with
  | none => .error (.missingField field)
  | some value =>
    match value.asI64 with
    | none => .error (.invalidField field)
    | some n => .ok n

/-- The `status` of an `order.created` payload. -/
def statusOrOpen (payload : Value) : String :=
  ((payload.get "status").bind Value.asStr).getD "open"

/-! ## Writing

The statements of the handlers, each of them an operation on one table.  Every one of them sets
`updated_at` to the time it is given. -/

namespace ReadModel

/-- The tables as `migrate_orders` creates them. -/
def empty : ReadModel := ⟨.empty, .empty⟩

/-- What the total of an order is computed from. -/
def linesOf (rm : ReadModel) (orderId : String) : List Line :=
  (rm.orderItems.rows.filter fun i : ItemRow ↦ i.orderId = orderId).map ItemRow.line

/-- The statement of `upsert_order`. -/
def writeOrder (now : Instant) (orderId customerId status : String) (rm : ReadModel) : ReadModel :=
  { rm with
    orders := rm.orders.upsert ⟨orderId, customerId, status, .integer 0, now⟩
      (OrderRow.recreated now customerId status)
      fun r _ ↦ r.orderId_recreated now customerId status }

/-- The first statement of `upsert_item`. -/
def writeItem (now : Instant) (orderId sku : String) (quantity unitPriceCents : Int64)
    (rm : ReadModel) : ReadModel :=
  { rm with
    orderItems := rm.orderItems.upsert ⟨orderId, sku, quantity, unitPriceCents, now⟩
      (ItemRow.replaced now quantity unitPriceCents)
      fun i _ ↦ i.key_replaced now quantity unitPriceCents }

/-- Write the total of an order. -/
def setTotal (now : Instant) (orderId : String) (total : SqlNumber) (rm : ReadModel) : ReadModel :=
  { rm with
    orders := rm.orders.updateWhere (fun r : OrderRow ↦ r.orderId = orderId)
      (OrderRow.withTotal now total) fun r _ ↦ r.orderId_withTotal now total }

/-- The second statement of `upsert_item`. -/
def updateTotal (engine : SqlEngine) (now : Instant) (orderId : String) (rm : ReadModel) :
    Except ProjectionError ReadModel :=
  if (rm.orders.lookup orderId).isSome then do
    let total ← (totalOf engine (rm.linesOf orderId)).mapError .sqlite
    return rm.setTotal now orderId total
  else return rm

/-- The statement of `set_order_status`. -/
def writeStatus (now : Instant) (orderId status : String) (rm : ReadModel) : ReadModel :=
  { rm with
    orders := rm.orders.updateWhere (fun r : OrderRow ↦ r.orderId = orderId)
      (OrderRow.withStatus now status) fun r _ ↦ r.orderId_withStatus now status }

/-! ## The handlers

A handler reads its fields in the order of the source and returns the error of the first that is
missing or of the wrong type; nothing has been written by then. -/

/-- `upsert_order`. -/
def upsertOrder (now : Instant) (payload : Value) (rm : ReadModel) :
    Except ProjectionError ReadModel := do
  let orderId ← requiredStr payload "order_id"
  let customerId ← requiredStr payload "customer_id"
  return rm.writeOrder now orderId customerId (statusOrOpen payload)

/-- `upsert_item`. -/
def upsertItem (engine : SqlEngine) (now : Instant) (payload : Value) (rm : ReadModel) :
    Except ProjectionError ReadModel := do
  let orderId ← requiredStr payload "order_id"
  let sku ← requiredStr payload "sku"
  let quantity ← requiredI64 payload "quantity"
  let unitPriceCents ← requiredI64 payload "unit_price_cents"
  (rm.writeItem now orderId sku quantity unitPriceCents).updateTotal engine now orderId

/-- `set_order_status`. -/
def setOrderStatus (now : Instant) (payload : Value) (status : String) (rm : ReadModel) :
    Except ProjectionError ReadModel := do
  let orderId ← requiredStr payload "order_id"
  return rm.writeStatus now orderId status

/-- `apply_order_event`. -/
def applyOrderEvent (engine : SqlEngine) (now : Instant) (envelope : EventEnvelope)
    (rm : ReadModel) : Except ProjectionError ReadModel :=
  match envelope.eventType with
  | "order.created" => rm.upsertOrder now envelope.payload
  | "order.item_added" => rm.upsertItem engine now envelope.payload
  | "order.cancelled" => rm.setOrderStatus now envelope.payload "cancelled"
  | _ => .ok rm

/-- The tables after an envelope, whether or not it could be applied. -/
def afterApply (engine : SqlEngine) (now : Instant) (rm : ReadModel) (envelope : EventEnvelope) :
    ReadModel :=
  match rm.applyOrderEvent engine now envelope with
  | .ok rm' => rm'
  | .error _ => rm

theorem afterApply_of_ok {engine : SqlEngine} {now : Instant} {rm rm' : ReadModel}
    {envelope : EventEnvelope} (h : rm.applyOrderEvent engine now envelope = .ok rm') :
    rm.afterApply engine now envelope = rm' := by
  rw [afterApply, h]

theorem afterApply_of_error {engine : SqlEngine} {now : Instant} {rm : ReadModel}
    {envelope : EventEnvelope} {error : ProjectionError}
    (h : rm.applyOrderEvent engine now envelope = .error error) :
    rm.afterApply engine now envelope = rm := by
  rw [afterApply, h]

/-- A view of the tables on which an envelope does what it does to the tables. -/
theorem map_afterApply {engine : SqlEngine} {now now' : Instant} {rm : ReadModel}
    {envelope : EventEnvelope} {f : ReadModel → ReadModel}
    (h : (rm.applyOrderEvent engine now envelope).map f =
      (f rm).applyOrderEvent engine now' envelope) :
    f (rm.afterApply engine now envelope) = (f rm).afterApply engine now' envelope := by
  cases hrm : rm.applyOrderEvent engine now envelope with
  | error e =>
    rw [hrm] at h
    rw [afterApply_of_error hrm, afterApply_of_error h.symm]
  | ok rm' =>
    rw [hrm] at h
    rw [afterApply_of_ok hrm, afterApply_of_ok h.symm]

end ReadModel

/-! ## Reading and writing apart

What a handler reads does not depend on the tables, and what it writes depends on nothing but what
it has read. -/

/-- What an envelope says about orders, once its fields have been read.  `other` is an envelope that
is about something else. -/
inductive OrderEvent
  | created (orderId customerId status : String)
  | itemAdded (orderId sku : String) (quantity unitPriceCents : Int64)
  | cancelled (orderId : String)
  | other
  deriving DecidableEq

/-- What the handlers read of an envelope. -/
def readEvent (envelope : EventEnvelope) : Except ProjectionError OrderEvent :=
  match envelope.eventType with
  | "order.created" => do
    let orderId ← requiredStr envelope.payload "order_id"
    let customerId ← requiredStr envelope.payload "customer_id"
    return .created orderId customerId (statusOrOpen envelope.payload)
  | "order.item_added" => do
    let orderId ← requiredStr envelope.payload "order_id"
    let sku ← requiredStr envelope.payload "sku"
    let quantity ← requiredI64 envelope.payload "quantity"
    let unitPriceCents ← requiredI64 envelope.payload "unit_price_cents"
    return .itemAdded orderId sku quantity unitPriceCents
  | "order.cancelled" => do
    let orderId ← requiredStr envelope.payload "order_id"
    return .cancelled orderId
  | _ => return .other

theorem requiredStr_eq_ok_iff {payload : Value} {field s : String} :
    requiredStr payload field = .ok s ↔ (payload.get field).bind Value.asStr = some s := by
  rw [requiredStr]
  cases payload.get field with
  | none => simp
  | some value => cases h : value.asStr <;> simp [h]

theorem requiredI64_eq_ok_iff {payload : Value} {field : String} {n : Int64} :
    requiredI64 payload field = .ok n ↔ (payload.get field).bind Value.asI64 = some n := by
  rw [requiredI64]
  cases payload.get field with
  | none => simp
  | some value => cases h : value.asI64 <;> simp [h]

/-- The fields that have to be strings. -/
def requiredStrs : String → List String
  | "order.created" => ["order_id", "customer_id"]
  | "order.item_added" => ["order_id", "sku"]
  | "order.cancelled" => ["order_id"]
  | _ => []

/-- The fields that have to be integers. -/
def requiredI64s : String → List String
  | "order.item_added" => ["quantity", "unit_price_cents"]
  | _ => []

/-- Every field that is read is there and of its type. -/
def EventEnvelope.WellFormed (envelope : EventEnvelope) : Prop :=
  (∀ field ∈ requiredStrs envelope.eventType,
      ((envelope.payload.get field).bind Value.asStr).isSome) ∧
    ∀ field ∈ requiredI64s envelope.eventType,
      ((envelope.payload.get field).bind Value.asI64).isSome

instance (envelope : EventEnvelope) : Decidable envelope.WellFormed :=
  inferInstanceAs (Decidable (_ ∧ _))

/-- **The handlers can read an envelope exactly if it is well formed.**  The tables have nothing to
do with it, so an envelope that cannot be read now can never be. -/
theorem exists_readEvent_iff {envelope : EventEnvelope} :
    (∃ event, readEvent envelope = .ok event) ↔ envelope.WellFormed := by
  unfold EventEnvelope.WellFormed readEvent
  simp only [Option.isSome_iff_exists, ← requiredStr_eq_ok_iff, ← requiredI64_eq_ok_iff]
  split
  · rename_i hcreated
    simp [hcreated, requiredStrs, requiredI64s, bind_eq_ok_iff, pure, Except.pure]
  · rename_i hadded
    simp [hadded, requiredStrs, requiredI64s, bind_eq_ok_iff, pure, Except.pure, and_assoc]
  · rename_i hcancelled
    simp [hcancelled, requiredStrs, requiredI64s, bind_eq_ok_iff, pure, Except.pure]
  · rename_i hcreated hadded hcancelled
    simp [requiredStrs, requiredI64s, pure, Except.pure]

namespace ReadModel

/-- What the read model does with an event. -/
def write (engine : SqlEngine) (now : Instant) (rm : ReadModel) :
    OrderEvent → Except ProjectionError ReadModel
  | .created orderId customerId status => .ok (rm.writeOrder now orderId customerId status)
  | .itemAdded orderId sku quantity unitPriceCents =>
    (rm.writeItem now orderId sku quantity unitPriceCents).updateTotal engine now orderId
  | .cancelled orderId => .ok (rm.writeStatus now orderId "cancelled")
  | .other => .ok rm

/-- **Applying an envelope is reading it and writing what it says.**  The errors of the two are told
apart by their kind. -/
theorem applyOrderEvent_eq (engine : SqlEngine) (now : Instant) (envelope : EventEnvelope)
    (rm : ReadModel) :
    rm.applyOrderEvent engine now envelope = (readEvent envelope >>= rm.write engine now) := by
  rw [applyOrderEvent, readEvent]
  split
  · rw [upsertOrder]
    simp only [bind_assoc]
    rfl
  · rw [upsertItem]
    simp only [bind_assoc]
    rfl
  · rw [setOrderStatus]
    simp only [bind_assoc]
    rfl
  · rfl

end ReadModel

/-! ## Events of one order

Envelopes for the runs that are evaluated. -/

/-- An event about orders. -/
def orderEvent (id : Uuid) (eventType : String) (payload : Value) : EventEnvelope where
  id := id
  eventType := eventType
  source := "orders"
  timestamp := 0
  causationId := none
  correlationId := none
  schemaVersion := 1
  payload := payload

/-- An order is created. -/
def orderCreated : EventEnvelope :=
  orderEvent ⟨1⟩ "order.created"
    (.ofEntries [("customer_id", .string "cust_1"), ("order_id", .string "ord_1")] (by decide))

/-- An item is added to it. -/
def itemAdded : EventEnvelope :=
  orderEvent ⟨2⟩ "order.item_added"
    (.ofEntries [("order_id", .string "ord_1"), ("quantity", .number (.posInt 2)),
      ("sku", .string "sku_1"), ("unit_price_cents", .number (.posInt 500))] (by decide))

/-- The order is cancelled. -/
def orderCancelled : EventEnvelope :=
  orderEvent ⟨3⟩ "order.cancelled" (.ofEntries [("order_id", .string "ord_1")] (by decide))

end PhenoEvents
