import PhenoEvents.Projection.Totals

/-!
# Money

An item is added to an order that exists.  As long as every product of quantity and price fits
`i64`, the call stores the exact sum or it fails and changes nothing, because integers that add up
to too much are an error in SQLite (`equals_of_totalOf`).  A product that does not fit is no error.
It is a REAL, and so are the sum and what the column is given, whatever floating point makes of them
(`totalOf_of_overflow`).

So the code is right, whatever the floating-point sums come to, exactly if no product overflows
(`accounts_iff`).  The sums are the parameter that varies: the tables that an engine and another one
with other sums arrive at differ in nothing but totals (`sameItems_applyEach`).

## What is here

* `Accounts`: the call has stored the exact total of the order, or it has failed and changed
  nothing.
* `ProductsFit`: the condition, on the item that comes and on those that are in the order already.
* `accounts_of_productsFit`, for every engine, and `accounts_iff`, for all sums an engine may have.
* `not_accounts_of_sum_overflow`: if the exact sum does not fit either, no engine can store it.

An overflow of the sum alone is reported: the transaction fails, and the item is not there
afterwards.  It is the overflow of one product that goes unnoticed.
-/

set_option autoImplicit false

namespace PhenoEvents

open Except

/-! ## Sums

A `SUM` that has only integers to add is exact or fails. -/

section Sums

variable {engine : SqlEngine} {lines : List Line} {total : SqlNumber}

/-- A running sum that does not overflow is exact. -/
theorem toInt_of_addIntegers {acc total : Int64} {ns : List Int64}
    (h : addIntegers acc ns = some total) :
    total.toInt = acc.toInt + (ns.map Int64.toInt).sum := by
  induction ns generalizing acc with
  | nil =>
    obtain rfl := Option.some_inj.1 h
    exact (Int.add_zero _).symm
  | cons n ns ih =>
    rw [addIntegers] at h
    split at h
    · rename_i hfits
      rw [ih h, toInt_ofInt_of_fits hfits, List.map_cons, List.sum_cons, Int.add_assoc]
    · cases h

/-- **A total of products that fit is exact.**  SQLite adds up integers one by one, and reports the
first sum that leaves `i64`. -/
theorem equals_of_totalOf (h : ∀ l ∈ lines, FitsInt64 l.cents)
    (htotal : totalOf engine lines = .ok total) : total.equals (centsOf lines) = true := by
  have hperm := engine.scan_perm lines
  have hproducts : ∀ l ∈ engine.scan lines, FitsInt64 l.cents :=
    fun l hl ↦ h l (hperm.mem_iff.1 hl)
  rw [totalOf, sqlSum, integers_products hproducts] at htotal
  cases hadd : addIntegers 0 ((engine.scan lines).map fun l ↦ Int64.ofInt l.cents) with
  | none =>
    simp only [hadd] at htotal
    cases htotal
  | some n =>
    simp only [hadd] at htotal
    obtain rfl := Except.ok.inj htotal
    refine decide_eq_true ?_
    have hexact : (engine.scan lines).map (Int64.toInt ∘ fun l ↦ Int64.ofInt l.cents) =
        (engine.scan lines).map Line.cents :=
      List.map_congr_left fun l hl ↦ toInt_ofInt_of_fits (hproducts l hl)
    calc n.toInt
        = 0 + ((engine.scan lines).map Line.cents).sum := by
          rw [toInt_of_addIntegers hadd, List.map_map, hexact]
          rfl
      _ = centsOf (engine.scan lines) := Int.zero_add _
      _ = centsOf lines := centsOf_perm hperm

theorem integers_eq_none {numbers : List SqlNumber} {x : Float64} (h : .real x ∈ numbers) :
    integers numbers = none := by
  induction numbers with
  | nil => cases h
  | cons n numbers ih =>
    cases n with
    | real y => rfl
    | integer m =>
      rcases List.mem_cons.1 h with h | h
      · cases h
      · rw [integers, ih h]
        rfl

/-- **One product that does not fit makes the total a floating-point sum.** -/
theorem totalOf_of_overflow (engine : SqlEngine) {l : Line} (hl : l ∈ lines)
    (h : ¬FitsInt64 l.cents) :
    totalOf engine lines = .ok (intoIntegerColumn
      (.real (engine.sum ((engine.scan lines).map (Line.product engine))))) := by
  have hproduct : l.product engine = .real (engine.product l.quantity l.unitPriceCents) := if_neg h
  have hmem : .real (engine.product l.quantity l.unitPriceCents) ∈
      (engine.scan lines).map (Line.product engine) :=
    hproduct ▸ List.mem_map_of_mem ((engine.scan_perm lines).mem_iff.2 hl)
  rw [totalOf, sqlSum, integers_eq_none hmem]
  rfl

/-- A column that is an integer is an `i64`. -/
theorem fits_of_equals {n : ℤ} (h : total.equals n = true) : FitsInt64 n := by
  cases total with
  | integer m =>
    obtain rfl := of_decide_eq_true h
    exact ⟨m.le_toInt, m.toInt_lt⟩
  | real x => cases h

end Sums

/-! ## Other floating-point sums

Two engines that differ only in their floating-point sums do the same to all columns but the total,
and refuse the same items. -/

/-- The engine with other floating-point sums. -/
def SqlEngine.withSum (sum : List SqlNumber → Float64) (engine : SqlEngine) : SqlEngine :=
  { engine with sum := sum }

/-- One half. -/
def Float64.half : Float64 := ⟨1 / 2, 1, -1, by decide, by decide, by decide, by simp⟩

theorem sqlSum_withSum (engine : SqlEngine) (sum : List SqlNumber → Float64)
    (numbers : List SqlNumber) :
    (∃ message, sqlSum (engine.withSum sum) numbers = .error message ∧
        sqlSum engine numbers = .error message) ∨
      ∃ total total', sqlSum (engine.withSum sum) numbers = .ok total ∧
        sqlSum engine numbers = .ok total' := by
  unfold sqlSum
  cases integers numbers with
  | none => exact Or.inr ⟨_, _, rfl, rfl⟩
  | some ns =>
    dsimp only
    cases addIntegers 0 ns with
    | none => exact Or.inl ⟨_, rfl, rfl⟩
    | some n => exact Or.inr ⟨_, _, rfl, rfl⟩

/-- Whether a total can be computed is not up to the floating-point sums. -/
theorem totalOf_withSum (engine : SqlEngine) (sum : List SqlNumber → Float64) (lines : List Line) :
    (∃ message, totalOf (engine.withSum sum) lines = .error message ∧
        totalOf engine lines = .error message) ∨
      ∃ total total', totalOf (engine.withSum sum) lines = .ok total ∧
        totalOf engine lines = .ok total' := by
  let numbers := (engine.scan lines).map (Line.product engine)
  have hwith : totalOf (engine.withSum sum) lines =
      (sqlSum (engine.withSum sum) numbers).map intoIntegerColumn := rfl
  have hwithout : totalOf engine lines = (sqlSum engine numbers).map intoIntegerColumn := rfl
  rw [hwith, hwithout]
  rcases sqlSum_withSum engine sum numbers with ⟨message, h, h'⟩ | ⟨total, total', h, h'⟩
  · exact Or.inl ⟨message, by rw [h]; rfl, by rw [h']; rfl⟩
  · exact Or.inr ⟨_, _, by rw [h]; rfl, by rw [h']; rfl⟩

namespace ReadModel

variable {engine : SqlEngine} {sum : List SqlNumber → Float64} {now : Instant} {rm rm' : ReadModel}

/-- The tables have the same items, and orders of the same names.  The totals may differ, and
nothing else of an order is looked at here. -/
structure SameItems (rm rm' : ReadModel) : Prop where
  orders : ∀ o, (rm.orders.lookup o).isSome = (rm'.orders.lookup o).isSome
  orderItems : rm.orderItems = rm'.orderItems

theorem SameItems.refl (rm : ReadModel) : SameItems rm rm := ⟨fun _ ↦ rfl, rfl⟩

theorem SameItems.linesOf (h : SameItems rm rm') (o : String) : rm.linesOf o = rm'.linesOf o := by
  rw [ReadModel.linesOf, h.orderItems]
  rfl

theorem SameItems.setTotal (h : SameItems rm rm') {o : String} (total total' : SqlNumber) :
    SameItems (rm.setTotal now o total) (rm'.setTotal now o total') := by
  refine ⟨fun o' ↦ ?_, h.orderItems⟩
  rw [isSome_lookup_setTotal, isSome_lookup_setTotal]
  exact h.orders o'

/-- An event is written on both tables, or on neither. -/
theorem write_withSum (h : SameItems rm rm') (engine : SqlEngine) (sum : List SqlNumber → Float64)
    (now : Instant) (event : OrderEvent) :
    (∃ e, rm.write (engine.withSum sum) now event = .error e ∧
        rm'.write engine now event = .error e) ∨
      ∃ t t', rm.write (engine.withSum sum) now event = .ok t ∧
        rm'.write engine now event = .ok t' ∧ SameItems t t' := by
  cases event with
  | created o c st =>
    refine Or.inr ⟨_, _, rfl, rfl, fun o' ↦ ?_, h.orderItems⟩
    rw [isSome_lookup_writeOrder, isSome_lookup_writeOrder, h.orders o']
  | itemAdded o sku q p =>
    have hitem : SameItems (rm.writeItem now o sku q p) (rm'.writeItem now o sku q p) :=
      ⟨h.orders, congrArg (fun items ↦ (writeItem now o sku q p ⟨rm.orders, items⟩).orderItems)
        h.orderItems⟩
    rw [write, write, updateTotal, updateTotal, hitem.orders o, hitem.linesOf o]
    by_cases hexists : ((rm'.writeItem now o sku q p).orders.lookup o).isSome = true
    · rw [if_pos hexists, if_pos hexists]
      rcases totalOf_withSum engine sum ((rm'.writeItem now o sku q p).linesOf o) with
        ⟨message, ht, ht'⟩ | ⟨total, total', ht, ht'⟩
      · rw [ht, ht']
        exact Or.inl ⟨_, rfl, rfl⟩
      · rw [ht, ht']
        exact Or.inr ⟨_, _, rfl, rfl, hitem.setTotal total total'⟩
    · rw [if_neg hexists, if_neg hexists]
      exact Or.inr ⟨_, _, rfl, rfl, hitem⟩
  | cancelled o =>
    refine Or.inr ⟨_, _, rfl, rfl, fun o' ↦ ?_, h.orderItems⟩
    rw [isSome_lookup_writeStatus, isSome_lookup_writeStatus]
    exact h.orders o'
  | other => exact Or.inr ⟨_, _, rfl, rfl, h⟩

theorem sameItems_afterApply (h : SameItems rm rm') (envelope : EventEnvelope) :
    SameItems (rm.afterApply (engine.withSum sum) now envelope)
      (rm'.afterApply engine now envelope) := by
  have hread : ∀ {engine} {rm : ReadModel}, rm.applyOrderEvent engine now envelope =
      (readEvent envelope >>= rm.write engine now) := applyOrderEvent_eq _ _ _ _
  cases hevent : readEvent envelope with
  | error error =>
    rw [hevent] at hread
    rwa [afterApply_of_error hread, afterApply_of_error hread]
  | ok event =>
    rw [hevent] at hread
    rcases write_withSum h engine sum now event with ⟨e, hw, hw'⟩ | ⟨t, t', hw, hw', ht⟩
    · rwa [afterApply_of_error (hread.trans hw), afterApply_of_error (hread.trans hw')]
    · rwa [afterApply_of_ok (hread.trans hw), afterApply_of_ok (hread.trans hw')]

/-! ## An item of an order

The products that count are those of the items after the call, which are the new one and the ones it
does not replace. -/

/-- No product overflows: neither that of the new item nor that of one it leaves in the order.  The
item it replaces does not count. -/
def ProductsFit (rm : ReadModel) (o sku : String) (quantity unitPriceCents : Int64) : Prop :=
  FitsInt64 (quantity.toInt * unitPriceCents.toInt) ∧
    ∀ i ∈ rm.orderItems.rows, i.orderId = o → i.sku ≠ sku → FitsInt64 i.line.cents

instance (rm : ReadModel) (o sku : String) (quantity unitPriceCents : Int64) :
    Decidable (rm.ProductsFit o sku quantity unitPriceCents) :=
  inferInstanceAs (Decidable (_ ∧ _))

theorem SameItems.productsFit_iff (h : SameItems rm rm') {o sku : String} {q p : Int64} :
    rm.ProductsFit o sku q p ↔ rm'.ProductsFit o sku q p := by
  rw [ProductsFit, ProductsFit, h.orderItems]

/-- The total of the order is there, and it is the exact sum of its items. -/
def TotalExact (rm : ReadModel) (o : String) : Prop :=
  ∃ row, rm.orders.lookup o = some row ∧ row.totalCents.equals (centsOf (rm.linesOf o)) = true

theorem mem_linesOf_iff {o : String} {l : Line} :
    l ∈ rm.linesOf o ↔ ∃ sku i, rm.orderItems.lookup (o, sku) = some i ∧ i.line = l := by
  rw [ReadModel.linesOf, List.mem_map]
  constructor
  · rintro ⟨i, hi, hl⟩
    obtain ⟨hmem, ho⟩ := List.mem_filter.1 hi
    refine ⟨i.sku, i, ?_, hl⟩
    rw [← of_decide_eq_true ho]
    exact KeyedTable.lookup_of_mem hmem
  · rintro ⟨sku, i, hi, hl⟩
    have ho : i.orderId = o := congrArg Prod.fst (KeyedTable.key_of_lookup hi)
    exact ⟨i, List.mem_filter.2 ⟨KeyedTable.mem_of_lookup hi, decide_eq_true ho⟩, hl⟩

/-- The products of an order that gets an item. -/
theorem productsFit_iff (now : Instant) {o sku : String} {q p : Int64} : rm.ProductsFit o sku q p ↔
    ∀ l ∈ (rm.writeItem now o sku q p).linesOf o, FitsInt64 l.cents := by
  constructor
  · rintro ⟨hnew, hold⟩ l hl
    obtain ⟨sku', i, hi, rfl⟩ := mem_linesOf_iff.1 hl
    by_cases hsku : sku = sku'
    · subst hsku
      rw [lookup_writeItem, Option.some_inj] at hi
      subst hi
      cases rm.orderItems.lookup (o, sku) with
      | none => exact hnew
      | some old => exact hnew
    · rw [lookup_writeItem_of_ne fun hkey ↦ hsku (congrArg Prod.snd hkey)] at hi
      have hkey : i.key = (o, sku') := KeyedTable.key_of_lookup hi
      obtain ⟨ho, hsku'⟩ := Prod.mk.inj hkey
      exact hold i (KeyedTable.mem_of_lookup hi) ho fun h ↦ hsku (h.symm.trans hsku')
  · intro h
    constructor
    · have hline := h _ (mem_linesOf_iff.2 ⟨sku, _, lookup_writeItem sku q p, rfl⟩)
      cases hold : rm.orderItems.lookup (o, sku) with
      | none => rwa [hold] at hline
      | some old => rwa [hold] at hline
    · intro i hi ho hsku
      refine h _ (mem_linesOf_iff.2 ⟨i.sku, i, ?_, rfl⟩)
      rw [lookup_writeItem_of_ne fun hkey ↦ hsku (congrArg Prod.snd hkey).symm, ← ho]
      exact KeyedTable.lookup_of_mem hi

end ReadModel

namespace OrderProjection

open ReadModel

variable {engine : SqlEngine} {sum : List SqlNumber → Float64} {clock : Instant × Instant}
  {envelope : EventEnvelope} {p p' : OrderProjection} {o sku : String}
  {quantity unitPriceCents : Int64}

/-! ## A call

What a call does comes down to one value, the total that is computed from the items in place. -/

/-- The call has stored the exact total of the order, or it has failed and changed nothing.  What is
excluded is a call that returns `Ok` and leaves another number, or one that fails half-way. -/
def Accounts (o : String) (p : OrderProjection)
    (called : OrderProjection × Except ProjectionError Unit) : Prop :=
  called.2 = .ok () ∧ called.1.pool.readModel.TotalExact o ∨
    (∃ error, called.2 = .error error) ∧ called.1 = p

theorem applyOrderEvent_of_exists
    (hread : readEvent envelope = .ok (.itemAdded o sku quantity unitPriceCents)) {rm : ReadModel}
    (hexists : (rm.orders.lookup o).isSome = true) (now : Instant) :
    rm.applyOrderEvent engine now envelope =
      ((totalOf engine ((rm.writeItem now o sku quantity unitPriceCents).linesOf o)).mapError
        .sqlite).map fun total ↦
          (rm.writeItem now o sku quantity unitPriceCents).setTotal now o total := by
  rw [applyOrderEvent_eq, hread]
  show (rm.writeItem now o sku quantity unitPriceCents).updateTotal engine now o = _
  have hstill : ((rm.writeItem now o sku quantity unitPriceCents).orders.lookup o).isSome = true :=
    hexists
  rw [updateTotal, if_pos hstill]
  cases totalOf engine ((rm.writeItem now o sku quantity unitPriceCents).linesOf o) with
  | error message => rfl
  | ok total => rfl

/-- It comes down to the total that is computed. -/
theorem accounts_apply_iff
    (hread : readEvent envelope = .ok (.itemAdded o sku quantity unitPriceCents))
    (hexists : (p.pool.readModel.orders.lookup o).isSome = true) :
    Accounts o p (apply engine clock envelope p) ↔ ∀ total, totalOf engine
        ((p.pool.readModel.writeItem clock.1 o sku quantity unitPriceCents).linesOf o) = .ok total →
      total.equals (centsOf
        ((p.pool.readModel.writeItem clock.1 o sku quantity unitPriceCents).linesOf o)) = true := by
  rw [apply, applyAtOffset, applyOrderEvent_of_exists hread hexists]
  cases totalOf engine
    ((p.pool.readModel.writeItem clock.1 o sku quantity unitPriceCents).linesOf o) with
  | error message =>
    exact ⟨fun _ total h ↦ (by cases h), fun _ ↦ Or.inr ⟨⟨_, rfl⟩, rfl⟩⟩
  | ok total =>
    obtain ⟨row, hrow⟩ := Option.isSome_iff_exists.1 hexists
    have hstored : ((p.pool.readModel.writeItem clock.1 o sku quantity unitPriceCents).setTotal
        clock.1 o total).orders.lookup o = some (row.withTotal clock.1 total) := by
      rw [lookup_setTotal]
      exact congrArg (Option.map _) hrow
    constructor
    · rintro (⟨-, row', hrow', hexact⟩ | ⟨⟨error, herror⟩, -⟩) total' h
      · obtain rfl := Except.ok.inj h
        obtain rfl := Option.some_inj.1 (hstored.symm.trans hrow')
        exact hexact
      · cases herror
    · intro h
      exact Or.inl ⟨rfl, _, hstored, h total rfl⟩

/-- **Without an overflowing product, nothing goes wrong silently.** -/
theorem accounts_of_productsFit
    (hread : readEvent envelope = .ok (.itemAdded o sku quantity unitPriceCents))
    (hexists : (p.pool.readModel.orders.lookup o).isSome = true)
    (hfits : p.pool.readModel.ProductsFit o sku quantity unitPriceCents) :
    Accounts o p (apply engine clock envelope p) :=
  (accounts_apply_iff hread hexists).2 fun _ ↦ equals_of_totalOf ((productsFit_iff _).1 hfits)

/-- With an overflowing product, the total is the floating-point sum. -/
theorem accounts_iff_of_not_productsFit
    (hread : readEvent envelope = .ok (.itemAdded o sku quantity unitPriceCents))
    (hexists : (p.pool.readModel.orders.lookup o).isSome = true)
    (hoverflow : ¬p.pool.readModel.ProductsFit o sku quantity unitPriceCents) :
    ∃ numbers, Accounts o p (apply engine clock envelope p) ↔
      (intoIntegerColumn (.real (engine.sum numbers))).equals (centsOf
        ((p.pool.readModel.writeItem clock.1 o sku quantity unitPriceCents).linesOf o)) = true := by
  rw [productsFit_iff clock.1] at hoverflow
  push Not at hoverflow
  obtain ⟨l, hl, hproduct⟩ := hoverflow
  have htotal := totalOf_of_overflow engine hl hproduct
  refine ⟨_, (accounts_apply_iff hread hexists).trans ⟨fun h ↦ h _ htotal, fun h total ht ↦ ?_⟩⟩
  obtain rfl := Except.ok.inj (htotal.symm.trans ht)
  exact h

/-! ## Histories

The condition is about the read model that the history has left.  Which one that is depends on the
engine, but not the part of it the condition looks at. -/

/-- **The floating-point sums show in nothing but totals.**  Two engines that differ in nothing else
take the same envelopes and refuse the same. -/
theorem sameItems_applyEach (history : List ((Instant × Instant) × EventEnvelope))
    (h : SameItems p.pool.readModel p'.pool.readModel) :
    SameItems (applyEach (engine.withSum sum) history p).pool.readModel
      (applyEach engine history p').pool.readModel := by
  induction history generalizing p p' with
  | nil => exact h
  | cons e history ih =>
    refine ih ?_
    rw [readModel_apply, readModel_apply]
    exact sameItems_afterApply h e.2

theorem intoIntegerColumn_half : intoIntegerColumn (.real .half) = .real .half :=
  if_neg (by decide +kernel)

/-- **Nothing goes wrong silently, whatever the floating-point sums come to, exactly if no product
overflows.**  From the left to the right an engine is needed that gets the sum wrong, and one that
says one half will do. -/
theorem accounts_iff (engine : SqlEngine) (history : List ((Instant × Instant) × EventEnvelope))
    (start : OrderProjection) (clock : Instant × Instant) (envelope : EventEnvelope)
    (o sku : String) (quantity unitPriceCents : Int64)
    (hread : readEvent envelope = .ok (.itemAdded o sku quantity unitPriceCents))
    (hexists : ((applyEach engine history start).pool.readModel.orders.lookup o).isSome = true) :
    (∀ sum, Accounts o (applyEach (engine.withSum sum) history start)
        (apply (engine.withSum sum) clock envelope
          (applyEach (engine.withSum sum) history start))) ↔
      (applyEach engine history start).pool.readModel.ProductsFit o sku quantity
      unitPriceCents := by
  have hsame : ∀ sum, SameItems (applyEach (engine.withSum sum) history start).pool.readModel
      (applyEach engine history start).pool.readModel :=
    fun sum ↦ sameItems_applyEach history (.refl start.pool.readModel)
  have hthere : ∀ sum, ((applyEach (engine.withSum sum) history start).pool.readModel.orders.lookup
      o).isSome = true := fun sum ↦ ((hsame sum).orders o).trans hexists
  constructor
  · intro haccounts
    by_contra hoverflow
    -- an engine whose floating-point sums are never an integer
    let sum : List SqlNumber → Float64 := fun _ ↦ .half
    obtain ⟨numbers, hiff⟩ := accounts_iff_of_not_productsFit hread (hthere sum)
      (mt (hsame sum).productsFit_iff.1 hoverflow)
    have hexact := hiff.1 (haccounts sum)
    have hsum : (engine.withSum sum).sum numbers = .half := rfl
    rw [hsum, intoIntegerColumn_half] at hexact
    cases hexact
  · intro hfits sum
    exact accounts_of_productsFit hread (hthere sum) ((hsame sum).productsFit_iff.2 hfits)

/-- If the sum does not fit `i64` either, no floating-point sum is of any help. -/
theorem not_accounts_of_sum_overflow
    (hread : readEvent envelope = .ok (.itemAdded o sku quantity unitPriceCents))
    (hexists : (p.pool.readModel.orders.lookup o).isSome = true)
    (hoverflow : ¬p.pool.readModel.ProductsFit o sku quantity unitPriceCents)
    (hsum : ¬FitsInt64 (centsOf
      ((p.pool.readModel.writeItem clock.1 o sku quantity unitPriceCents).linesOf o))) :
    ¬Accounts o p (apply engine clock envelope p) := by
  obtain ⟨numbers, hiff⟩ := accounts_iff_of_not_productsFit hread hexists hoverflow
  exact fun haccounts ↦ hsum (fits_of_equals (hiff.1 haccounts))

/-! ## All the money there is

A product that fits neither `i64` nor any number a column can hold exactly, and a call that returns
`Ok` all the same. -/

/-- The order is created. -/
def orderHistory : List ((Instant × Instant) × EventEnvelope) := [((1, 1), orderCreated)]

/-- It takes no arithmetic. -/
theorem applyEach_orderHistory (engine : SqlEngine) :
    applyEach engine orderHistory (.new .empty) = applyEach .plain orderHistory (.new .empty) := by
  have hread : readEvent orderCreated = .ok (.created "ord_1" "cust_1" "open") := by decide +kernel
  show (apply engine (1, 1) orderCreated (.new .empty)).1 =
    (apply .plain (1, 1) orderCreated (.new .empty)).1
  rw [apply, apply, applyAtOffset, applyAtOffset, applyOrderEvent_eq, applyOrderEvent_eq, hread]
  rfl

/-- An item that costs and counts as much as an `i64` can say. -/
def hugeItem : EventEnvelope :=
  orderEvent ⟨6⟩ "order.item_added"
    (.ofEntries [("order_id", .string "ord_1"), ("quantity", .number (.posInt 9223372036854775807)),
      ("sku", .string "sku_1"), ("unit_price_cents", .number (.posInt 9223372036854775807))]
      (by decide))

/-- An order and two items at five hundred. -/
theorem orderHistory_accounts :
    Accounts "ord_1" (applyEach .plain orderHistory (.new .empty))
      (apply .plain (2, 2) itemAdded (applyEach .plain orderHistory (.new .empty))) :=
  (accounts_iff .plain orderHistory (.new .empty) (2, 2) itemAdded "ord_1" "sku_1" 2 500
    (by decide +kernel) (by decide +kernel)).2 (by decide +kernel) SqlEngine.plain.sum

/-- No SQLite stores the total of the huge item. -/
theorem hugeItem_not_accounts : ¬∃ engine : SqlEngine,
    ∀ history start clock envelope o sku quantity unitPriceCents,
      start.pool.readModel = .empty →
      readEvent envelope = .ok (.itemAdded o sku quantity unitPriceCents) →
      ((applyEach engine history start).pool.readModel.orders.lookup o).isSome = true →
      Accounts o (applyEach engine history start)
        (apply engine clock envelope (applyEach engine history start)) := by
  rintro ⟨engine, h⟩
  have hread : readEvent hugeItem =
      .ok (.itemAdded "ord_1" "sku_1" 9223372036854775807 9223372036854775807) := by decide +kernel
  have haccounts := h orderHistory (.new .empty) (2, 2) hugeItem "ord_1" "sku_1" _ _ rfl hread
    (by rw [applyEach_orderHistory]; decide +kernel)
  rw [applyEach_orderHistory] at haccounts
  exact not_accounts_of_sum_overflow hread (by decide +kernel) (by decide +kernel)
    (by decide +kernel) haccounts

end OrderProjection

end PhenoEvents
