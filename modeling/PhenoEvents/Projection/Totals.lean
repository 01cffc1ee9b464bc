import PhenoEvents.Projection.Runs
import PhenoEvents.Projection.Writes

/-!
# The totals of orders

`total_cents` caches a sum over `order_items`.  `upsert_item` computes it anew, but only if there is
an order by then; `upsert_order` starts every new order at zero, whatever items it already has.

* `totalsRight_write_iff`: of all events, only the first `order.created` of an order can make a
  total wrong, and it does exactly if the items that are already there do not add up to zero.
* `visits_totalsRight_iff`: the runs in which every total is right in every state.
* `itemFirst_totals_wrong`: an item arrives before its order.

An item may come before its order: `upsert_item` inserts it all the same, and its `UPDATE` finds no
order.  The total is then wrong from the `order.created` on, until the next item of the order
arrives and it is computed anew.

The sums are assumed to fit `i64`.  What becomes of totals that do not is the subject of a module of
its own.

## How it goes

Whether the totals are right is a property of the read model, so a step matters only by what it does
to that (`World.Effect`).  An event that is refused does nothing; a `created` rewrites the customer
and the status, and leaves the total of an order that is there; an item sets the total of its own
order right, and is no item of another one.  What is left is the `created` that inserts.
-/

set_option autoImplicit false

namespace PhenoEvents

open Except Transition

/-- The number is this integer. -/
def SqlNumber.equals (n : ℤ) : SqlNumber → Bool
  | .integer m => m.toInt = n
  | .real _ => false

namespace ReadModel

variable {engine : SqlEngine} {now : Instant} {rm rm' : ReadModel}

/-- The total of every order is the sum of its items.  An item without an order does not count. -/
def TotalsRight (rm : ReadModel) : Prop :=
  ∀ row ∈ rm.orders.rows, row.totalCents.equals (centsOf (rm.linesOf row.orderId)) = true

instance (rm : ReadModel) : Decidable rm.TotalsRight :=
  inferInstanceAs (Decidable (∀ row ∈ rm.orders.rows, _ = true))

theorem totalsRight_iff_lookup : rm.TotalsRight ↔ ∀ o row, rm.orders.lookup o = some row →
    row.totalCents.equals (centsOf (rm.linesOf o)) = true := by
  constructor
  · intro h o row hrow
    obtain ⟨hmem, rfl⟩ := KeyedTable.lookup_eq_some_iff.1 hrow
    exact h row hmem
  · intro h row hmem
    exact h row.orderId row (KeyedTable.lookup_of_mem hmem)

/-- The event opens no order whose items already add up to something.  Items that cost nothing, and
costs that cancel each other, do no harm. -/
def OpensEven (rm : ReadModel) : OrderEvent → Prop
  | .created orderId _ _ => rm.orders.lookup orderId = none → centsOf (rm.linesOf orderId) = 0
  | _ => True

/-! ## One event

Each kind of event is one or two statements, and each of them is looked at for what it does to the
sum and to the column. -/

theorem totalsRight_writeOrder_iff (h : rm.TotalsRight) (o c st : String) :
    (rm.writeOrder now o c st).TotalsRight ↔ rm.OpensEven (.created o c st) := by
  rw [totalsRight_iff_lookup] at h ⊢
  constructor
  · intro ht hnone
    have hrow := ht o _ (lookup_writeOrder c st)
    rw [hnone] at hrow
    exact (of_decide_eq_true hrow).symm
  · intro hopens o' row hrow
    show row.totalCents.equals (centsOf (rm.linesOf o')) = true
    rcases lookup_writeOrder_cases hrow with ⟨old, rfl, hold, rfl⟩ | ⟨rfl, hnone, rfl⟩ | ⟨-, hold⟩
    · exact h o old hold
    · exact decide_eq_true (hopens hnone).symm
    · exact h o' row hold

theorem totalsRight_writeStatus (h : rm.TotalsRight) (o st : String) :
    (rm.writeStatus now o st).TotalsRight := by
  rw [totalsRight_iff_lookup] at h ⊢
  intro o' row hrow
  show row.totalCents.equals (centsOf (rm.linesOf o')) = true
  rcases lookup_writeStatus_cases hrow with ⟨old, rfl, hold, rfl⟩ | ⟨-, hold⟩
  · exact h o old hold
  · exact h o' row hold

/-- Adding an item sets the total of its order right, and no other order has the item. -/
theorem totalsRight_updateTotal (h : rm.TotalsRight) {o sku : String} {q p : Int64}
    (hfits : ∀ o', Fits engine (rm'.linesOf o'))
    (hrm : (rm.writeItem now o sku q p).updateTotal engine now o = .ok rm') : rm'.TotalsRight := by
  rw [totalsRight_iff_lookup] at h ⊢
  rcases updateTotal_eq_ok_iff.1 hrm with ⟨hnone, rfl⟩ | ⟨-, total, htotal, rfl⟩
  · intro o' row hrow
    have ho : o ≠ o' := by
      rintro rfl
      cases hnone.symm.trans hrow
    rw [linesOf_writeItem_of_ne ho]
    exact h o' row hrow
  · intro o' row hrow
    show row.totalCents.equals (centsOf ((rm.writeItem now o sku q p).linesOf o')) = true
    rcases lookup_setTotal_cases hrow with ⟨old, rfl, -, rfl⟩ | ⟨ho, hold⟩
    · obtain ⟨sum, hsum, hexact⟩ := totalOf_of_fits (hfits o)
      obtain rfl : total = .integer sum := Except.ok.inj (htotal.symm.trans hsum)
      exact decide_eq_true hexact
    · rw [linesOf_writeItem_of_ne ho]
      exact h o' row hold

/-- **Only opening an order can make a total wrong.**  Adding an item makes the total of its order
right, if it was wrong before.  An order that is there keeps its total when it is created again. -/
theorem totalsRight_write_iff {event : OrderEvent} (h : rm.TotalsRight)
    (hfits : ∀ o, Fits engine (rm'.linesOf o)) (hrm : rm.write engine now event = .ok rm') :
    rm'.TotalsRight ↔ rm.OpensEven event := by
  cases event with
  | created o c st =>
    obtain rfl := Except.ok.inj hrm
    exact totalsRight_writeOrder_iff h o c st
  | itemAdded o sku q p => exact ⟨fun _ ↦ trivial, fun _ ↦ totalsRight_updateTotal h hfits hrm⟩
  | cancelled o =>
    obtain rfl := Except.ok.inj hrm
    exact ⟨fun _ ↦ trivial, fun _ ↦ totalsRight_writeStatus h o "cancelled"⟩
  | other =>
    obtain rfl := Except.ok.inj hrm
    exact ⟨fun _ ↦ trivial, fun _ ↦ h⟩

/-- An event that is refused opens nothing. -/
theorem opensEven_of_refused {event : OrderEvent} {error : ProjectionError}
    (h : rm.write engine now event = .error error) : rm.OpensEven event := by
  cases event with
  | created o c st => cases h
  | _ => trivial

end ReadModel

/-! ## Runs

The condition is on each step and the state before it: what the step is about to hand to the
handlers, and what the tables hold by then. -/

namespace OrderProjection

variable {bus : SqliteBus} {engine : SqlEngine}

namespace World

variable {s t : World} {action : Action}

/-- The step opens no order whose items already add up to something. -/
def OpensEven (bus : SqliteBus) (s : World) (action : Action) : Prop :=
  ∀ envelope event, s.delivers bus action = some envelope → readEvent envelope = .ok event →
    s.readModel.OpensEven event

theorem totalsRight_step_iff (h : s.readModel.TotalsRight)
    (hfits : ∀ o, Fits engine (t.readModel.linesOf o)) (hstep : s.step bus engine action = some t) :
    t.readModel.TotalsRight ↔ s.OpensEven bus action := by
  cases effect_of_step hstep with
  | none hdelivers hrm happlied =>
    rw [hrm]
    refine ⟨fun _ envelope event hdelivers' ↦ ?_, fun _ ↦ h⟩
    cases hdelivers.symm.trans hdelivers'
  | refused hdelivers herror hrm happlied =>
    rw [hrm]
    refine ⟨fun _ envelope event hdelivers' hread ↦ ?_, fun _ ↦ h⟩
    obtain rfl := Option.some_inj.1 (hdelivers.symm.trans hdelivers')
    rw [ReadModel.applyOrderEvent_eq, hread] at herror
    exact ReadModel.opensEven_of_refused herror
  | applied hdelivers hrm happlied =>
    rw [ReadModel.applyOrderEvent_eq, bind_eq_ok_iff] at hrm
    obtain ⟨event, hread, hwrite⟩ := hrm
    rw [ReadModel.totalsRight_write_iff h hfits hwrite]
    constructor
    · intro hopens envelope event' hdelivers' hread'
      obtain rfl := Option.some_inj.1 (hdelivers.symm.trans hdelivers')
      obtain rfl := Except.ok.inj (hread.symm.trans hread')
      exact hopens
    · intro hopens
      exact hopens _ _ hdelivers hread

end World

/-- **The totals are right all along exactly in the runs that open no order with items.**  The sums
are those of a projection that starts with empty tables and never leaves `i64`. -/
theorem visits_totalsRight_iff (bus : SqliteBus) (engine : SqlEngine) (db : Database)
    (checkpoints : KeyedTable CheckpointRow.name) (as : List Action)
    (hfits : ∀ s, Visits (World.step bus engine) (.start ⟨db, .empty, checkpoints⟩) as s →
      ∀ o, Fits engine (s.readModel.linesOf o)) :
    (∀ s, Visits (World.step bus engine) (.start ⟨db, .empty, checkpoints⟩) as s →
        s.readModel.TotalsRight) ↔
      StepsMeet (World.step bus engine) (World.OpensEven bus)
        (.start ⟨db, .empty, checkpoints⟩) as :=
  visits_iff_stepsMeet_of_visits
    (fun _ _ _ _ hfits h hstep ↦ World.totalsRight_step_iff h hfits hstep) hfits
    fun _ hrow ↦ absurd hrow List.not_mem_nil

/-! ## An item before its order

Nothing keeps a publisher from it, and the outbox has the rows in the order in which they came. -/

/-- There is at most one item, and its product fits. -/
def oneItemFits (rm : ReadModel) : Bool :=
  rm.orderItems.rows.length ≤ 1 ∧ ∀ i ∈ rm.orderItems.rows, FitsInt64 i.line.cents

theorem fits_of_oneItemFits (engine : SqlEngine) {rm : ReadModel} (h : oneItemFits rm = true)
    (o : String) : Fits engine (rm.linesOf o) := by
  obtain ⟨hlength, hfits⟩ := of_decide_eq_true h
  have hproducts : ∀ l ∈ rm.linesOf o, FitsInt64 l.cents := by
    intro l hl
    obtain ⟨i, hi, rfl⟩ := List.mem_map.1 hl
    exact hfits i (List.mem_of_mem_filter hi)
  have hscan := engine.scan_perm (rm.linesOf o)
  have hshort : (engine.scan (rm.linesOf o)).length ≤ 1 := by
    rw [hscan.length_eq, ReadModel.linesOf, List.length_map]
    exact (List.length_filter_le _ _).trans hlength
  refine ⟨hproducts, fun visited hvisited ↦ ?_⟩
  rcases visited with - | ⟨l, - | ⟨l', rest⟩⟩
  · exact ⟨by decide, by decide⟩
  · have hl : FitsInt64 l.cents := hproducts l (hscan.subset (hvisited.subset List.mem_cons_self))
    simpa [centsOf] using hl
  · have hlong := hvisited.length_le
    simp only [List.length_cons] at hlong
    omega

/-- An item is applied, and then its order. -/
def itemFirst : List Action :=
  [.apply itemAdded 1, .save 1, .apply orderCreated 2, .save 2]

theorem itemFirst_fits (s : World)
    (hs : Visits (World.step ordersBus .plain) (.start .empty) itemFirst s) (o : String) :
    Fits .plain (s.readModel.linesOf o) :=
  fits_of_oneItemFits .plain (forall_visits_of_inits (Q := fun s : World ↦ oneItemFits s.readModel)
    (by decide +kernel) s hs) o

/-- The order stays at zero. -/
theorem itemFirst_ends_wrong :
    ∃ s, Visits (World.step ordersBus .plain) (.start .empty) itemFirst s ∧
    ¬s.readModel.TotalsRight := by
  have hrun : (run (World.step ordersBus .plain) (.start .empty) itemFirst).map
      (fun s ↦ decide s.readModel.TotalsRight) = some false := by decide +kernel
  obtain ⟨s, hs, hwrong⟩ := Option.map_eq_some_iff.1 hrun
  exact ⟨s, visits_of_run hs, of_decide_eq_false hwrong⟩

/-- The totals are not always right. -/
theorem itemFirst_totals_wrong :
    ¬∀ as, (∀ s, Visits (World.step ordersBus .plain) (.start .empty) as s →
        ∀ o, Fits .plain (s.readModel.linesOf o)) →
      ∀ s, Visits (World.step ordersBus .plain) (.start .empty) as s → s.readModel.TotalsRight := by
  intro h
  obtain ⟨s, hs, hwrong⟩ := itemFirst_ends_wrong
  exact hwrong (h itemFirst itemFirst_fits s hs)

/-- It is the order that makes them wrong. -/
theorem itemFirst_not_opensEven : ¬StepsMeet (World.step ordersBus .plain)
    (World.OpensEven ordersBus) (.start ⟨.empty, .empty, .empty⟩) itemFirst := by
  intro h
  obtain ⟨s, hs, hwrong⟩ := itemFirst_ends_wrong
  exact hwrong
    ((visits_totalsRight_iff ordersBus .plain .empty .empty itemFirst itemFirst_fits).2 h s hs)

end OrderProjection

end PhenoEvents
