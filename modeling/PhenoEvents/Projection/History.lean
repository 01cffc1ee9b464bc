import PhenoEvents.Projection.Runs
import PhenoEvents.Projection.Writes

/-!
# The read model as a function of its history

Every column of the read model but one is the last thing an event wrote to it: the customer and the
status of an order, the quantity and the price of an item.  The total of an order is the exception.
It is computed when an item is added, and stays at zero until then.

A history is a list of events, the newest first.  `Describes` says all this of a read model and a
history, and `describes_of_reachable` says it of every state of the projection and of the envelopes
applied up to then, in whatever way they were applied.

## What is here

* `customerOf`, `statusOf` and `itemOf`: what an event writes to a column, and nothing if it does
  not write it.  The value of the column is then `findSome?` of the history.
* `Totalled`: the order has got an item since it was created.  Its total is the sum of its items
  then, as they are now, since every item that is written computes it anew.
* `Describes.write`: one lemma for each kind of event.
* `World.past`: the history of a state, read off the envelopes that were applied.

With this the question what a read model shows becomes one about lists.  It does not matter how the
events came to it, how often one of them came, or what failed in between.
-/

set_option autoImplicit false

namespace PhenoEvents

open Except Transition

namespace OrderEvent

/-- The customer the event writes to an order. -/
def customerOf (o : String) : OrderEvent → Option String
  | .created o' customerId _ => if o' = o then some customerId else none
  | _ => none

/-- The status the event writes to an order. -/
def statusOf (o : String) : OrderEvent → Option String
  | .created o' _ status => if o' = o then some status else none
  | .cancelled o' => if o' = o then some "cancelled" else none
  | _ => none

/-- The quantity and the price the event writes to an item. -/
def itemOf (o sku : String) : OrderEvent → Option (Int64 × Int64)
  | .itemAdded o' sku' quantity unitPriceCents =>
    if (o', sku') = (o, sku) then some (quantity, unitPriceCents) else none
  | _ => none

/-- The event adds an item to an order. -/
def addsItem (o : String) : OrderEvent → Bool
  | .itemAdded o' _ _ _ => o' = o
  | _ => false

end OrderEvent

open OrderEvent

/-! ## Histories

An event that was refused is not in the history.  All that are have been written. -/

section Past

variable {o : String} {event : OrderEvent} {past : List OrderEvent}

/-- The order has been created. -/
def Created (o : String) (past : List OrderEvent) : Prop := ∃ c st, OrderEvent.created o c st ∈ past

/-- An item has been added to the order since it was created.  Items that came before do not count,
since nothing was computed then. -/
def Totalled (o : String) (past : List OrderEvent) : Prop :=
  ∃ newer older, past = newer ++ older ∧ (∃ e ∈ newer, addsItem o e = true) ∧ Created o older

theorem isSome_customerOf_iff : (past.findSome? (customerOf o)).isSome ↔ Created o past := by
  rw [List.findSome?_isSome_iff]
  constructor
  · rintro ⟨e, he, hsome⟩
    cases e with
    | created o' c st =>
      by_cases ho : o' = o
      · exact ⟨c, st, ho ▸ he⟩
      · rw [customerOf, if_neg ho] at hsome
        cases hsome
    | _ => cases hsome
  · rintro ⟨c, st, he⟩
    exact ⟨_, he, by simp [customerOf]⟩

theorem Totalled.created (h : Totalled o past) : Created o past := by
  obtain ⟨newer, older, rfl, -, c, st, hmem⟩ := h
  exact ⟨c, st, List.mem_append_right _ hmem⟩

theorem totalled_cons_iff :
    Totalled o (event :: past) ↔ addsItem o event = true ∧ Created o past ∨ Totalled o past := by
  constructor
  · rintro ⟨newer, older, hpast, ⟨e, he, hadds⟩, c, st, hmem⟩
    rcases List.cons_eq_append_iff.1 hpast with ⟨rfl, -⟩ | ⟨newer', rfl, rfl⟩
    · cases he
    · rcases List.mem_cons.1 he with rfl | he
      · exact Or.inl ⟨hadds, c, st, List.mem_append_right _ hmem⟩
      · exact Or.inr ⟨newer', older, rfl, ⟨e, he, hadds⟩, c, st, hmem⟩
  · rintro (⟨hadds, hcreated⟩ | ⟨newer, older, rfl, ⟨e, he, hadds⟩, hcreated⟩)
    · exact ⟨[event], past, rfl, ⟨event, List.mem_cons_self, hadds⟩, hcreated⟩
    · exact ⟨event :: newer, older, rfl, ⟨e, List.mem_cons_of_mem _ he, hadds⟩, hcreated⟩

theorem totalled_cons_of_false (h : addsItem o event = false) :
    Totalled o (event :: past) ↔ Totalled o past := by
  rw [totalled_cons_iff, h]
  simp

end Past

/-- What an event writes to an item. -/
def ItemRow.values (i : ItemRow) : Int64 × Int64 := (i.quantity, i.unitPriceCents)

namespace ReadModel

variable {engine : SqlEngine} {now : Instant} {rm rm' : ReadModel} {past : List OrderEvent}

/-- The total was computed when the last item was added, or it is the zero of a new order. -/
def TotalOf (engine : SqlEngine) (rm : ReadModel) (past : List OrderEvent) (o : String)
    (total : SqlNumber) : Prop :=
  Totalled o past ∧ totalOf engine (rm.linesOf o) = .ok total ∨ ¬Totalled o past ∧
    total = .integer 0

/-- The read model is what the history has made of empty tables: one field for each column that is
more than a key. -/
structure Describes (engine : SqlEngine) (past : List OrderEvent) (rm : ReadModel) : Prop where
  customer : ∀ o, (rm.orders.lookup o).map OrderRow.customerId = past.findSome? (customerOf o)
  status : ∀ o row, rm.orders.lookup o = some row → past.findSome? (statusOf o) = some row.status
  total : ∀ o row, rm.orders.lookup o = some row → TotalOf engine rm past o row.totalCents
  item : ∀ o sku, (rm.orderItems.lookup (o, sku)).map ItemRow.values = past.findSome? (itemOf o sku)

theorem describes_empty (engine : SqlEngine) : Describes engine [] .empty where
  customer _ := rfl
  status _ _ hrow := by cases hrow
  total _ _ hrow := by cases hrow
  item _ _ := rfl

namespace Describes

/-- An order is there exactly if it has been created. -/
theorem isSome_lookup_iff (h : Describes engine past rm) (o : String) :
    (rm.orders.lookup o).isSome ↔ Created o past := by
  rw [← isSome_customerOf_iff, ← h.customer, Option.isSome_map]

theorem created (h : Describes engine past rm) {o : String} {c st : String} :
    Describes engine (.created o c st :: past) (rm.writeOrder now o c st) where
  customer o' := by
    by_cases ho : o = o'
    · subst ho
      rw [lookup_writeOrder, List.findSome?_cons, customerOf, if_pos rfl]
      cases rm.orders.lookup o <;> rfl
    · rw [lookup_writeOrder_of_ne ho, List.findSome?_cons, customerOf, if_neg ho]
      exact h.customer o'
  status o' row hrow := by
    rw [List.findSome?_cons, statusOf]
    rcases lookup_writeOrder_cases hrow with ⟨old, rfl, -, rfl⟩ | ⟨rfl, -, rfl⟩ | ⟨ho, hold⟩
    · rw [if_pos rfl]
      rfl
    · rw [if_pos rfl]
    · rw [if_neg ho]
      exact h.status o' row hold
  total o' row hrow := by
    rw [TotalOf, totalled_cons_of_false rfl]
    rcases lookup_writeOrder_cases hrow with ⟨old, rfl, hold, rfl⟩ | ⟨rfl, hnone, rfl⟩ | ⟨-, hold⟩
    · exact h.total o old hold
    · refine Or.inr ⟨fun htotalled ↦ ?_, rfl⟩
      have hsome := (h.isSome_lookup_iff o).2 htotalled.created
      rw [hnone] at hsome
      cases hsome
    · exact h.total o' row hold
  item o' sku := h.item o' sku

theorem cancelled (h : Describes engine past rm) {o : String} :
    Describes engine (.cancelled o :: past) (rm.writeStatus now o "cancelled") where
  customer o' := by
    by_cases ho : o = o'
    · subst ho
      rw [lookup_writeStatus, Option.map_map]
      exact h.customer o
    · rw [lookup_writeStatus_of_ne ho]
      exact h.customer o'
  status o' row hrow := by
    rw [List.findSome?_cons, statusOf]
    rcases lookup_writeStatus_cases hrow with ⟨old, rfl, -, rfl⟩ | ⟨ho, hold⟩
    · rw [if_pos rfl]
      rfl
    · rw [if_neg ho]
      exact h.status o' row hold
  total o' row hrow := by
    rw [TotalOf, totalled_cons_of_false rfl]
    rcases lookup_writeStatus_cases hrow with ⟨old, rfl, hold, rfl⟩ | ⟨-, hold⟩
    · exact h.total o old hold
    · exact h.total o' row hold
  item o' sku := h.item o' sku

theorem item_writeItem (h : Describes engine past rm) {o sku : String} {q p : Int64}
    (o' sku' : String) :
    ((rm.writeItem now o sku q p).orderItems.lookup (o', sku')).map ItemRow.values =
      (OrderEvent.itemAdded o sku q p :: past).findSome? (itemOf o' sku') := by
  by_cases hkey : (o, sku) = (o', sku')
  · obtain ⟨rfl, rfl⟩ := Prod.mk.inj hkey
    rw [lookup_writeItem, List.findSome?_cons, itemOf, if_pos rfl]
    cases rm.orderItems.lookup (o, sku) <;> rfl
  · rw [lookup_writeItem_of_ne hkey, List.findSome?_cons, itemOf, if_neg hkey]
    exact h.item o' sku'

theorem itemAdded (h : Describes engine past rm) {o sku : String} {q p : Int64}
    (hrm : (rm.writeItem now o sku q p).updateTotal engine now o = .ok rm') :
    Describes engine (.itemAdded o sku q p :: past) rm' := by
  -- orders other than `o` have the lines they had
  have hother : ∀ o' row, o ≠ o' → rm.orders.lookup o' = some row →
      TotalOf engine (rm.writeItem now o sku q p) (.itemAdded o sku q p :: past) o'
      row.totalCents := by
    intro o' row ho hrow
    have hadds : addsItem o' (.itemAdded o sku q p) = false := decide_eq_false ho
    rw [TotalOf, totalled_cons_of_false hadds, linesOf_writeItem_of_ne ho]
    exact h.total o' row hrow
  rcases updateTotal_eq_ok_iff.1 hrm with ⟨hnone, rfl⟩ | ⟨hsome, total, htotal, rfl⟩
  · refine ⟨h.customer, h.status, fun o' row hrow ↦ hother o' row ?_ hrow, h.item_writeItem⟩
    rintro rfl
    cases hnone.symm.trans hrow
  · refine ⟨fun o' ↦ ?_, fun o' row hrow ↦ ?_, fun o' row hrow ↦ ?_, h.item_writeItem⟩
    · by_cases ho : o = o'
      · subst ho
        rw [lookup_setTotal, Option.map_map]
        exact h.customer o
      · rw [lookup_setTotal_of_ne ho]
        exact h.customer o'
    · rcases lookup_setTotal_cases hrow with ⟨old, rfl, hold, rfl⟩ | ⟨-, hold⟩
      · exact h.status o old hold
      · exact h.status o' row hold
    · rcases lookup_setTotal_cases hrow with ⟨old, rfl, -, rfl⟩ | ⟨ho, hold⟩
      · have hcreated : Created o past := (h.isSome_lookup_iff o).1 hsome
        exact Or.inl ⟨totalled_cons_iff.2 (Or.inl ⟨decide_eq_true rfl, hcreated⟩), htotal⟩
      · exact hother o' row ho hold

/-- **An event that is written joins the history.** -/
theorem write (h : Describes engine past rm) {event : OrderEvent}
    (hrm : rm.write engine now event = .ok rm') : Describes engine (event :: past) rm' := by
  cases event with
  | created o c st =>
    obtain rfl := Except.ok.inj hrm
    exact h.created
  | itemAdded o sku q p => exact h.itemAdded hrm
  | cancelled o =>
    obtain rfl := Except.ok.inj hrm
    exact h.cancelled
  | other =>
    obtain rfl := Except.ok.inj hrm
    refine ⟨h.customer, h.status, fun o row hrow ↦ ?_, h.item⟩
    rw [TotalOf, totalled_cons_of_false rfl]
    exact h.total o row hrow

end Describes

end ReadModel

/-! ## Runs

The envelopes that were applied, each read as an event; what is no event about orders is left out.
-/

namespace OrderProjection.World

variable {bus : SqliteBus} {engine : SqlEngine} {s t : World} {action : Action}

/-- The history of the read model. -/
def past (s : World) : List OrderEvent := s.applied.filterMap fun envelope ↦
  (readEvent envelope).toOption

theorem describes_step (h : s.readModel.Describes engine s.past)
    (hstep : s.step bus engine action = some t) : t.readModel.Describes engine t.past := by
  cases effect_of_step hstep with
  | none hdelivers hrm happlied => rwa [hrm, past, happlied]
  | refused hdelivers herror hrm happlied => rwa [hrm, past, happlied]
  | applied hdelivers hrm happlied =>
    rw [ReadModel.applyOrderEvent_eq, bind_eq_ok_iff] at hrm
    obtain ⟨event, hread, hwrite⟩ := hrm
    have hpast : t.past = event :: s.past := by
      rw [past, happlied, List.filterMap_cons, hread]
      rfl
    rw [hpast]
    exact h.write hwrite

/-- **In every reachable state, the read model is what its history has made of it.**  The processes
may have been killed and started again, and the envelopes may have come in any order. -/
theorem describes_of_reachable {db : Database} {checkpoints : KeyedTable CheckpointRow.name}
    (h : Reachable (step bus engine) (.start ⟨db, .empty, checkpoints⟩) s) :
    s.readModel.Describes engine s.past :=
  h.invariant (I := fun s ↦ s.readModel.Describes engine s.past) (ReadModel.describes_empty engine)
    fun _ _ _ hs hstep ↦ describes_step hs hstep

end OrderProjection.World

end PhenoEvents
