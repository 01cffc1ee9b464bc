import PhenoEvents.Projection.CrashResume
import PhenoEvents.Projection.History
import PhenoEvents.Projection.Totals

/-!
# Replaying the end of the log

A read model that has seen the whole log is shown the end of it once more.  On the way a cancelled
order opens again and items go back to old quantities, next to items that were added later, so the
tables pass through states they have never been in.  They come back all the same (`replay_suffix`).

Nothing here follows the replay step by step.  `Describes` says what a history makes of empty
tables, and `suffix ++ suffix ++ prefix` makes of them what `suffix ++ prefix` does: the last event
to write a column is the same (`findSome?_append_again`), and so are the items a total was last
computed from, because every order that ever gets an item gets it after it was created
(`totalled_iff_of_preceded`).

## What is assumed

* Every item comes after its order in the log.  Otherwise an order may have a total only after the
  second time its item comes.
* No sum leaves `i64`, in any of the states on the way.  The quantities of different times that
  come together there may add up to more than the log ever did.

Where the rows are in the tables has to be looked after separately, as the history does not tell.  A
row that is written again stays where it is (`SameKeys`).
-/

set_option autoImplicit false

namespace PhenoEvents

open Except Resume OrderEvent

/-! ## Histories that repeat

A history, here, is a list of events with the newest first, so what comes again is put in front. -/

section Past

variable {o : String} {events : List OrderEvent}

/-- What came last does not change when it comes again. -/
theorem findSome?_append_again {α β : Type} (f : α → Option β) (newer older : List α) :
    (newer ++ (newer ++ older)).findSome? f = (newer ++ older).findSome? f := by
  rw [List.findSome?_append, List.findSome?_append]
  cases newer.findSome? f <;> rfl

/-- Every item is added to an order that has been created.  It may have been cancelled since, and
the item may come several times. -/
def ItemsPreceded (events : List OrderEvent) : Prop :=
  ∀ before o sku quantity unitPriceCents later,
    events = before ++ .itemAdded o sku quantity unitPriceCents :: later → Created o before

theorem exists_itemAdded_of_addsItem {event : OrderEvent} (h : addsItem o event = true) :
    ∃ sku quantity unitPriceCents, event = .itemAdded o sku quantity unitPriceCents := by
  cases event with
  | itemAdded o' sku q p =>
    obtain rfl : o' = o := of_decide_eq_true h
    exact ⟨sku, q, p, rfl⟩
  | _ => cases h

theorem Totalled.exists_addsItem {past : List OrderEvent} (h : Totalled o past) :
    ∃ e ∈ past, addsItem o e = true := by
  obtain ⟨newer, older, rfl, ⟨e, he, hadds⟩, -⟩ := h
  exact ⟨e, List.mem_append_left _ he, hadds⟩

theorem Totalled.append {past : List OrderEvent} (h : Totalled o past) (newest : List OrderEvent) :
    Totalled o (newest ++ past) := by
  obtain ⟨newer, older, rfl, ⟨e, he, hadds⟩, hcreated⟩ := h
  exact ⟨newest ++ newer, older, (List.append_assoc ..).symm,
    ⟨e, List.mem_append_right _ he, hadds⟩,
    hcreated⟩

/-- An order that has got an item has got it after it was created. -/
theorem totalled_iff_of_preceded (h : ItemsPreceded events) :
    Totalled o events.reverse ↔ ∃ e ∈ events, addsItem o e = true := by
  constructor
  · intro htotalled
    obtain ⟨e, he, hadds⟩ := htotalled.exists_addsItem
    exact ⟨e, List.mem_reverse.1 he, hadds⟩
  · rintro ⟨e, he, hadds⟩
    obtain ⟨sku, q, p, rfl⟩ := exists_itemAdded_of_addsItem hadds
    obtain ⟨before, later, rfl⟩ := List.append_of_mem he
    obtain ⟨c, st, hmem⟩ := h before o sku q p later rfl
    refine ⟨later.reverse ++ [.itemAdded o sku q p], before.reverse, by simp, ?_, ?_⟩
    · exact ⟨_, List.mem_append_right _ (List.mem_singleton_self _), hadds⟩
    · exact ⟨c, st, List.mem_reverse.2 hmem⟩

/-- Repeating the newest events adds no item to an order that had none.  Here the order of the log
matters: without it, an item that came too early would come late enough the second time. -/
theorem totalled_again_iff {front rest : List OrderEvent} (h : ItemsPreceded (front ++ rest)) :
    Totalled o (rest.reverse ++ (front ++ rest).reverse) ↔ Totalled o (front ++ rest).reverse := by
  refine ⟨fun hagain ↦ (totalled_iff_of_preceded h).2 ?_, fun honce ↦ honce.append _⟩
  obtain ⟨e, he, hadds⟩ := hagain.exists_addsItem
  rcases List.mem_append.1 he with hrest | hall
  · exact ⟨e, List.mem_append_right _ (List.mem_reverse.1 hrest), hadds⟩
  · exact ⟨e, List.mem_reverse.1 hall, hadds⟩

end Past

namespace ReadModel

variable {serde : Serde} {engine : SqlEngine} {now : Instant} {rm rm' : ReadModel}
  {past past' : List OrderEvent}

/-! ## What the columns determine

Two histories that wrote the same last make the same of empty tables, but for the places of the
rows. -/

/-- The tables have the same orders and the same items, each in the same place.  What the rows hold
is not compared. -/
structure SameKeys (rm rm' : ReadModel) : Prop where
  orders : rm.orders.rows.map OrderRow.orderId = rm'.orders.rows.map OrderRow.orderId
  items : rm.orderItems.rows.map ItemRow.key = rm'.orderItems.rows.map ItemRow.key

theorem SameKeys.refl (rm : ReadModel) : SameKeys rm rm := ⟨rfl, rfl⟩

theorem SameKeys.trans {rm'' : ReadModel} (h : SameKeys rm rm') (h' : SameKeys rm' rm'') :
    SameKeys rm rm'' :=
  ⟨h.orders.trans h'.orders, h.items.trans h'.items⟩

/-- The histories wrote the same things last: to each column the same value, and the same orders
have got an item since they were created. -/
structure SameLast (past past' : List OrderEvent) : Prop where
  customer : ∀ o, past.findSome? (customerOf o) = past'.findSome? (customerOf o)
  status : ∀ o, past.findSome? (statusOf o) = past'.findSome? (statusOf o)
  item : ∀ o sku, past.findSome? (itemOf o sku) = past'.findSome? (itemOf o sku)
  totalled : ∀ o, Totalled o past ↔ Totalled o past'

theorem erase_item_eq {i i' : ItemRow} (hkey : i.key = i'.key) (hvalues : i.values = i'.values) :
    i.erase = i'.erase := by
  obtain ⟨o, sku, q, p, now⟩ := i
  obtain ⟨o', sku', q', p', now'⟩ := i'
  obtain ⟨rfl, rfl⟩ := Prod.mk.inj hkey
  obtain ⟨rfl, rfl⟩ := Prod.mk.inj hvalues
  rfl

/-- The items are what the history says. -/
theorem Describes.items_eq (h : rm.Describes engine past) (h' : rm'.Describes engine past')
    (hkeys : SameKeys rm rm') (hlast : SameLast past past') :
    rm.orderItems.mapRows ItemRow.erase ItemRow.key_erase =
      rm'.orderItems.mapRows ItemRow.erase ItemRow.key_erase := by
  refine KeyedTable.mapRows_congr ItemRow.key_erase hkeys.items ?_
  rintro ⟨o, sku⟩
  have hvalues : (rm.orderItems.lookup (o, sku)).map ItemRow.values =
      (rm'.orderItems.lookup (o, sku)).map ItemRow.values := by
    rw [h.item, h'.item, hlast.item]
  cases hi : rm.orderItems.lookup (o, sku) with
  | none =>
    rw [hi] at hvalues
    rw [Option.map_eq_none_iff.1 hvalues.symm]
  | some i =>
    rw [hi] at hvalues
    obtain ⟨i', hi', hsame⟩ := Option.map_eq_some_iff.1 hvalues.symm
    rw [hi', Option.map_some, Option.map_some]
    refine congrArg some (erase_item_eq ?_ hsame.symm)
    rw [KeyedTable.key_of_lookup hi, KeyedTable.key_of_lookup hi']

/-- Orders whose items are the same have the same total. -/
theorem TotalOf.eq {o : String} {total total' : SqlNumber} (h : rm.TotalOf engine past o total)
    (h' : rm'.TotalOf engine past' o total') (hlines : rm.linesOf o = rm'.linesOf o)
    (htotalled : Totalled o past ↔ Totalled o past') : total = total' := by
  rcases h with ⟨hyes, hsum⟩ | ⟨hno, rfl⟩
  · rcases h' with ⟨-, hsum'⟩ | ⟨hno', -⟩
    · rw [hlines, hsum'] at hsum
      exact (Except.ok.inj hsum).symm
    · exact absurd (htotalled.1 hyes) hno'
  · rcases h' with ⟨hyes', -⟩ | ⟨-, rfl⟩
    · exact absurd (htotalled.2 hyes') hno
    · rfl

/-- **A history and the order of the rows determine the tables.**  Nothing else is left in them of
the way they came about, once the times are erased. -/
theorem Describes.erase_eq (h : rm.Describes engine past) (h' : rm'.Describes engine past')
    (hkeys : SameKeys rm rm') (hlast : SameLast past past') : rm.erase = rm'.erase := by
  have hitems := h.items_eq h' hkeys hlast
  have hlines : ∀ o, rm.linesOf o = rm'.linesOf o := by
    intro o
    calc rm.linesOf o
        = rm.erase.linesOf o := linesOf_erase.symm
      _ = rm'.erase.linesOf o := congrArg (fun items ↦ linesOf ⟨rm.orders, items⟩ o) hitems
      _ = rm'.linesOf o := linesOf_erase
  refine ext ?_ hitems
  refine KeyedTable.mapRows_congr OrderRow.orderId_erase hkeys.orders fun o ↦ ?_
  have hcustomer : (rm.orders.lookup o).map OrderRow.customerId =
      (rm'.orders.lookup o).map OrderRow.customerId := by
    rw [h.customer, h'.customer, hlast.customer]
  cases hrow : rm.orders.lookup o with
  | none =>
    rw [hrow] at hcustomer
    rw [Option.map_eq_none_iff.1 hcustomer.symm]
  | some row =>
    rw [hrow] at hcustomer
    obtain ⟨row', hrow', hcustomer⟩ := Option.map_eq_some_iff.1 hcustomer.symm
    have hkey : row'.orderId = row.orderId :=
      (KeyedTable.key_of_lookup hrow').trans (KeyedTable.key_of_lookup hrow).symm
    have hstatus : row'.status = row.status :=
      Option.some_inj.1 ((h'.status o row' hrow').symm.trans
        ((hlast.status o).symm.trans (h.status o row hrow)))
    have htotal : row.totalCents = row'.totalCents :=
      (h.total o row hrow).eq (h'.total o row' hrow') (hlines o) (hlast.totalled o)
    rw [hrow', Option.map_some, Option.map_some, OrderRow.erase, OrderRow.erase, hkey, hcustomer,
      hstatus, htotal]

/-! ## Writing what is there

A replay of what was applied before inserts nothing, so no row gets another place. -/

/-- An event that has been written before writes to rows that are there. -/
theorem Describes.sameKeys_write (h : rm.Describes engine past) {event : OrderEvent}
    (hmem : event ∈ past) (hrm : rm.write engine now event = .ok rm') : SameKeys rm' rm := by
  cases event with
  | created o c st =>
    obtain rfl := Except.ok.inj hrm
    obtain ⟨row, hrow⟩ := Option.isSome_iff_exists.1 ((h.isSome_lookup_iff o).2 ⟨c, st, hmem⟩)
    refine ⟨?_, rfl⟩
    exact KeyedTable.keys_upsert_of_some (r := ⟨o, c, st, .integer 0, now⟩)
      (OrderRow.recreated now c st) (fun r _ ↦ r.orderId_recreated now c st) hrow
  | itemAdded o sku q p =>
    have hsome : (rm.orderItems.lookup (o, sku)).isSome := by
      rw [← Option.isSome_map (f := ItemRow.values), h.item, List.findSome?_isSome_iff]
      exact ⟨_, hmem, by simp [itemOf]⟩
    obtain ⟨item, hitem⟩ := Option.isSome_iff_exists.1 hsome
    have hitems : (rm.writeItem now o sku q p).orderItems.rows.map ItemRow.key =
        rm.orderItems.rows.map ItemRow.key :=
      KeyedTable.keys_upsert_of_some (t := rm.orderItems) (r := ⟨o, sku, q, p, now⟩)
        (ItemRow.replaced now q p) (fun i _ ↦ i.key_replaced now q p) hitem
    rcases updateTotal_eq_ok_iff.1 hrm with ⟨-, rfl⟩ | ⟨-, total, -, rfl⟩
    · exact ⟨rfl, hitems⟩
    · exact ⟨KeyedTable.keys_updateWhere _ fun r _ ↦ r.orderId_withTotal now total, hitems⟩
  | cancelled o =>
    obtain rfl := Except.ok.inj hrm
    exact ⟨KeyedTable.keys_updateWhere _ fun r _ ↦ r.orderId_withStatus now "cancelled", rfl⟩
  | other =>
    obtain rfl := Except.ok.inj hrm
    exact SameKeys.refl rm

/-- No sum overflows while the events are written.  It is asked of the tables as they are at each
step, with the new item among the items of its order. -/
def SumsFit (engine : SqlEngine) : ReadModel → List OrderEvent → Prop
  | _, [] => True
  | rm, event :: events =>
    (∀ o sku quantity unitPriceCents, event = .itemAdded o sku quantity unitPriceCents →
      Fits engine ((rm.writeItem 0 o sku quantity unitPriceCents).linesOf o)) ∧
    ∀ rm', rm.write engine 0 event = .ok rm' → SumsFit engine rm' events

/-- An event whose sum does not overflow is written. -/
theorem exists_write {event : OrderEvent} (hfits : ∀ o sku q p, event = .itemAdded o sku q p →
      Fits engine ((rm.writeItem now o sku q p).linesOf o)) :
    ∃ rm', rm.write engine now event = .ok rm' := by
  cases event with
  | created o c st => exact ⟨_, rfl⟩
  | itemAdded o sku q p =>
    obtain ⟨total, htotal, -⟩ := totalOf_of_fits (hfits o sku q p rfl)
    by_cases hsome : ((rm.writeItem now o sku q p).orders.lookup o).isSome
    · exact ⟨_, updateTotal_eq_ok_iff.2 (Or.inr ⟨hsome, _, htotal, rfl⟩)⟩
    · rw [Option.not_isSome_iff_eq_none] at hsome
      exact ⟨_, updateTotal_eq_ok_iff.2 (Or.inl ⟨hsome, rfl⟩)⟩
  | cancelled o => exact ⟨_, rfl⟩
  | other => exact ⟨_, rfl⟩

/-! ## Replaying rows

The rows of the log, as the handlers read them.  A row that cannot be read ends the replay, so in a
replay that comes to its end every row says something. -/

/-- What the handlers read of the text of a row. -/
def readText (serde : Serde) (text : String) : Except ProjectionError OrderEvent :=
  (serde.fromStr text).mapError .json >>= readEvent

theorem applyText_eq (serde : Serde) (engine : SqlEngine) (rm : ReadModel) (text : String) :
    applyText serde engine rm text = (readText serde text >>= rm.write engine 0) := by
  rw [applyText, readText, bind_assoc]
  exact congrArg _ (funext fun envelope ↦ applyOrderEvent_eq engine 0 envelope rm)

/-- What the rows say, oldest first.  Rows that cannot be read say nothing. -/
def eventsOf (serde : Serde) (rows : List (ℤ × String)) : List OrderEvent :=
  rows.filterMap fun row ↦ (readText serde row.2).toOption

theorem eventsOf_append (front rest : List (ℤ × String)) :
    eventsOf serde (front ++ rest) = eventsOf serde front ++ eventsOf serde rest :=
  List.filterMap_append ..

theorem eventsOf_cons {row : ℤ × String} {rows : List (ℤ × String)} {event : OrderEvent}
    (h : readText serde row.2 = .ok event) :
    eventsOf serde (row :: rows) = event :: eventsOf serde rows := by
  rw [eventsOf, List.filterMap_cons, h]
  rfl

theorem replay_cons_eq_ok_iff {row : ℤ × String} {rows : List (ℤ × String)} :
    replay (applyText serde engine) rm (row :: rows) = .ok rm' ↔
      ∃ event mid, readText serde row.2 = .ok event ∧ rm.write engine 0 event = .ok mid ∧
        replay (applyText serde engine) mid rows = .ok rm' := by
  rw [replay, bind_eq_ok_iff]
  simp only [applyText_eq, bind_eq_ok_iff]
  constructor
  · rintro ⟨mid, ⟨event, hread, hwrite⟩, hrest⟩
    exact ⟨event, mid, hread, hwrite, hrest⟩
  · rintro ⟨event, mid, hread, hwrite, hrest⟩
    exact ⟨mid, ⟨event, hread, hwrite⟩, hrest⟩

/-- Rows that are replayed join the history. -/
theorem Describes.replay {rows : List (ℤ × String)} (h : rm.Describes engine past)
    (hrm : replay (applyText serde engine) rm rows = .ok rm') :
    rm'.Describes engine ((eventsOf serde rows).reverse ++ past) := by
  induction rows generalizing rm past with
  | nil =>
    obtain rfl := Except.ok.inj hrm
    exact h
  | cons row rows ih =>
    obtain ⟨event, mid, hread, hwrite, hrest⟩ := replay_cons_eq_ok_iff.1 hrm
    rw [eventsOf_cons hread, List.reverse_cons, List.append_assoc]
    exact ih (h.write hwrite) hrest

/-- Rows that have been replayed before are replayed on rows that are there. -/
theorem Describes.sameKeys_replay {rows : List (ℤ × String)} (h : rm.Describes engine past)
    (hmem : ∀ event ∈ eventsOf serde rows, event ∈ past)
    (hrm : Resume.replay (applyText serde engine) rm rows = .ok rm') : SameKeys rm' rm := by
  induction rows generalizing rm past with
  | nil =>
    obtain rfl := Except.ok.inj hrm
    exact SameKeys.refl rm
  | cons row rows ih =>
    obtain ⟨event, mid, hread, hwrite, hrest⟩ := replay_cons_eq_ok_iff.1 hrm
    rw [eventsOf_cons hread, List.forall_mem_cons] at hmem
    have hlater : SameKeys rm' mid :=
      ih (h.write hwrite) (fun e he ↦ List.mem_cons_of_mem _ (hmem.2 e he)) hrest
    exact hlater.trans (h.sameKeys_write hmem.1 hwrite)

/-- **The end of the log changes nothing when it comes again.**  The tables on the way may be unlike
any they have been before; only the last of them is compared. -/
theorem replay_suffix {front rest : List (ℤ × String)}
    (hbuilt : Resume.replay (applyText serde engine) .empty (front ++ rest) = .ok rm)
    (hpreceded : ItemsPreceded (eventsOf serde (front ++ rest)))
    (hagain : Resume.replay (applyText serde engine) rm rest = .ok rm') : rm'.erase = rm.erase := by
  have honce : rm.Describes engine (eventsOf serde (front ++ rest)).reverse := by
    have hempty := (describes_empty engine).replay hbuilt
    rwa [List.append_nil] at hempty
  have htwice := honce.replay hagain
  refine htwice.erase_eq honce (honce.sameKeys_replay (fun event hevent ↦ ?_) hagain) ?_
  · rw [eventsOf_append]
    exact List.mem_reverse.2 (List.mem_append_right _ hevent)
  · rw [eventsOf_append] at hpreceded ⊢
    refine ⟨fun o ↦ ?_, fun o ↦ ?_, fun o sku ↦ ?_, fun o ↦ totalled_again_iff hpreceded⟩
    · rw [List.reverse_append, findSome?_append_again]
    · rw [List.reverse_append, findSome?_append_again]
    · rw [List.reverse_append, findSome?_append_again]

/-- Rows that can be read are replayed if no sum overflows. -/
theorem exists_replay {rows : List (ℤ × String)}
    (hread : ∀ row ∈ rows, ∃ event, readText serde row.2 = .ok event)
    (hfits : SumsFit engine rm (eventsOf serde rows)) :
    ∃ rm', Resume.replay (applyText serde engine) rm rows = .ok rm' := by
  induction rows generalizing rm with
  | nil => exact ⟨rm, rfl⟩
  | cons row rows ih =>
    rw [List.forall_mem_cons] at hread
    obtain ⟨⟨event, hevent⟩, hread⟩ := hread
    rw [eventsOf_cons hevent] at hfits
    obtain ⟨mid, hmid⟩ := exists_write hfits.1
    obtain ⟨rm', hrm'⟩ := ih hread (hfits.2 mid hmid)
    exact ⟨rm', replay_cons_eq_ok_iff.2 ⟨event, mid, hevent, hmid, hrm'⟩⟩

/-- Rows that have been replayed can be read. -/
theorem exists_readText_of_replay {rows : List (ℤ × String)}
    (h : Resume.replay (applyText serde engine) rm rows = .ok rm') :
    ∀ row ∈ rows, ∃ event, readText serde row.2 = .ok event := by
  induction rows generalizing rm with
  | nil => exact fun row hrow ↦ absurd hrow List.not_mem_nil
  | cons row rows ih =>
    obtain ⟨event, mid, hread, -, hrest⟩ := replay_cons_eq_ok_iff.1 h
    exact List.forall_mem_cons.2 ⟨⟨event, hread⟩, ih hrest⟩

end ReadModel

/-! ## Rebuilding

A rebuild is a replay, up to the clock and the checkpoints. -/

namespace OrderProjection

open ReadModel

/-- A rebuild of empty tables from the start applies the whole log once. -/
theorem replay_log_of_rebuild (serde : Serde) (engine : SqlEngine) (clock : ℤ → Instant × Instant)
    (p : OrderProjection) (hempty : p.pool.readModel = .empty)
    (hok : (rebuildFromOffset serde engine clock 0 p).2 = .ok ()) :
    replay (applyText serde engine) .empty (rebuildFromOffset serde engine clock 0 p).1.pool.log =
      .ok (rebuildFromOffset serde engine clock 0 p).1.pool.readModel.erase := by
  have hlog : (rebuildFromOffset serde engine clock 0 p).1.pool.log = p.pool.log :=
    log_rebuildRows clock _ p
  have hcall : replay (applyText serde engine) p.pool.readModel.erase (after 0 p.pool.log) = _ :=
    replay_rebuildRows clock (after 0 p.pool.log) p
  rw [hempty, Tables.after_zero_log] at hcall
  rw [rebuildFromOffset, Tables.after_zero_log] at hok
  rw [hlog]
  refine hcall.trans ?_
  rw [hok, rebuildFromOffset, Tables.after_zero_log]
  rfl

/-- **Rebuilding from any offset comes back to the tables.**  The read model is what applying the
whole log once makes of empty tables, every item of the log comes after its order, and no sum leaves
`i64` on the way.  The rows above the offset are applied a second time, in the order of the log, and
afterwards the tables are what they were, up to the times. -/
theorem rebuild_converges (serde : Serde) (engine : SqlEngine) (clock : ℤ → Instant × Instant)
    (k : ℤ) (p : OrderProjection) (hk : 0 ≤ k)
    (hbuilt : replay (applyText serde engine) .empty p.pool.log = .ok p.pool.readModel.erase)
    (hpreceded : ItemsPreceded (eventsOf serde p.pool.log))
    (hfits : SumsFit engine p.pool.readModel.erase (eventsOf serde (after k p.pool.log))) :
    let rebuilt := rebuildFromOffset serde engine clock k p
    rebuilt.2 = .ok () ∧
      rebuilt.1.pool.readModel.erase = p.pool.readModel.erase ∧
      (k < lastOffset 0 p.pool.log → rebuilt.1.offset = lastOffset 0 p.pool.log) := by
  intro rebuilt
  have hsuffix : after k p.pool.log <:+ p.pool.log := after_suffix p.pool.log_sorted
  obtain ⟨front, hlog⟩ := hsuffix
  have hread := exists_readText_of_replay hbuilt
  obtain ⟨rm, hrm⟩ := exists_replay
    (fun row hrow ↦ hread row (hlog ▸ List.mem_append_right front hrow)) hfits
  -- the call is the replay
  have hcall : (.ok rm : Except ProjectionError ReadModel) =
      rebuilt.2.map fun _ ↦ rebuilt.1.pool.readModel.erase :=
    hrm.symm.trans (replay_rebuildRows clock (after k p.pool.log) p)
  obtain ⟨hresult, rfl⟩ := map_const_eq_ok_iff.1 hcall.symm
  refine ⟨hresult, ?_, fun hlt ↦ ?_⟩
  · rw [← hlog] at hbuilt hpreceded
    have hsame := replay_suffix hbuilt hpreceded hrm
    rwa [erase_erase, erase_erase] at hsame
  · have hne : after k p.pool.log ≠ [] := after_ne_nil hk hlt
    calc rebuilt.1.offset
        = lastOffset p.offset (after k p.pool.log) := offset_rebuildRows clock _ p hresult
      _ = lastOffset 0 (front ++ after k p.pool.log) :=
        (lastOffset_append_of_ne_nil 0 p.offset front hne).symm
      _ = lastOffset 0 p.pool.log := by rw [hlog]

/-- The tables of an order and an item, rebuilt once. -/
@[irreducible] def rebuiltOnce : OrderProjection :=
  (rebuildFromOffset ordersBus.serde .plain (fun _ ↦ (0, 0)) 0 (.new publishedTables)).1

/-- Both events come again. -/
theorem rebuiltOnce_converges :
    (rebuildFromOffset ordersBus.serde .plain (fun _ ↦ (1, 1)) 0
      rebuiltOnce).1.pool.readModel.erase =
        rebuiltOnce.pool.readModel.erase ∧
      (rebuildFromOffset ordersBus.serde .plain (fun _ ↦ (1, 1)) 0 rebuiltOnce).1.offset = 2 := by
  have hevents : eventsOf ordersBus.serde rebuiltOnce.pool.log =
      [.created "ord_1" "cust_1" "open", .itemAdded "ord_1" "sku_1" 2 500] := by decide +kernel
  have hpreceded : ItemsPreceded (eventsOf ordersBus.serde rebuiltOnce.pool.log) := by
    rw [hevents]
    intro before o sku q p later h
    rcases before with - | ⟨first, before⟩
    · cases h
    · obtain ⟨rfl, hrest⟩ := List.cons.inj h
      rcases before with - | ⟨second, before⟩
      · obtain ⟨hsecond, -⟩ := List.cons.inj hrest
        obtain ⟨rfl, -⟩ := OrderEvent.itemAdded.inj hsecond
        exact ⟨"cust_1", "open", List.mem_singleton_self _⟩
      · cases before <;> cases hrest
  have hfits : SumsFit .plain rebuiltOnce.pool.readModel.erase
      (eventsOf ordersBus.serde (after 0 rebuiltOnce.pool.log)) := by
    rw [Tables.after_zero_log, hevents]
    refine ⟨fun _ _ _ _ h ↦ (by cases h), fun rm hrm ↦ ⟨fun o sku q p h ↦ ?_, fun _ _ ↦ trivial⟩⟩
    obtain rfl := Except.ok.inj hrm
    obtain ⟨rfl, rfl, rfl, rfl⟩ := OrderEvent.itemAdded.inj h
    exact fits_of_oneItemFits .plain (by decide +kernel) "ord_1"
  have hbuilt : replay (applyText ordersBus.serde .plain) .empty rebuiltOnce.pool.log =
      .ok rebuiltOnce.pool.readModel.erase := by
    unfold rebuiltOnce
    exact replay_log_of_rebuild ordersBus.serde .plain (fun _ ↦ (0, 0)) (.new publishedTables) rfl
      (by decide +kernel)
  have hlast : lastOffset 0 rebuiltOnce.pool.log = 2 := by decide +kernel
  have hagain := rebuild_converges ordersBus.serde .plain (fun _ ↦ (1, 1)) 0 rebuiltOnce le_rfl
    hbuilt hpreceded hfits
  simp only [hlast] at hagain
  exact ⟨hagain.2.1, hagain.2.2 (by decide)⟩

end OrderProjection

end PhenoEvents
