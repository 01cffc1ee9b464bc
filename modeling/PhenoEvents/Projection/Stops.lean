import PhenoEvents.Projection.Convergence

/-!
# Stopping at a bad row

A row is bad if its text does not decode, or if a field that a handler reads is not there or not of
its type (`isBad`).  A rebuild stops at the first such row: every field is read before anything is
written, so nothing of the row gets into the tables, and the checkpoint is that of the row before
it. Going on from there comes to the same row again and changes nothing (`rebuildFromOffset_stops`).

A good row can only fail in the database.  SQLite reports no error here, and then the loop is the
fold of `applyRow` over the rows before the first bad one.

So one bad row keeps everything behind it from the read model, however often the rebuild is called.
There is no list of rows to be skipped and no way to move the checkpoint past one but `apply`.

## How it goes

* One row: reading (`readText`) comes before writing (`write`), and only reading can find a row bad.
  So `isBad` is a predicate on the row, and needs no tables.
* The loop over rows that are all good comes to its end (`rebuildRows_eq_ok_of_good`), and what it
  leaves is a fold (`foldlM_applyRow`).
* The loop over rows that begin with a bad one does nothing (`exists_error_of_bad_first`).
* The rows above an offset are good ones up to the first bad one, if there is any
  (`after_eq_rowsBeforeBad`), and the call is the two loops one after the other.
* The second call begins at the checkpoint the first has left, and the rows above it are the bad row
  and what is behind it.
-/

set_option autoImplicit false

namespace PhenoEvents

open Except Resume

namespace ReadModel

variable {serde : Serde} {engine : SqlEngine} {now : Instant} {clock : ℤ → Instant × Instant}
  {rm rm' : ReadModel} {row : ℤ × String}

/-- The row cannot be applied: its text does not decode, or a field is missing or of the wrong type.
This can be seen without the tables. -/
def isBad (serde : Serde) (row : ℤ × String) : Bool :=
  match serde.fromStr row.2 with
  | .error _ => true
  | .ok envelope => !decide envelope.WellFormed

/-- What a row of `outbox` does to the read model: it is decoded, its fields are read, and they are
written.  The checkpoint is not a part of it. -/
def applyRow (serde : Serde) (engine : SqlEngine) (clock : ℤ → Instant × Instant) (rm : ReadModel)
    (row : ℤ × String) : Except ProjectionError ReadModel := do
  let envelope ← (serde.fromStr row.2).mapError .json
  rm.applyOrderEvent engine (clock row.1).1 envelope

/-! ## One row

What is bad about a row can be seen without the tables, which is why the second call finds it bad
again. -/

theorem isBad_eq_false_iff :
    isBad serde row = false ↔ ∃ event, readText serde row.2 = .ok event := by
  rw [isBad, readText]
  cases serde.fromStr row.2 with
  | error message =>
    refine ⟨fun h ↦ (by cases h), ?_⟩
    rintro ⟨event, hevent⟩
    cases hevent
  | ok envelope =>
    show (!decide envelope.WellFormed) = false ↔ ∃ event, readEvent envelope = .ok event
    rw [exists_readEvent_iff]
    simp

theorem applyRow_eq : applyRow serde engine clock rm row =
    (readText serde row.2 >>= rm.write engine (clock row.1).1) := by
  rw [applyRow, readText, bind_assoc]
  exact congrArg _ (funext fun envelope ↦ applyOrderEvent_eq engine _ envelope rm)

/-- A bad row is not applied. -/
theorem exists_error_of_isBad (engine : SqlEngine) (clock : ℤ → Instant × Instant) (rm : ReadModel)
    (h : isBad serde row = true) : ∃ error, applyRow serde engine clock rm row = .error error := by
  cases hread : readText serde row.2 with
  | error error => exact ⟨error, by rw [applyRow_eq, hread]; rfl⟩
  | ok event =>
    rw [isBad_eq_false_iff.2 ⟨event, hread⟩] at h
    cases h

/-- What can go wrong once the fields are read is the database.  The other errors of a projection
are about what the envelope says, and that has been read. -/
theorem write_eq_error {event : OrderEvent} {error : ProjectionError}
    (h : rm.write engine now event = .error error) : ∃ message, error = .sqlite message := by
  cases event with
  | itemAdded o sku q p =>
    rw [write, updateTotal] at h
    split at h
    · cases htotal : totalOf engine ((rm.writeItem now o sku q p).linesOf o) with
      | error message =>
        rw [htotal] at h
        exact ⟨message, (Except.error.inj h).symm⟩
      | ok total =>
        rw [htotal] at h
        cases h
    · cases h
  | _ => cases h

/-- A good row is applied, or the database fails. -/
theorem applyRow_of_good (engine : SqlEngine) (clock : ℤ → Instant × Instant) (rm : ReadModel)
    (h : isBad serde row = false) :
    (∃ rm', applyRow serde engine clock rm row = .ok rm') ∨
      ∃ message, applyRow serde engine clock rm row = .error (.sqlite message) := by
  obtain ⟨event, hread⟩ := isBad_eq_false_iff.1 h
  have hwrite : applyRow serde engine clock rm row = rm.write engine (clock row.1).1 event := by
    rw [applyRow_eq, hread]
    rfl
  rw [hwrite]
  cases hrm : rm.write engine (clock row.1).1 event with
  | ok rm' => exact Or.inl ⟨rm', rfl⟩
  | error error =>
    obtain ⟨message, rfl⟩ := write_eq_error hrm
    exact Or.inr ⟨message, rfl⟩

end ReadModel

namespace OrderProjection

open ReadModel

variable {serde : Serde} {engine : SqlEngine} {clock : ℤ → Instant × Instant} {p : OrderProjection}
  {row : ℤ × String} {rows front rest : List (ℤ × String)}

/-! ## The loop

A loop over two lists in a row is a loop over the first and, if that has come to its end, one over
the second.  That is all that is needed to cut the rows at the first bad one. -/

theorem rebuildRows_cons : rebuildRows serde engine clock (row :: rows) p =
    match applyRow serde engine clock p.pool.readModel row with
    | .error e => (p, .error e)
    | .ok rm => rebuildRows serde engine clock rows
        ((p.withReadModel rm).checkpoint (clock row.1).2 row.1) := by
  obtain ⟨offset, text⟩ := row
  rw [rebuildRows]
  cases hdecode : serde.fromStr text with
  | error message =>
    rw [applyRow, hdecode]
    rfl
  | ok envelope =>
    have happly : applyRow serde engine clock p.pool.readModel (offset, text) =
        p.pool.readModel.applyOrderEvent engine (clock offset).1 envelope := by
      rw [applyRow, hdecode]
      rfl
    rw [happly]
    simp only [applyAtOffset]
    cases p.pool.readModel.applyOrderEvent engine (clock offset).1 envelope with
    | error e => rfl
    | ok rm => rfl

theorem rebuildRows_append (hok : (rebuildRows serde engine clock front p).2 = .ok ()) :
    rebuildRows serde engine clock (front ++ rest) p =
      rebuildRows serde engine clock rest (rebuildRows serde engine clock front p).1 := by
  induction front generalizing p with
  | nil => rfl
  | cons row front ih =>
    rw [rebuildRows_cons] at hok
    rw [List.cons_append, rebuildRows_cons, rebuildRows_cons]
    cases hrm : applyRow serde engine clock p.pool.readModel row with
    | error error =>
      rw [hrm] at hok
      cases hok
    | ok rm =>
      rw [hrm] at hok
      exact ih hok

/-- Good rows are all applied. -/
theorem rebuildRows_eq_ok_of_good (rest : List (ℤ × String))
    (hgood : ∀ row ∈ front, isBad serde row = false)
    (hsqlite : ∀ message, (rebuildRows serde engine clock (front ++ rest) p).2 ≠
      .error (.sqlite message)) : (rebuildRows serde engine clock front p).2 = .ok () := by
  induction front generalizing p with
  | nil => rfl
  | cons row front ih =>
    rw [List.forall_mem_cons] at hgood
    rw [List.cons_append, rebuildRows_cons] at hsqlite
    rw [rebuildRows_cons]
    rcases applyRow_of_good engine clock p.pool.readModel hgood.1 with ⟨rm, hrm⟩ | ⟨message, herror⟩
    · rw [hrm] at hsqlite ⊢
      exact ih hgood.2 hsqlite
    · rw [herror] at hsqlite
      exact absurd rfl (hsqlite message)

/-- What has been applied is in the read model.  The checkpoints and the offset are left out of
this, so that the tables can be compared with those of another run. -/
theorem foldlM_applyRow (hok : (rebuildRows serde engine clock rows p).2 = .ok ()) :
    rows.foldlM (applyRow serde engine clock) p.pool.readModel =
      .ok (rebuildRows serde engine clock rows p).1.pool.readModel := by
  induction rows generalizing p with
  | nil => rfl
  | cons row rows ih =>
    rw [rebuildRows_cons] at hok ⊢
    rw [List.foldlM_cons]
    cases hrm : applyRow serde engine clock p.pool.readModel row with
    | error error =>
      rw [hrm] at hok
      cases hok
    | ok rm =>
      rw [hrm] at hok
      exact ih hok

/-- A rebuild that comes to a bad row returns and changes nothing.  Neither the tables nor the
checkpoint nor the offset in memory have heard of the row. -/
theorem exists_error_of_bad_first (rows : List (ℤ × String)) (h : isBad serde row = true) :
    ∃ error, rebuildRows serde engine clock (row :: rows) p = (p, .error error) := by
  obtain ⟨error, herror⟩ := exists_error_of_isBad engine clock p.pool.readModel h
  exact ⟨error, by rw [rebuildRows_cons, herror]⟩

/-! ## The call

A call is given an offset, which need not be the one in memory.  It applies the rows above it, and
returns at the first that is bad. -/

/-- The rows a rebuild applies: those above the offset, up to the first bad one. -/
def rowsBeforeBad (serde : Serde) (offset : ℤ) (p : OrderProjection) : List (ℤ × String) :=
  (after offset p.pool.log).takeWhile fun row ↦ !isBad serde row

/-- The rows above an offset are good, or there is a first one that is bad. -/
theorem after_eq_rowsBeforeBad (serde : Serde) (offset : ℤ) (p : OrderProjection) :
    (after offset p.pool.log = rowsBeforeBad serde offset p ∧
        ∀ row ∈ after offset p.pool.log, isBad serde row = false) ∨
      ∃ bad rest, after offset p.pool.log = rowsBeforeBad serde offset p ++ bad :: rest ∧
        isBad serde bad = true := by
  have hsplit : rowsBeforeBad serde offset p ++
      (after offset p.pool.log).dropWhile (fun row ↦ !isBad serde row) = after offset p.pool.log :=
    List.takeWhile_append_dropWhile
  cases hrest : (after offset p.pool.log).dropWhile fun row ↦ !isBad serde row with
  | nil =>
    refine Or.inl ⟨?_, fun row hrow ↦ ?_⟩
    · rw [hrest, List.append_nil] at hsplit
      exact hsplit.symm
    · simpa using List.dropWhile_eq_nil_iff.1 hrest row hrow
  | cons bad rest =>
    rw [hrest] at hsplit
    refine Or.inr ⟨bad, rest, hsplit.symm, ?_⟩
    have hhead := List.head?_dropWhile_not (fun row ↦ !isBad serde row) (after offset p.pool.log)
    rw [hrest] at hhead
    simpa using hhead

theorem good_of_mem_rowsBeforeBad {offset : ℤ} (h : row ∈ rowsBeforeBad serde offset p) :
    isBad serde row = false := by
  simpa using List.mem_takeWhile_imp h

/-- The rows before the first bad one are applied, and then the call returns. -/
theorem rebuildFromOffset_cases {k : ℤ}
    (hsqlite : ∀ message, (rebuildFromOffset serde engine clock k p).2 ≠ .error (.sqlite message)) :
    (rebuildRows serde engine clock (rowsBeforeBad serde k p) p).2 = .ok () ∧
      (rebuildFromOffset serde engine clock k p).1 =
        (rebuildRows serde engine clock (rowsBeforeBad serde k p) p).1 ∧
      ((rebuildFromOffset serde engine clock k p).2 = .ok () ∧
          (∀ row ∈ after k p.pool.log, isBad serde row = false) ∨
        ∃ bad rest error, after k p.pool.log = rowsBeforeBad serde k p ++ bad :: rest ∧
          isBad serde bad = true ∧
          (rebuildFromOffset serde engine clock k p).2 = .error error) := by
  have hgood : ∀ row ∈ rowsBeforeBad serde k p, isBad serde row = false :=
    fun _ ↦ good_of_mem_rowsBeforeBad
  rw [rebuildFromOffset] at hsqlite ⊢
  rcases after_eq_rowsBeforeBad serde k p with ⟨hrows, hall⟩ | ⟨bad, rest, hrows, hbad⟩
  · have hok : (rebuildRows serde engine clock (rowsBeforeBad serde k p) p).2 = .ok () := by
      refine rebuildRows_eq_ok_of_good [] hgood ?_
      rw [List.append_nil, ← hrows]
      exact hsqlite
    rw [hrows] at hall ⊢
    exact ⟨hok, rfl, Or.inl ⟨hok, hall⟩⟩
  · rw [hrows] at hsqlite ⊢
    have hok := rebuildRows_eq_ok_of_good (bad :: rest) hgood hsqlite
    obtain ⟨error, herror⟩ := exists_error_of_bad_first rest hbad
    rw [rebuildRows_append hok, herror]
    exact ⟨hok, rfl, Or.inr ⟨bad, rest, error, rfl, hbad, rfl⟩⟩

/-- **A rebuild stops at the first bad row, and nowhere else.**  The tables hold the rows before it,
the checkpoint and the offset are those of the last of these, and another call changes nothing.
SQLite reports no error, and the stored checkpoint is the offset. -/
theorem rebuildFromOffset_stops (serde : Serde) (engine : SqlEngine)
    (clock : ℤ → Instant × Instant) (k : ℤ) (p : OrderProjection)
    (hstored : p.offset = p.pool.checkpoint "orders")
    (hsqlite : ∀ message, (rebuildFromOffset serde engine clock k p).2 ≠ .error (.sqlite message)) :
    let applied := rowsBeforeBad serde k p
    let ended := rebuildFromOffset serde engine clock k p
    applied.foldlM (applyRow serde engine clock) p.pool.readModel = .ok ended.1.pool.readModel ∧
      ended.1.pool.checkpoint "orders" = ended.1.offset ∧
      ended.1.offset = lastOffset p.offset applied ∧
      ((∀ row ∈ p.pool.log, k < row.1 → isBad serde row = false) → ended.2 = .ok ()) ∧
      ((∃ row ∈ p.pool.log, k < row.1 ∧ isBad serde row = true) →
        (∃ error, ended.2 = .error error) ∧
          (applied ≠ [] → ∀ clock', ∃ error,
            rebuildFromOffset serde engine clock' ended.1.offset ended.1 =
              (ended.1, .error error))) := by
  intro applied ended
  obtain ⟨hok, hended, hcases⟩ := rebuildFromOffset_cases hsqlite
  have hoffset : ended.1.offset = lastOffset p.offset applied := by
    rw [hended]
    exact offset_rebuildRows clock applied p hok
  refine ⟨?_, ?_, hoffset, fun hall ↦ ?_, fun ⟨row, hrow, hk, hbad⟩ ↦ ?_⟩
  · rw [hended]
    exact foldlM_applyRow hok
  · rw [hoffset, hstored, hended]
    exact checkpoint_rebuildRows clock applied p hok
  · rcases hcases with ⟨hend, -⟩ | ⟨bad, rest, -, hrows, hbad, -⟩
    · exact hend
    · have hmem : bad ∈ after k p.pool.log := hrows ▸ List.mem_append_right _ List.mem_cons_self
      obtain ⟨hlog, hk⟩ := List.mem_filter.1 hmem
      rw [hall bad hlog (of_decide_eq_true hk)] at hbad
      cases hbad
  · rcases hcases with ⟨-, hall⟩ | ⟨bad, rest, error, hrows, hfirst, hend⟩
    · rw [hall row (List.mem_filter.2 ⟨hrow, decide_eq_true hk⟩)] at hbad
      cases hbad
    · refine ⟨⟨error, hend⟩, fun hne clock' ↦ ?_⟩
      -- the second call starts at the bad row
      have hlog : ended.1.pool.log = p.pool.log := log_rebuildRows clock _ p
      have hlast : ended.1.offset = lastOffset k applied :=
        hoffset.trans (lastOffset_append_of_ne_nil p.offset k [] hne)
      rw [rebuildFromOffset, hlog, hlast, after_lastOffset p.pool.log_sorted hrows]
      exact exists_error_of_bad_first rest hfirst

/-- An item without a quantity. -/
def itemWithoutQuantity : EventEnvelope :=
  orderEvent ⟨3⟩ "order.item_added"
    (.ofEntries [("order_id", .string "ord_1"), ("sku", .string "sku_2"),
      ("unit_price_cents", .number (.posInt 700))] (by decide))

/-- The text of `itemWithoutQuantity`. -/
def itemWithoutQuantityText : String :=
  orderEventText "3" "order.item_added"
    "\x7b\"order_id\":\"ord_1\",\"sku\":\"sku_2\",\"unit_price_cents\":700\x7d"

/-- The encoding of these events. -/
def stoppingSerde : Serde :=
  .table [(orderCreated, orderCreatedText), (itemAdded, itemAddedText),
    (itemWithoutQuantity, itemWithoutQuantityText)] (by decide +kernel)

/-- An order, an item without a quantity, and an item. -/
def stoppingProjection : OrderProjection :=
  .new { Tables.empty with
    db := ((Database.empty.insertEvent ⟨1⟩ orderCreatedText 0).insertEvent ⟨3⟩
      itemWithoutQuantityText 0).insertEvent ⟨2⟩ itemAddedText 0 }

/-- They are rebuilt. -/
@[irreducible] def stoppedRebuild : OrderProjection × Except ProjectionError Unit :=
  rebuildFromOffset stoppingSerde .plain (fun _ ↦ (0, 0)) 0 stoppingProjection

/-- The order is applied, and no call gets any further. -/
theorem stoppedRebuild_stops :
    stoppedRebuild.2 = .error (.missingField "quantity") ∧ stoppedRebuild.1.offset = 1 ∧
      ∃ error, rebuildFromOffset stoppingSerde .plain (fun _ ↦ (1, 1)) stoppedRebuild.1.offset
        stoppedRebuild.1 = (stoppedRebuild.1, .error error) := by
  have herror : stoppedRebuild.2 = .error (.missingField "quantity") := by decide +kernel
  refine ⟨herror, by decide +kernel, ?_⟩
  have hsqlite : ∀ message, stoppedRebuild.2 ≠ .error (.sqlite message) := by
    intro message h
    cases herror.symm.trans h
  have hbad : ∃ row ∈ stoppingProjection.pool.log, 0 < row.1 ∧ isBad stoppingSerde row = true := by
    decide +kernel
  unfold stoppedRebuild at hsqlite ⊢
  have hstops := rebuildFromOffset_stops stoppingSerde .plain (fun _ ↦ (0, 0)) 0
    stoppingProjection (by decide +kernel) hsqlite
  exact (hstops.2.2.2.2 hbad).2 (by decide +kernel) (fun _ ↦ (1, 1))

end OrderProjection

end PhenoEvents
