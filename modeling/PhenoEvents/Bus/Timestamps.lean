import Mathlib.Data.String.Basic
import PhenoEvents.Bus.Outbox
import PhenoEvents.Library.Calendar
import PhenoEvents.Library.Decimal

/-!
# Timestamps as text

The tables of the bus hold instants as texts, in the format of `DateTime::to_rfc3339`, and SQLite
compares texts byte by byte.  The fields of a text have fixed widths down to the second, so there
the order is that of the calendar.  The fraction of a second has none, three, six or nine digits,
and what follows it is `+`, which is less than `.` and less than a digit: a shorter text counts as
if it were filled up with zeros.

`toRfc3339` counts nanoseconds from the beginning of year 0, and the clock of the bus (`Instant`)
from 1970 on.

## What is here

* `timestampText`, the text as a list of characters: the date, the time, the fraction and the
  offset.
* `timestampText_lt`: a later instant has a greater text.  The proof splits an instant into days,
  seconds of the day and nanoseconds of the second, and the text into the same three parts.
* `bytes_toRfc3339_lt_iff`: the same for the bytes SQLite compares.  All characters are of one byte,
  so the order of the bytes is that of the characters.
* `text_order`: the two queries of the bus that compare instants, over a table whose readings are
  from before year 10000, give the same rows whether they compare texts or instants.

From year 10000 on a year has five digits and a sign in front, and the texts are not in order any
more.  The queries are claimed to be right up to there and not beyond.
-/

set_option autoImplicit false

namespace PhenoEvents

open List Decimal Calendar

/-! ## The texts

Each part with the mark it begins with, so that every part but the first has a width of its own. -/

/-- Two digits behind a mark. -/
def field (mark : Char) (n : ℕ) : List Char := mark :: decimal 2 n

/-- `YYYY-MM-DD`. -/
def dateText (day : ℕ) : List Char :=
  let date := dateOf day
  decimal 4 date.year ++ (field '-' date.month ++ field '-' date.day)

/-- `THH:MM:SS`. -/
def timeText (second : ℕ) : List Char :=
  field 'T' (second / 3600) ++ (field ':' (second % 3600 / 60) ++ field ':' (second % 3600 % 60))

/-- The fraction of a second in the fewest of no, three, six and nine digits, and the offset. -/
def fractionText (nanos : ℕ) : List Char :=
  if nanos = 0 then "+00:00".toList
  else if 10 ^ 6 ∣ nanos then '.' :: (decimal 3 (nanos / 10 ^ 6) ++ "+00:00".toList)
  else if 10 ^ 3 ∣ nanos then '.' :: (decimal 6 (nanos / 10 ^ 3) ++ "+00:00".toList)
  else '.' :: (decimal 9 nanos ++ "+00:00".toList)

/-- The characters of a timestamp. -/
def timestampText (t : ℕ) : List Char :=
  (dateText (t / 10 ^ 9 / 86400) ++ timeText (t / 10 ^ 9 % 86400)) ++ fractionText (t % 10 ^ 9)

/-- `DateTime::to_rfc3339`, for an instant in nanoseconds from the beginning of year 0. -/
def toRfc3339 (t : ℕ) : String := .ofList (timestampText t)

/-- The nanoseconds of the years 0 to 9999. -/
def endOfYears : ℕ := daysBefore 10000 * 86400 * 10 ^ 9

/-- The bytes of a text. -/
def bytes (s : String) : List ℕ := s.toByteArray.data.toList.map UInt8.toNat

/-! ## Their order

From the parts to the whole, by the quotient and the remainder of one number: seconds and
nanoseconds, days and seconds of the day, hours and what is left of them. -/

theorem field_lt_field {mark : Char} {a b : ℕ} (hab : a < b) (hb : b < 100) :
    field mark a < field mark b :=
  cons_lt_cons_iff.2 (Or.inr ⟨rfl, decimal_lt_decimal hab hb⟩)

theorem length_field (mark : Char) (n : ℕ) : (field mark n).length = 3 := by simp [field]

theorem length_dateText (day : ℕ) : (dateText day).length = 10 := by simp [dateText, length_field]

theorem length_timeText (second : ℕ) : (timeText second).length = 9 := by
  simp [timeText, length_field]

theorem dateText_lt {a b : ℕ} (hab : a < b) (hb : b < daysBefore 10000) :
    dateText a < dateText b := by
  obtain ⟨hyear, hmonth, hday⟩ := dateOf_bounds hb
  rcases dateOf_lt hab with hlt | ⟨hyears, hlt⟩
  · exact append_lt_append_of_lt (decimal_lt_decimal hlt hyear) (by simp)
  rw [dateText, dateText, hyears]
  refine append_left_lt ?_
  rcases hlt with hlt | ⟨hmonths, hlt⟩
  · exact append_lt_append_of_lt (field_lt_field hlt (by omega)) (by simp [length_field])
  · rw [hmonths]
    exact append_left_lt (field_lt_field hlt (by omega))

theorem timeText_lt {a b : ℕ} (hab : a < b) (hb : b < 86400) : timeText a < timeText b := by
  refine append_lt_append_of_div_mod (f := field 'T')
    (g := fun r ↦ field ':' (r / 60) ++ field ':' (r % 60)) (k := 3600) hab (by simp [length_field])
    (fun hlt ↦ field_lt_field hlt (by omega)) fun hlt ↦ ?_
  refine append_lt_append_of_div_mod (f := field ':') (g := field ':') (k := 60) hlt
    (by simp [length_field]) (fun hlt ↦ field_lt_field hlt (by omega))
    fun hlt ↦ field_lt_field hlt (by omega)

/-- The shape of a fraction that is not zero: the digits that are shown, and zeros for the rest. -/
theorem fractionText_eq {n : ℕ} (h : n ≠ 0) : ∃ shown hidden, shown + hidden = 9 ∧ 10 ^ hidden ∣ n ∧
    fractionText n = '.' :: (decimal shown (n / 10 ^ hidden) ++ '+' :: "00:00".toList) := by
  rw [fractionText, if_neg h]
  by_cases hmillis : 10 ^ 6 ∣ n
  · exact ⟨3, 6, rfl, hmillis, if_pos hmillis⟩
  rw [if_neg hmillis]
  by_cases hmicros : 10 ^ 3 ∣ n
  · exact ⟨6, 3, rfl, hmicros, if_pos hmicros⟩
  rw [if_neg hmicros]
  exact ⟨9, 0, rfl, one_dvd n, by rw [pow_zero, Nat.div_one]; rfl⟩

/-- **The fractions of a second**, whatever their lengths. -/
theorem fractionText_lt {a b : ℕ} (hab : a < b) (hb : b < 10 ^ 9) :
    fractionText a < fractionText b := by
  obtain ⟨shown', hidden', hwidth', hdvd', hb'⟩ := fractionText_eq (Nat.ne_zero_of_lt hab)
  rw [hb']
  by_cases ha : a = 0
  · rw [fractionText, if_pos ha]
    exact cons_lt_cons_iff.2 (Or.inl (by decide))
  · obtain ⟨shown, hidden, hwidth, hdvd, ha'⟩ := fractionText_eq ha
    rw [ha']
    refine cons_lt_cons_iff.2 (Or.inr ⟨rfl, ?_⟩)
    refine fraction_lt_fraction (hwidth.trans hwidth'.symm) hdvd hdvd' hab (hwidth ▸ hb) ?_
    decide

theorem day_lt {t : ℕ} (h : t < endOfYears) : t / 10 ^ 9 / 86400 < daysBefore 10000 :=
  have hdiv : ∀ n, t < n * 86400 * 10 ^ 9 → t / 10 ^ 9 / 86400 < n := by omega
  hdiv _ h

/-- **A later instant has a greater text.** -/
theorem timestampText_lt {a b : ℕ} (hab : a < b) (hb : b < endOfYears) :
    timestampText a < timestampText b := by
  have hnanos : b % 10 ^ 9 < 10 ^ 9 := Nat.mod_lt b (Nat.pow_pos (by decide))
  refine append_lt_append_of_div_mod (f := fun s ↦ dateText (s / 86400) ++ timeText (s % 86400))
    (g := fractionText) (k := 10 ^ 9) hab (by simp [length_dateText, length_timeText])
    (fun hlt ↦ ?_)
    fun hlt ↦ fractionText_lt hlt hnanos
  exact append_lt_append_of_div_mod hlt (by rw [length_dateText, length_dateText])
    (fun hlt ↦ dateText_lt hlt (day_lt hb)) fun hlt ↦ timeText_lt hlt (Nat.mod_lt _ (by decide))

/-! ## Their bytes

SQLite compares `TEXT` columns with the collation `BINARY`, which is `memcmp` on the encoding of the
text. -/

/-- Characters of one byte. -/
def Ascii (l : List Char) : Prop := ∀ c ∈ l, c.toNat < 128

theorem Ascii.append {l m : List Char} (hl : Ascii l) (hm : Ascii m) : Ascii (l ++ m) :=
  fun c hc ↦ (mem_append.1 hc).elim (hl c) (hm c)

theorem Ascii.cons {c : Char} {l : List Char} (hc : c.toNat < 128) (hl : Ascii l) :
    Ascii (c :: l) :=
  forall_mem_cons.2 ⟨hc, hl⟩

theorem ascii_decimal (width n : ℕ) : Ascii (decimal width n) := by
  induction width generalizing n with
  | zero => exact fun c hc ↦ absurd hc not_mem_nil
  | succ width ih =>
    have hdigit : ∀ d < 10, (Nat.digitChar d).toNat < 128 := by decide
    exact (ih _).append (.cons (hdigit _ (Nat.mod_lt n (by decide))) fun c hc ↦
      absurd hc not_mem_nil)

theorem ascii_fractionText (n : ℕ) : Ascii (fractionText n) := by
  have hoffset : Ascii "+00:00".toList := by simp [Ascii]
  rw [fractionText]
  split
  · exact hoffset
  split
  · exact .cons (by decide) ((ascii_decimal _ _).append hoffset)
  split
  all_goals exact .cons (by decide) ((ascii_decimal _ _).append hoffset)

/-- Every character of a timestamp is one byte. -/
theorem ascii_timestampText (t : ℕ) : Ascii (timestampText t) := by
  have hfield : ∀ mark n, mark.toNat < 128 → Ascii (field mark n) :=
    fun mark n hmark ↦ .cons hmark (ascii_decimal 2 n)
  refine .append (.append ?_ ?_) (ascii_fractionText _)
  · exact (ascii_decimal _ _).append ((hfield _ _ (by decide)).append (hfield _ _ (by decide)))
  · exact (hfield _ _ (by decide)).append ((hfield _ _ (by decide)).append (hfield _ _ (by decide)))

theorem utf8EncodeChar_of_ascii {c : Char} (h : c.toNat < 128) :
    (String.utf8EncodeChar c).map UInt8.toNat = [c.toNat] := by
  have hsize : c.utf8Size = 1 := Char.utf8Size_eq_one_iff.2 (UInt32.le_iff_toNat_le.2 (by
    show c.toNat ≤ 127
    omega))
  rw [String.utf8EncodeChar_eq_singleton hsize]
  simp only [map_cons, map_nil, cons.injEq, and_true]
  show c.toNat % 2 ^ 8 = c.toNat
  omega

theorem bytes_ofList {l : List Char} (h : Ascii l) : bytes (.ofList l) = l.map Char.toNat := by
  rw [bytes, String.toByteArray_ofList, List.utf8Encode, List.toList_data_toByteArray]
  induction l with
  | nil => rfl
  | cons c l ih =>
    obtain ⟨hc, hl⟩ := forall_mem_cons.1 h
    rw [flatMap_cons, map_append, utf8EncodeChar_of_ascii hc, ih hl]
    rfl

theorem bytes_toRfc3339_lt {a b : ℕ} (hab : a < b) (hb : b < endOfYears) :
    bytes (toRfc3339 a) < bytes (toRfc3339 b) := by
  rw [toRfc3339, toRfc3339, bytes_ofList (ascii_timestampText a), bytes_ofList
    (ascii_timestampText b)]
  exact List.map_lt (fun _ _ h ↦ h) (timestampText_lt hab hb)

/-- **The order of the bytes is the order in time.** -/
theorem bytes_toRfc3339_lt_iff {a b : ℕ} (ha : a < endOfYears) (hb : b < endOfYears) :
    bytes (toRfc3339 a) < bytes (toRfc3339 b) ↔ a < b := by
  refine ⟨fun h ↦ ?_, fun h ↦ bytes_toRfc3339_lt h hb⟩
  rcases lt_trichotomy a b with hlt | rfl | hlt
  · exact hlt
  · exact absurd h (lt_irrefl _)
  · exact absurd (bytes_toRfc3339_lt hlt ha) (lt_asymm h)

theorem toRfc3339_inj {a b : ℕ} (ha : a < endOfYears) (hb : b < endOfYears)
    (h : toRfc3339 a = toRfc3339 b) : a = b := by
  rcases lt_trichotomy a b with hlt | heq | hlt
  · exact absurd (h ▸ bytes_toRfc3339_lt hlt hb) (lt_irrefl _)
  · exact heq
  · exact absurd (h ▸ bytes_toRfc3339_lt hlt ha) (lt_irrefl _)

/-! ## The columns of the tables

The bus stores its clock readings as texts, and compares them as texts.  In the tables of this
development they are numbers of nanoseconds from 1970 on. -/

/-- From the beginning of year 0 to 1970, where the clock of the bus begins. -/
def unixEpoch : ℕ := 719528 * 86400 * 10 ^ 9

example : toRfc3339 (unixEpoch + 1500000000) = "1970-01-01T00:00:01.500+00:00" := by decide +kernel

/-- The bytes of a reading of the clock. -/
def Instant.bytes (t : Instant) : List ℕ := PhenoEvents.bytes (toRfc3339 (unixEpoch + t))

/-- The reading is from before the year 10000. -/
def Instant.Dated (t : Instant) : Prop := unixEpoch + t < endOfYears

theorem Instant.bytes_lt_iff {t u : Instant} (ht : t.Dated) (hu : u.Dated) :
    t.bytes < u.bytes ↔ t < u := by
  rw [bytes, bytes, bytes_toRfc3339_lt_iff ht hu]
  exact Nat.add_lt_add_iff_left

theorem Instant.bytes_le_iff {t u : Instant} (ht : t.Dated) (hu : u.Dated) :
    t.bytes ≤ u.bytes ↔ t ≤ u := by
  rw [← not_lt, bytes_lt_iff hu ht, not_lt]

namespace Database

/-- The `SELECT` of `claim_next`, comparing texts. -/
def nextDueByText (now : Instant) (tie : ℕ) (db : Database) : Option OutboxRow :=
  db.outbox.firstBy (fun r ↦ r.claimable ∧ r.nextAttemptAt.bytes ≤ now.bytes)
    (fun r ↦ r.createdAt.bytes) tie

/-- The `SELECT` of `last_seen`, comparing texts. -/
def lastSeenByText (tie : ℕ) (db : Database) : Option Uuid :=
  (db.handledEvents.firstBy (fun _ ↦ true) (fun r ↦ OrderDual.toDual r.handledAt.bytes) tie).map
    HandledRow.eventId

/-- Every reading the queries compare is from before the year 10000. -/
structure Dated (db : Database) : Prop where
  outbox : ∀ r ∈ db.outbox.rows, r.nextAttemptAt.Dated ∧ r.createdAt.Dated
  handledEvents : ∀ r ∈ db.handledEvents.rows, r.handledAt.Dated

theorem nextDueByText_eq {db : Database} (h : db.Dated) {now : Instant} (hnow : now.Dated)
    (tie : ℕ) :
    db.nextDueByText now tie = db.nextDue now tie := by
  refine KeyedTable.firstBy_congr tie (fun r hr ↦ ?_) fun r hr s hs ↦ ?_
  · exact decide_eq_decide.2 (and_congr_right fun _ ↦ Instant.bytes_le_iff (h.outbox r hr).1 hnow)
  · exact Instant.bytes_le_iff (h.outbox r hr).2 (h.outbox s hs).2

theorem lastSeenByText_eq {db : Database} (h : db.Dated) (tie : ℕ) :
    db.lastSeenByText tie = db.lastSeen tie := by
  refine congrArg (Option.map HandledRow.eventId) (KeyedTable.firstBy_congr tie (fun r _ ↦ rfl) ?_)
  intro r hr s hs
  rw [OrderDual.toDual_le_toDual, OrderDual.toDual_le_toDual]
  exact Instant.bytes_le_iff (h.handledEvents s hs) (h.handledEvents r hr)

end Database

/-- **Comparing texts is comparing instants**, in the years 0 to 9999, and so the queries of the bus
find the rows they are meant to find.  It holds although the texts have different lengths: a
fraction has three, six or nine digits, or there is none. -/
theorem text_order {a b : ℕ} (ha : a < endOfYears) (hb : b < endOfYears) {db : Database}
    (hdb : db.Dated) {now : Instant} (hnow : now.Dated) (tie : ℕ) :
    (a < b ↔ bytes (toRfc3339 a) < bytes (toRfc3339 b)) ∧ (toRfc3339 a = toRfc3339 b ↔ a = b) ∧
      db.nextDueByText now tie = db.nextDue now tie ∧ db.lastSeenByText tie = db.lastSeen tie :=
  ⟨(bytes_toRfc3339_lt_iff ha hb).symm, ⟨toRfc3339_inj ha hb, congrArg _⟩,
    Database.nextDueByText_eq hdb hnow tie, Database.lastSeenByText_eq hdb tie⟩

/-- The bound, in days. -/
theorem Instant.dated_of_lt {t : Instant} (h : unixEpoch + t < 3652425 * 86400 * 10 ^ 9) :
    t.Dated :=
  lt_of_lt_of_eq h (congrArg (· * 86400 * 10 ^ 9) daysBefore_tenThousand).symm

/-- An outbox with one event of 1970. -/
def oldOutbox : Database := Database.empty.insertEvent ⟨1⟩ "1" 1500000000

theorem dated_oldOutbox : oldOutbox.Dated where
  outbox := by
    have hall : ∀ r ∈ oldOutbox.outbox.rows,
        r.nextAttemptAt = 1500000000 ∧ r.createdAt = 1500000000 := by decide
    intro r hr
    rw [(hall r hr).1, (hall r hr).2]
    exact ⟨Instant.dated_of_lt (by decide +kernel), Instant.dated_of_lt (by decide +kernel)⟩
  handledEvents _ hr := absurd hr List.not_mem_nil

/-- `1970-01-01T00:00:01.500+00:00` and `1970-01-01T00:00:01.500000001+00:00`. -/
theorem text_order_of_fractions :
    bytes (toRfc3339 (unixEpoch + 1500000000)) < bytes (toRfc3339 (unixEpoch + 1500000001)) ∧
      oldOutbox.nextDueByText 1500000001 0 = oldOutbox.nextDue 1500000001 0 := by
  have ha : Instant.Dated 1500000000 := Instant.dated_of_lt (by decide +kernel)
  have hb : Instant.Dated 1500000001 := Instant.dated_of_lt (by decide +kernel)
  obtain ⟨horder, -, hdue, -⟩ := text_order ha hb dated_oldOutbox hb 0
  exact ⟨horder.1 (by decide), hdue⟩

end PhenoEvents
