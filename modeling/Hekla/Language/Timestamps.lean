import Hekla.Library.Calendar
import Hekla.Library.FixedWidth
import Hekla.Reads.Columns

/-!
# Stored timestamps

A column that holds an instant is compared as text, so that the text has as many
digits at every instant as at any other.
-/

namespace Hekla.Language

open Hekla.Library

/-- What dates an instant, and what reads a date. -/
structure Clock where
  fromUnixTimestampNanos : Int → Option DateTime
  timestamp : String → Option Int64

/-- `{:04}-{:02}-{:02}T{:02}:{:02}:{:02}.{:06}Z` -/
def timestampLayout : Layout := [(4, '-'), (2, '-'), (2, 'T'), (2, ':'), (2, ':'), (2, '.'), (6, 'Z')]

/-- Epoch microseconds as fixed-width RFC 3339 in UTC. -/
def storedTimestamp (clock : Clock) (micros : Int64) : Option String :=
  match clock.fromUnixTimestampNanos (micros.toInt * 1000) with
  | none => none
  | some at_ =>
      if 0 ≤ at_.year ∧ at_.year ≤ 9999 then some (String.ofList (spelled timestampLayout at_.fields)) else none

/-- What an RFC 3339 text of microseconds in UTC says. -/
def utcOf (text : String) : Option DateTime :=
  match scanned timestampLayout text.toList with
  | some [year, month, day, hour, minute, second, microsecond] =>
      some ⟨⟨year, month, day⟩, hour, minute, second, microsecond * 1000⟩
  | _ => none

/-- An instant is dated by the calendar. -/
def Clock.Dates (clock : Clock) (micros : Int64) : Prop :=
  ∃ at_, clock.fromUnixTimestampNanos (micros.toInt * 1000) = some at_ ∧ at_.Valid ∧
    at_.unixNanos = micros.toInt * 1000

/-- A text that says when is read as that instant. -/
def Clock.Reads (clock : Clock) : Prop :=
  ∀ text at_ micros, utcOf text = some at_ → at_.Valid → at_.unixNanos = Int64.toInt micros * 1000 →
    clock.timestamp text = some micros

/-- The years 0 to 9999. -/
def InYears (micros : Int64) : Prop :=
  (DateTime.yearStart 0).unixNanos ≤ micros.toInt * 1000 ∧
    micros.toInt * 1000 < (DateTime.yearStart 10000).unixNanos

instance (micros : Int64) : Decidable (InYears micros) := inferInstanceAs (Decidable (_ ∧ _))

variable {clock : Clock} {micros : Int64} {time : DateTime}

theorem year_of_inYears (valid : time.Valid) (nanos : time.unixNanos = micros.toInt * 1000)
    (inYears : InYears micros) : 0 ≤ time.year ∧ time.year ≤ 9999 := by
  obtain ⟨lower, upper⟩ := inYears
  rw [← nanos] at lower upper
  have first := (DateTime.yearStart_le_iff valid 0).mp lower
  have last := mt (DateTime.yearStart_le_iff valid 10000).mpr (Int.not_le.mpr upper)
  omega

theorem daysInMonth_le (year : Int) (month : Nat) : daysInMonth year month ≤ 31 := by
  unfold daysInMonth
  split
  any_goals decide
  split
  · decide
  · decide

/-- Every field has its width. -/
theorem fits_fields (valid : time.Valid) (year : time.year ≤ 9999) : Fits timestampLayout time.fields := by
  have month := valid.month
  have day := valid.day
  have days := daysInMonth_le time.year time.month
  have hour := valid.hour
  have minute := valid.minute
  have second := valid.second
  have nanosecond := valid.nanosecond
  unfold timestampLayout DateTime.fields DateTime.microsecond
  refine .cons (by decide) ?_ (.cons (by decide) ?_ (.cons (by decide) ?_ (.cons (by decide) ?_
    (.cons (by decide) ?_ (.cons (by decide) ?_ (.cons (by decide) ?_ .nil))))))
  all_goals omega

/-- What is stored says when. -/
theorem utcOf_spelled (valid : time.Valid) (year : 0 ≤ time.year ∧ time.year ≤ 9999)
    (whole : 1000 ∣ time.unixNanos) : utcOf (String.ofList (spelled timestampLayout time.fields)) = some time := by
  have micros : time.nanosecond / 1000 * 1000 = time.nanosecond := by
    unfold DateTime.unixNanos at whole
    omega
  unfold utcOf
  rw [String.toList_ofList, scanned_spelled (fits_fields valid year.2)]
  unfold DateTime.fields DateTime.microsecond
  dsimp only
  rw [micros, Int.toNat_of_nonneg year.1]

theorem storedTimestamp_eq (dated : clock.fromUnixTimestampNanos (micros.toInt * 1000) = some time)
    (year : 0 ≤ time.year ∧ time.year ≤ 9999) :
    storedTimestamp clock micros = some (String.ofList (spelled timestampLayout time.fields)) := by
  unfold storedTimestamp
  rw [dated]
  exact if_pos year

/-- What is stored stands in the order of the instants. -/
theorem spelled_fields_lt_iff {one other : DateTime} (valid : one.Valid) (valid' : other.Valid)
    (year : 0 ≤ one.year ∧ one.year ≤ 9999) (year' : 0 ≤ other.year ∧ other.year ≤ 9999)
    (whole : 1000 ∣ one.unixNanos) (whole' : 1000 ∣ other.unixNanos) :
    spelled timestampLayout one.fields < spelled timestampLayout other.fields ↔
      one.unixNanos < other.unixNanos := by
  rw [spelled_lt_iff (fits_fields valid year.2) (fits_fields valid' year'.2)]
  constructor
  · exact DateTime.unixNanos_lt valid valid' year.1 year'.1 whole whole'
  · intro less
    rcases lt_trichotomy one.fields other.fields with before | same | after
    · exact before
    · have read := utcOf_spelled valid year whole
      rw [same, utcOf_spelled valid' year' whole'] at read
      rw [Option.some.inj read] at less
      exact absurd less (lt_irrefl _)
    · have back := DateTime.unixNanos_lt valid' valid year'.1 year.1 whole' whole after
      exact absurd back less.asymm

/-- Stored timestamps stand in the order of their instants, and are read back as they were. -/
theorem stored_timestamps_ordered (clock : Clock) (reads : clock.Reads) (one other : Int64)
    (dated : clock.Dates one) (dated' : clock.Dates other) (inYears : InYears one) (inYears' : InYears other) :
    ∃ text text', storedTimestamp clock one = some text ∧ storedTimestamp clock other = some text' ∧
      (text < text' ↔ one < other) ∧ clock.timestamp text = some one ∧ clock.timestamp text' = some other := by
  obtain ⟨time, found, valid, nanos⟩ := dated
  obtain ⟨time', found', valid', nanos'⟩ := dated'
  have year := year_of_inYears valid nanos inYears
  have year' := year_of_inYears valid' nanos' inYears'
  have whole : 1000 ∣ time.unixNanos := by
    rw [nanos]
    exact Int.dvd_mul_left _ _
  have whole' : 1000 ∣ time'.unixNanos := by
    rw [nanos']
    exact Int.dvd_mul_left _ _
  refine ⟨_, _, storedTimestamp_eq found year, storedTimestamp_eq found' year', ?_,
    reads _ time one (utcOf_spelled valid year whole) valid nanos,
    reads _ time' other (utcOf_spelled valid' year' whole') valid' nanos'⟩
  rw [String.lt_iff, String.toList_ofList, String.toList_ofList,
    spelled_fields_lt_iff valid valid' year year' whole whole', nanos, nanos', Int64.lt_iff_toInt_lt]
  omega

/-! ## The spellings of a column -/

/-- Epoch microseconds as RFC 3339, with the format for a date. -/
def rfc3339 (clock : Clock) (format : DateTime → Option String) (micros : Int64) : Option String :=
  (clock.fromUnixTimestampNanos (micros.toInt * 1000)).bind format

/-- Instants as a clock dates them, and documents. -/
def Clock.spelling (clock : Clock) (format : DateTime → Option String) (jsonText : Host.Json → String)
    (jsonOf : String → Option Host.Json) : Reads.Spelling where
  timestamp := clock.timestamp
  rfc3339 := rfc3339 clock format
  storedTimestamp := storedTimestamp clock
  jsonText
  jsonOf

/-- What is stored of an instant is read as that instant, and so is what is served of it; each
is spelled in the same years. -/
theorem Clock.spelling_lawful {format : DateTime → Option String} {jsonText : Host.Json → String}
    {jsonOf : String → Option Host.Json} (reads : clock.Reads)
    (dated : ∀ (micros : Int64) time, clock.fromUnixTimestampNanos (micros.toInt * 1000) = some time →
      time.Valid ∧ time.unixNanos = micros.toInt * 1000)
    (years : ∀ time, (format time).isSome = true ↔ 0 ≤ time.year ∧ time.year ≤ 9999)
    (formatted : ∀ time text (micros : Int64), format time = some text →
      time.unixNanos = micros.toInt * 1000 → clock.timestamp text = some micros) :
    (clock.spelling format jsonText jsonOf).Lawful where
  stored_reads := by
    intro micros text stored
    change storedTimestamp clock micros = some text at stored
    unfold storedTimestamp at stored
    split at stored
    · cases stored
    · next time found =>
        obtain ⟨year, spelt⟩ := Option.ite_none_right_eq_some.mp stored
        cases spelt
        obtain ⟨valid, nanos⟩ := dated micros time found
        have whole : 1000 ∣ time.unixNanos := by
          rw [nanos]
          exact Int.dvd_mul_left _ _
        exact reads _ time micros (utcOf_spelled valid year whole) valid nanos
  served_reads := by
    intro micros text served
    obtain ⟨time, found, spelt⟩ := Option.bind_eq_some_iff.mp served
    exact formatted time text micros spelt (dated micros time found).2
  same_range := by
    intro micros
    change (rfc3339 clock format micros).isSome = (storedTimestamp clock micros).isSome
    unfold rfc3339 storedTimestamp
    cases clock.fromUnixTimestampNanos (micros.toInt * 1000) with
    | none => rfl
    | some time =>
        rw [Option.bind_some, Bool.eq_iff_iff, years time]
        dsimp only
        split
        · next year => exact ⟨fun _ => rfl, fun _ => year⟩
        · next apart => exact ⟨fun year => absurd year apart, fun never => by cases never⟩

/-! ## The last half second before the epoch -/

/-- Half a second before the epoch, and the epoch. -/
def halfBefore : DateTime := ⟨⟨1969, 12, 31⟩, 23, 59, 59, 500000000⟩

instance (time : DateTime) : Decidable time.Valid :=
  decidable_of_iff (time.toDate.Valid ∧ time.hour < 24 ∧ time.minute < 60 ∧ time.second < 60 ∧
    time.nanosecond < 1000000000)
    ⟨fun ⟨date, hour, minute, second, nanosecond⟩ => ⟨date, hour, minute, second, nanosecond⟩,
      fun valid => ⟨valid.toValid, valid.hour, valid.minute, valid.second, valid.nanosecond⟩⟩

/-- A clock that dates two instants. -/
def turnOfSeventy : Clock where
  fromUnixTimestampNanos nanos :=
    if nanos = -500000000 then some halfBefore
    else if nanos = 0 then some (.yearStart 1970) else none
  timestamp text := (utcOf text).map fun time => Int64.ofInt (time.unixNanos / 1000)

theorem turnOfSeventy_reads : turnOfSeventy.Reads := by
  intro text time micros said _ nanos
  change (utcOf text).map _ = _
  rw [said, Option.map_some, nanos, Int.mul_ediv_cancel _ (by decide), Int64.ofInt_toInt]

theorem turnOfSeventy_ordered :
    ∃ text text', storedTimestamp turnOfSeventy (-500000) = some text ∧
      storedTimestamp turnOfSeventy 0 = some text' ∧ (text < text' ↔ (-500000 : Int64) < 0) ∧
      turnOfSeventy.timestamp text = some (-500000) ∧ turnOfSeventy.timestamp text' = some 0 :=
  stored_timestamps_ordered turnOfSeventy turnOfSeventy_reads (-500000) 0
    ⟨halfBefore, rfl, by decide, by decide⟩ ⟨.yearStart 1970, rfl, by decide, by decide⟩ (by decide) (by decide)

end Hekla.Language
