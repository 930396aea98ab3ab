import Mathlib.Data.Int.Basic
import Mathlib.Data.List.Lex

/-!
# The calendar

Days and the instants within them are numbered in the order of their dates, years
first.  The calendar is the Gregorian one, carried on to every year before it and
after.
-/

namespace Hekla.Library

def isLeap (year : Int) : Bool := year % 4 = 0 ∧ (year % 100 ≠ 0 ∨ year % 400 = 0)

def daysInMonth (year : Int) : Nat → Nat
  | 1 | 3 | 5 | 7 | 8 | 10 | 12 => 31
  | 4 | 6 | 9 | 11 => 30
  | 2 => if isLeap year then 29 else 28
  | _ => 0

/-- The days of a year before a month of it. -/
def daysBeforeMonth (year : Int) : Nat → Nat
  | 0 => 0
  | month + 1 => daysBeforeMonth year month + daysInMonth year month

/-- The days from the first of the year 0 to that of a year. -/
def daysBeforeYear (year : Int) : Int :=
  365 * year + (year + 3) / 4 - (year + 99) / 100 + (year + 399) / 400

@[ext]
structure Date where
  year : Int
  month : Nat
  day : Nat
  deriving DecidableEq

namespace Date

/-- A date that there is. -/
structure Valid (date : Date) : Prop where
  month : 1 ≤ date.month ∧ date.month ≤ 12
  day : 1 ≤ date.day ∧ date.day ≤ daysInMonth date.year date.month

instance (date : Date) : Decidable date.Valid :=
  decidable_of_iff ((1 ≤ date.month ∧ date.month ≤ 12) ∧ 1 ≤ date.day ∧ date.day ≤ daysInMonth date.year date.month)
    ⟨fun ⟨month, day⟩ => ⟨month, day⟩, fun valid => ⟨valid.month, valid.day⟩⟩

def number (date : Date) : Int :=
  daysBeforeYear date.year + daysBeforeMonth date.year date.month + (date.day - 1)

/-- Years first, then months. -/
def Before (one other : Date) : Prop :=
  one.year < other.year ∨ one.year = other.year ∧
    (one.month < other.month ∨ one.month = other.month ∧ one.day < other.day)

theorem daysBeforeMonth_mono (year : Int) {month later : Nat} (le : month ≤ later) :
    daysBeforeMonth year month ≤ daysBeforeMonth year later := by
  induction le with
  | refl => exact le_rfl
  | step _ ih => exact ih.trans (Nat.le_add_right _ _)

/-- A year is as long as its months are. -/
theorem daysBeforeMonth_end (year : Int) :
    (daysBeforeMonth year 13 : Int) = daysBeforeYear (year + 1) - daysBeforeYear year := by
  have months : daysBeforeMonth year 13 = 337 + daysInMonth year 2 := by
    simp only [daysBeforeMonth, daysInMonth]
    omega
  have february : daysInMonth year 2 = if isLeap year then 29 else 28 := rfl
  rw [months, february]
  unfold isLeap daysBeforeYear
  by_cases leap : year % 4 = 0 ∧ (year % 100 ≠ 0 ∨ year % 400 = 0)
  · rw [if_pos (decide_eq_true leap)]
    omega
  · rw [if_neg (by simpa using leap)]
    omega

theorem daysBeforeYear_mono {year later : Int} (le : year ≤ later) :
    daysBeforeYear year ≤ daysBeforeYear later := by
  unfold daysBeforeYear
  omega

variable {one other : Date}

/-- A date comes before the month after its own. -/
theorem number_lt_month (valid : one.Valid) :
    one.number < daysBeforeYear one.year + daysBeforeMonth one.year (one.month + 1) := by
  unfold number
  rw [daysBeforeMonth]
  have day := valid.day
  omega

theorem number_lt_year (valid : one.Valid) : one.number < daysBeforeYear (one.year + 1) := by
  have below := number_lt_month valid
  have within : daysBeforeMonth one.year (one.month + 1) ≤ daysBeforeMonth one.year 13 :=
    daysBeforeMonth_mono one.year (Nat.succ_le_succ valid.month.2)
  have length := daysBeforeMonth_end one.year
  omega

theorem daysBeforeYear_le (valid : one.Valid) : daysBeforeYear one.year ≤ one.number := by
  unfold number
  have day := valid.day
  omega

/-- Dates are numbered in their order. -/
theorem number_lt (valid : one.Valid) (valid' : other.Valid) (before : one.Before other) :
    one.number < other.number := by
  rcases before with year | ⟨year, month | ⟨month, day⟩⟩
  · calc one.number < daysBeforeYear (one.year + 1) := number_lt_year valid
      _ ≤ daysBeforeYear other.year := daysBeforeYear_mono year
      _ ≤ other.number := daysBeforeYear_le valid'
  · have below := number_lt_month valid
    have months : daysBeforeMonth one.year (one.month + 1) ≤ daysBeforeMonth one.year other.month :=
      daysBeforeMonth_mono one.year month
    have day := valid'.day
    unfold number at below ⊢
    rw [← year]
    omega
  · unfold number
    rw [year, month]
    omega

end Date

/-! ## Instants -/

/-- A time of a day, in the zone that days are counted in. -/
structure DateTime extends Date where
  hour : Nat
  minute : Nat
  second : Nat
  nanosecond : Nat
  deriving DecidableEq

namespace DateTime

structure Valid (time : DateTime) : Prop extends Date.Valid time.toDate where
  hour : time.hour < 24
  minute : time.minute < 60
  second : time.second < 60
  nanosecond : time.nanosecond < 1000000000

/-- The number of the first of January 1970. -/
def epoch : Int := 719528

/-- Nanoseconds since the epoch. -/
def unixNanos (time : DateTime) : Int :=
  ((((time.number - epoch) * 24 + time.hour) * 60 + time.minute) * 60 + time.second) * 1000000000 + time.nanosecond

def microsecond (time : DateTime) : Nat := time.nanosecond / 1000

/-- What an instant is spelled of, where its year is not before the year 0. -/
def fields (time : DateTime) : List Nat :=
  [time.year.toNat, time.month, time.day, time.hour, time.minute, time.second, time.microsecond]

variable {one other : DateTime}

/-- Instants are numbered in the order of their fields. -/
theorem unixNanos_lt (valid : one.Valid) (valid' : other.Valid) (year : 0 ≤ one.year) (year' : 0 ≤ other.year)
    (whole : 1000 ∣ one.unixNanos) (whole' : 1000 ∣ other.unixNanos) (less : one.fields < other.fields) :
    one.unixNanos < other.unixNanos := by
  have bounds := And.intro valid.hour (And.intro valid.minute (And.intro valid.second valid.nanosecond))
  have bounds' := And.intro valid'.hour (And.intro valid'.minute (And.intro valid'.second valid'.nanosecond))
  unfold fields microsecond at less
  simp only [List.cons_lt_cons_iff, List.not_lt_nil, and_false, or_false] at less
  have dated (before : one.Before other.toDate) : one.unixNanos < other.unixNanos := by
    have days := Date.number_lt valid.toValid valid'.toValid before
    unfold unixNanos
    omega
  rcases less with less | ⟨sameYear, less | ⟨sameMonth, less | ⟨sameDay, less⟩⟩⟩
  · exact dated (.inl (by omega))
  · exact dated (.inr ⟨by omega, .inl less⟩)
  · exact dated (.inr ⟨by omega, .inr ⟨sameMonth, less⟩⟩)
  · have same : one.toDate = other.toDate := by
      have sameYear' : one.year = other.year := by omega
      exact Date.ext sameYear' sameMonth sameDay
    unfold unixNanos at whole whole' ⊢
    rw [same] at whole ⊢
    omega

/-- The first instant of a year. -/
def yearStart (year : Int) : DateTime := ⟨⟨year, 1, 1⟩, 0, 0, 0, 0⟩

/-- An instant is of a year or a later one where it is no earlier than the year's start. -/
theorem yearStart_le_iff (valid : one.Valid) (year : Int) :
    (yearStart year).unixNanos ≤ one.unixNanos ↔ year ≤ one.year := by
  have bounds := And.intro valid.hour (And.intro valid.minute (And.intro valid.second valid.nanosecond))
  have start : (yearStart year).number = daysBeforeYear year := by
    change daysBeforeYear year + (0 : Nat) + ((1 : Nat) - 1) = daysBeforeYear year
    omega
  have nanos : (yearStart year).unixNanos = (daysBeforeYear year - epoch) * 86400000000000 := by
    unfold unixNanos
    rw [start]
    change ((((daysBeforeYear year - epoch) * 24 + (0 : Nat)) * 60 + (0 : Nat)) * 60 + (0 : Nat)) * 1000000000 +
      (0 : Nat) = _
    omega
  rw [nanos]
  constructor
  · intro from_
    by_contra earlier
    have below := Date.number_lt_year valid.toValid
    have years : daysBeforeYear (one.year + 1) ≤ daysBeforeYear year := Date.daysBeforeYear_mono (by omega)
    unfold unixNanos at from_
    omega
  · intro later
    have above := Date.daysBeforeYear_le valid.toValid
    have years := Date.daysBeforeYear_mono later
    unfold unixNanos
    omega

end DateTime

end Hekla.Library
