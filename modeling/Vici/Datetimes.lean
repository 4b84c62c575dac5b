import Mathlib

/-!
# Calendar instants

A `Datetime` is the written local time together with its UTC offset, both in
microseconds; a naive value has no offset. The bounds of the written time are
those of the language's calendar, years 1 to 9999. Its subtraction and its
conversion to UTC fail outside that calendar, and so do the ones here.
-/
namespace Vici.Datetimes

def second : ℤ := 1000000
def day : ℤ := 86400 * second

/-- One past the last microsecond of 9999-12-31, counted from 0001-01-01. -/
def calendarEnd : ℤ := 3652059 * day

structure Datetime where
  wall : ℤ
  utcoffset : Option ℤ
  wall_mem : 0 ≤ wall ∧ wall < calendarEnd
  utcoffset_mem : ∀ o ∈ utcoffset, -day < o ∧ o < day
  deriving DecidableEq

namespace Datetime

/-- The instant in UTC; a naive value is labelled UTC, not converted. -/
def instant (d : Datetime) : ℤ := d.wall - d.utcoffset.getD 0

/-- A UTC value, when the calendar has that instant. -/
def ofInstant (t : ℤ) : Option Datetime :=
  if h : 0 ≤ t ∧ t < calendarEnd then
    some ⟨t, some 0, h, by intro o ho; cases ho; decide⟩
  else none

/-- `d.astimezone(UTC)`; `none` is `OverflowError`. -/
def astimezoneUTC (d : Datetime) : Option Datetime := ofInstant d.instant

/-- `datetime.max.replace(tzinfo=UTC)` -/
def max : Datetime :=
  ⟨calendarEnd - 1, some 0, by decide, by intro o ho; cases ho; decide⟩

/-- `d.replace(tzinfo=UTC)` for a naive value; an aware one is left alone. -/
def labelUTC (d : Datetime) : Datetime where
  wall := d.wall
  utcoffset := some (d.utcoffset.getD 0)
  wall_mem := d.wall_mem
  utcoffset_mem := by
    intro o ho
    cases ho
    cases hoff : d.utcoffset with
    | none => decide
    | some offset => exact d.utcoffset_mem offset hoff

/-- Junk degrades to no datetime; what the parser accepts is labelled UTC if naive. -/
def coerceLlmDatetime (fromisoformat : String → Option Datetime) (value : Option String) :
    Option Datetime :=
  (value.bind fromisoformat).map labelUTC

theorem instant_ofInstant {t : ℤ} {d : Datetime} (h : ofInstant t = some d) : d.instant = t := by
  unfold ofInstant at h
  split_ifs at h
  cases h
  simp [instant]

theorem isSome_ofInstant_iff {t : ℤ} : (ofInstant t).isSome ↔ 0 ≤ t ∧ t < calendarEnd := by
  unfold ofInstant
  split_ifs with h
  · simpa using h
  · simpa using h

theorem instant_astimezoneUTC {d u : Datetime} (h : d.astimezoneUTC = some u) :
    u.instant = d.instant := instant_ofInstant h

end Datetime

end Vici.Datetimes
