/-! # Calendar dates

Dates of the Gregorian calendar, extended backwards and with a year zero, and
their numbering by days since 1970-01-01. Years are taken from March to
February, so that the leap day is the last of its year and every cycle of 4, 100
or 400 years splits evenly from the front.
-/
namespace DocumentPipeline

structure Date where
  year : Int
  month : Nat
  day : Nat
  deriving DecidableEq, Inhabited

namespace Date

def isLeapYear (year : Int) : Bool :=
  year % 4 = 0 && (year % 100 ≠ 0 || year % 400 = 0)

/-- Length of a month. -/
def daysIn (year : Int) (month : Nat) : Nat :=
  match month with
  | 2 => if isLeapYear year then 29 else 28
  | 4 | 6 | 9 | 11 => 30
  | _ => 31

/-- Whether the date stands in the calendar. -/
def IsValid (d : Date) : Prop :=
  1 ≤ d.month ∧ d.month ≤ 12 ∧ 1 ≤ d.day ∧ d.day ≤ daysIn d.year d.month

instance (d : Date) : Decidable d.IsValid :=
  inferInstanceAs (Decidable (_ ∧ _ ∧ _ ∧ _))

/-- Days from 0000-03-01 to 1970-01-01. -/
def epochOffset : Int := 719468

/-- Days from 1970-01-01 to a date. -/
def dayNumber (d : Date) : Int :=
  let marchYear := if d.month ≤ 2 then d.year - 1 else d.year
  let marchMonth := if d.month ≤ 2 then d.month + 9 else d.month - 3
  365 * marchYear + marchYear / 4 - marchYear / 100 + marchYear / 400 +
    ((153 * marchMonth + 2) / 5 + d.day - 1 : Nat) - epochOffset

/-- The date of a day counted from 1970-01-01. -/
def ofDayNumber (n : Int) : Date :=
  let days := n + epochOffset
  let cycle := days / 146097
  let inCycle := (days % 146097).toNat
  let century := min (inCycle / 36524) 3
  let inCentury := inCycle - century * 36524
  let quad := inCentury / 1461
  let inQuad := inCentury - quad * 1461
  let single := min (inQuad / 365) 3
  let dayOfYear := inQuad - single * 365
  let marchYear : Int := cycle * 400 + (century * 100 + quad * 4 + single : Nat)
  let marchMonth := (5 * dayOfYear + 2) / 153
  let day := dayOfYear - (153 * marchMonth + 2) / 5 + 1
  if marchMonth < 10 then ⟨marchYear, marchMonth + 3, day⟩
  else ⟨marchYear + 1, marchMonth - 9, day⟩

end Date

end DocumentPipeline
