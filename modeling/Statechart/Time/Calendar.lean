/-!
# Calendar days

Days of the Gregorian calendar, counted from the first of January 1970. Years are counted from
March, so that a leap day is the last day of its year, and 400 of them make a cycle of a fixed
number of days.
-/

namespace Statechart

/-- A day of the calendar. -/
structure Date where
  year : Int
  month : Nat
  day : Nat
  deriving DecidableEq

namespace Date

def isLeapYear (year : Int) : Bool := year % 4 == 0 && (year % 100 != 0 || year % 400 == 0)

def daysInMonth (year : Int) (month : Nat) : Nat :=
  if month = 2 then (if isLeapYear year then 29 else 28)
  else if month = 4 ∨ month = 6 ∨ month = 9 ∨ month = 11 then 30
  else 31

/-- Whether there is such a day. -/
def IsValid (d : Date) : Prop :=
  1 ≤ d.month ∧ d.month ≤ 12 ∧ 1 ≤ d.day ∧ d.day ≤ daysInMonth d.year d.month

instance (d : Date) : Decidable d.IsValid := inferInstanceAs (Decidable (_ ∧ _))

/-- Days in a cycle of 400 years. -/
def cycleDays : Int := 146097

/-- Days from the first of March of year zero to the first of January 1970. -/
def epochDays : Int := 719468

/-- Days from the first of March to the first day of the `m`-th month after it. -/
def daysBeforeMonth (m : Nat) : Nat := (153 * m + 2) / 5

/-- The day as a number of days since the first of January 1970. -/
def toDays (d : Date) : Int :=
  let year : Int := if d.month ≤ 2 then d.year - 1 else d.year
  let month := if d.month ≤ 2 then d.month + 9 else d.month - 3
  let inCycle := year % 400
  let dayOfYear := (daysBeforeMonth month : Int) + d.day - 1
  year / 400 * cycleDays + (inCycle * 365 + inCycle / 4 - inCycle / 100 + dayOfYear) - epochDays

/-- The day with the given number. -/
def ofDays (days : Int) : Date :=
  let shifted := days + epochDays
  let dayOfCycle := (shifted % cycleDays).toNat
  let inCycle :=
    (dayOfCycle - dayOfCycle / 1460 + dayOfCycle / 36524 - dayOfCycle / 146096) / 365
  let dayOfYear := dayOfCycle - (365 * inCycle + inCycle / 4 - inCycle / 100)
  let month := (5 * dayOfYear + 2) / 153
  let year := shifted / cycleDays * 400 + inCycle
  { year := if month < 10 then year else year + 1
    month := if month < 10 then month + 3 else month - 9
    day := dayOfYear - daysBeforeMonth month + 1 }

end Date

end Statechart
