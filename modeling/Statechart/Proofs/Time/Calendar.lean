import Mathlib.Tactic.IntervalCases
import Statechart.Time.Calendar

/-!
# Days and their numbers

Every number of a day is the number of the day that it is taken apart into (`Date.toDays_ofDays`),
and that is a day of the calendar (`Date.isValid_ofDays`). Within a cycle a day has a place: a
century, four years of it, a year of these, a day of that year (`Date.exists_place`). From the place
follows which year the quotients of `Date.ofDays` find.
-/

namespace Statechart.Date

/-! ### Years of a cycle -/

/-- The year of a cycle that has the `n`-th day of the cycle. -/
def yearOfCycle (n : Nat) : Nat := (n - n / 1460 + n / 36524 - n / 146096) / 365

/-- The days of a cycle before a year of it. -/
def daysBeforeYear (year : Nat) : Nat := 365 * year + year / 4 - year / 100

def dayOfYear (n : Nat) : Nat := n - daysBeforeYear (yearOfCycle n)

/-- **The place of a day in its cycle.** The last day of a leap year is the last of its four years,
and the last of its century only at the end of the cycle. -/
theorem exists_place {n : Nat} (h : n < 146097) :
    ∃ century four year day, century ≤ 3 ∧ four ≤ 24 ∧ year ≤ 3 ∧ day ≤ 365 ∧
      (day = 365 → year = 3 ∧ (four = 24 → century = 3)) ∧
      n = 36524 * century + 1461 * four + 365 * year + day := by
  obtain ⟨century, inCentury, hcentury, hn, hlt⟩ : ∃ century inCentury, century ≤ 3 ∧
      n = 36524 * century + inCentury ∧ inCentury < 36524 + century / 3 :=
    ⟨min (n / 36524) 3, n - 36524 * min (n / 36524) 3, by omega, by omega, by omega⟩
  have hfour := Nat.div_add_mod inCentury 1461
  obtain ⟨year, day, hyear, hday, hlast, hinFour⟩ : ∃ year day, year ≤ 3 ∧ day ≤ 365 ∧
      (day = 365 → year = 3) ∧ inCentury % 1461 = 365 * year + day :=
    ⟨min (inCentury % 1461 / 365) 3, inCentury % 1461 - 365 * min (inCentury % 1461 / 365) 3,
      by omega, by omega, by omega, by omega⟩
  exact ⟨century, inCentury / 1461, year, day, hcentury, by omega, hyear, hday, by omega, by omega⟩

theorem yearOfCycle_place {century four year day : Nat} (hcentury : century ≤ 3) (hfour : four ≤ 24)
    (hyear : year ≤ 3) (hday : day ≤ 365)
    (hlast : day = 365 → year = 3 ∧ (four = 24 → century = 3)) :
    yearOfCycle (36524 * century + 1461 * four + 365 * year + day) =
      100 * century + 4 * four + year := by
  unfold yearOfCycle
  generalize hn : 36524 * century + 1461 * four + 365 * year + day = n
  -- The last day of a cycle is counted to one century and one cycle too many.
  have hcycle : n / 36524 - n / 146096 = century := by omega
  have hcycles : n / 146096 ≤ n / 36524 := by omega
  have hquotient : n / 1460 =
      25 * century + four + (24 * century + four + 365 * year + day) / 1460 := by omega
  omega

theorem daysBeforeYear_place {century four year : Nat} (hfour : four ≤ 24) (hyear : year ≤ 3) :
    daysBeforeYear (100 * century + 4 * four + year) =
      36524 * century + 1461 * four + 365 * year := by
  unfold daysBeforeYear
  omega

/-- **The year that is found has the day**, as its last one only if there is a leap day at its end.
-/
theorem yearOfCycle_spec {n : Nat} (h : n < 146097) :
    yearOfCycle n < 400 ∧ daysBeforeYear (yearOfCycle n) + dayOfYear n = n ∧ dayOfYear n ≤ 365 ∧
      (dayOfYear n = 365 → isLeapYear (yearOfCycle n + 1) = true) := by
  obtain ⟨century, four, year, day, hcentury, hfour, hyear, hday, hlast, rfl⟩ := exists_place h
  rw [dayOfYear, yearOfCycle_place hcentury hfour hyear hday hlast,
    daysBeforeYear_place hfour hyear, Nat.add_sub_cancel_left]
  refine ⟨by omega, rfl, hday, fun hleap => ?_⟩
  have hplace := hlast hleap
  simp only [isLeapYear, Bool.and_eq_true, Bool.or_eq_true, beq_iff_eq, bne_iff_ne, ne_eq]
  omega

/-! ### Months of a year -/

/-- The months from March on, the eleventh being the February of the next year. -/
def monthOfYear (day : Nat) : Nat := (5 * day + 2) / 153

theorem monthOfYear_spec {day : Nat} (h : day ≤ 365) :
    monthOfYear day ≤ 11 ∧ daysBeforeMonth (monthOfYear day) ≤ day ∧
      5 * day + 2 < 153 * (monthOfYear day + 1) := by
  unfold monthOfYear daysBeforeMonth
  omega

theorem isLeapYear_add_cycles (cycles year : Int) :
    isLeapYear (cycles * 400 + year) = isLeapYear year := by
  have hfour : (cycles * 400 + year) % 4 = year % 4 := by omega
  have hhundred : (cycles * 400 + year) % 100 = year % 100 := by omega
  have hcycle : (cycles * 400 + year) % 400 = year % 400 := by omega
  rw [isLeapYear, isLeapYear, hfour, hhundred, hcycle]

/-- The day of a year that begins on the first of March. -/
def ofYear (year : Int) (day : Nat) : Date :=
  let month := monthOfYear day
  ⟨if month < 10 then year else year + 1, if month < 10 then month + 3 else month - 9,
    day - daysBeforeMonth month + 1⟩

theorem isValid_ofYear {year : Int} {day : Nat} (hday : day ≤ 365)
    (hleap : day = 365 → isLeapYear (year + 1) = true) : (ofYear year day).IsValid := by
  obtain ⟨hmonth, hbefore, hdays⟩ := monthOfYear_spec hday
  unfold ofYear IsValid
  generalize monthOfYear day = month at hmonth hbefore hdays ⊢
  unfold daysBeforeMonth at hbefore ⊢
  interval_cases month
  case «11» =>
    have hfebruary : daysInMonth (year + 1) 2 = if isLeapYear (year + 1) then 29 else 28 := rfl
    have hlast : day - 337 + 1 ≤ daysInMonth (year + 1) 2 := by
      rw [hfebruary]
      split
      · omega
      · have hne : day ≠ 365 := fun h => absurd (hleap h) ‹_›
        omega
    exact ⟨Nat.le_add_left 1 1, Nat.le_add_left 2 10, Nat.le_add_left 1 _, hlast⟩
  all_goals
    simp [daysInMonth]
    omega

theorem toDays_ofYear {year : Int} {day : Nat} (hday : day ≤ 365) :
    (ofYear year day).toDays = year / 400 * cycleDays +
      (year % 400 * 365 + year % 400 / 4 - year % 400 / 100 + day) - epochDays := by
  obtain ⟨hmonth, hbefore, -⟩ := monthOfYear_spec hday
  have hmarch : (if (ofYear year day).month ≤ 2 then (ofYear year day).year - 1
      else (ofYear year day).year) = year := by
    unfold ofYear
    dsimp only
    split <;> split <;> omega
  have hindex : (if (ofYear year day).month ≤ 2 then (ofYear year day).month + 9
      else (ofYear year day).month - 3) = monthOfYear day := by
    unfold ofYear
    dsimp only
    split <;> split <;> omega
  rw [toDays, hmarch, hindex]
  simp only [ofYear]
  omega

/-! ### Days -/

variable (days : Int)

/-- The place of a day in its cycle, which begins on the first of March of a year that 400 divides.
-/
def dayOfCycle : Nat := ((days + epochDays) % cycleDays).toNat

theorem dayOfCycle_lt : dayOfCycle days < 146097 := by
  unfold dayOfCycle cycleDays
  omega

theorem ofDays_eq : ofDays days =
    ofYear ((days + epochDays) / cycleDays * 400 + yearOfCycle (dayOfCycle days))
      (dayOfYear (dayOfCycle days)) := rfl

/-- **The number of a day stands for a day of the calendar.** -/
theorem isValid_ofDays : (ofDays days).IsValid := by
  obtain ⟨-, -, hday, hleap⟩ := yearOfCycle_spec (dayOfCycle_lt days)
  refine isValid_ofYear hday fun hlast => ?_
  rw [Int.add_assoc, isLeapYear_add_cycles]
  exact hleap hlast

/-- **A day has the number that it stands for.** -/
theorem toDays_ofDays : (ofDays days).toDays = days := by
  obtain ⟨hyear, hsum, hday, -⟩ := yearOfCycle_spec (dayOfCycle_lt days)
  have hcycle : (dayOfCycle days : Int) = (days + epochDays) % cycleDays := by
    unfold dayOfCycle cycleDays
    omega
  have hdays := Int.mul_ediv_add_emod (days + epochDays) cycleDays
  rw [ofDays_eq, toDays_ofYear hday]
  generalize (days + epochDays) / cycleDays = cycles at hdays ⊢
  generalize yearOfCycle (dayOfCycle days) = year at hyear hsum ⊢
  have hcycles : (cycles * 400 + (year : Int)) / 400 = cycles := by omega
  have hyears : (cycles * 400 + (year : Int)) % 400 = year := by omega
  rw [hcycles, hyears]
  unfold daysBeforeYear at hsum
  unfold cycleDays at *
  omega

end Statechart.Date
