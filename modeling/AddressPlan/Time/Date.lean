/-!
Dates of the Gregorian calendar, extended to years before its start. The years are bounded, so a date need
not have a next or a previous one.
-/

namespace AddressPlan.Time

def isLeapYear (year : Int) : Bool :=
  (year % 4 = 0 && year % 100 ≠ 0) || year % 400 = 0

/-- Days in a month, which is counted from one. -/
def daysIn (year : Int) (month : Nat) : Nat :=
  if month = 2 then (if isLeapYear year then 29 else 28)
  else if month = 4 || month = 6 || month = 9 || month = 11 then 30
  else 31

def firstYear : Int := -262143

def lastYear : Int := 262142

structure Date where
  year : Int
  month : Nat
  day : Nat
  year_mem : firstYear ≤ year ∧ year ≤ lastYear
  month_mem : 1 ≤ month ∧ month ≤ 12
  day_mem : 1 ≤ day ∧ day ≤ daysIn year month
  deriving DecidableEq, Repr

namespace Date

def of? (year : Int) (month day : Nat) : Option Date :=
  if h : (firstYear ≤ year ∧ year ≤ lastYear) ∧ (1 ≤ month ∧ month ≤ 12) ∧ 1 ≤ day ∧ day ≤ daysIn year month then
    some ⟨year, month, day, h.1, h.2.1, h.2.2⟩
  else none

def next? (d : Date) : Option Date :=
  (of? d.year d.month (d.day + 1)).or <| (of? d.year (d.month + 1) 1).or (of? (d.year + 1) 1 1)

def previous? (d : Date) : Option Date :=
  (of? d.year d.month (d.day - 1)).or <|
    (of? d.year (d.month - 1) (daysIn d.year (d.month - 1))).or (of? (d.year - 1) 12 31)

/-- Days in a cycle of four hundred years, after which the calendar repeats. -/
def cycleDays : Int := 146097

/-- Days from the first of March of the year zero to the first day of 1970. -/
def daysToEpoch : Int := 719468

/-- The day that comes `n` days after the first one of 1970. Years are taken to start in March, so that the day
that is not always there comes last. -/
def ofDays? (n : Int) : Option Date :=
  let cycle := (n + daysToEpoch) / cycleDays
  let d := (n + daysToEpoch) % cycleDays
  let yearOfCycle := (d - d / 1460 + d / 36524 - d / 146096) / 365
  let dayOfYear := d - (365 * yearOfCycle + yearOfCycle / 4 - yearOfCycle / 100)
  let monthFromMarch := (5 * dayOfYear + 2) / 153
  let day := dayOfYear - (153 * monthFromMarch + 2) / 5 + 1
  let month := if monthFromMarch < 10 then monthFromMarch + 3 else monthFromMarch - 9
  let year := yearOfCycle + cycle * 400 + (if month ≤ 2 then 1 else 0)
  of? year month.toNat day.toNat

end Date

end AddressPlan.Time
