/-! # The calendar

Dates of the Gregorian calendar carried back to year 1, and their day numbers. Day 0 is the first of
January of year 1, a Monday. -/

namespace LogStream

/-- A date: the month and the day count from one. -/
structure Date where
  year : Nat
  month : Nat
  day : Nat
deriving DecidableEq, Repr

namespace Date

def isLeap (year : Nat) : Bool := year % 4 == 0 && (year % 100 != 0 || year % 400 == 0)

/-- The lengths of the months of a year. -/
def monthLengths (year : Nat) : List Nat :=
  [31, if isLeap year then 29 else 28, 31, 30, 31, 30, 31, 31, 30, 31, 30, 31]

def monthLength (year month : Nat) : Nat := (monthLengths year).getD (month - 1) 0

/-- The days from day 0 to the first day of a year. -/
def daysBeforeYear (year : Nat) : Nat :=
  (year - 1) * 365 + (year - 1) / 4 - (year - 1) / 100 + (year - 1) / 400

/-- The days of a year before the first day of a month. -/
def daysBeforeMonth (year month : Nat) : Nat := ((monthLengths year).take (month - 1)).foldr (· + ·) 0

/-- The date exists and its year has at most four digits. -/
def isValid (d : Date) : Bool :=
  1 ≤ d.year && d.year ≤ 9999 && 1 ≤ d.month && d.month ≤ 12 && 1 ≤ d.day &&
    d.day ≤ monthLength d.year d.month

/-- The day number of a date. -/
def toDay (d : Date) : Nat := daysBeforeYear d.year + daysBeforeMonth d.year d.month + (d.day - 1)

/-- The year of a day number. -/
def yearOfDay (n : Nat) : Nat :=
  let guess := n / 366 + 1
  let steps := (n - daysBeforeYear guess) / 365 + 1
  ((List.range (steps + 1)).map (guess + ·)).foldl
    (fun y c => if daysBeforeYear c ≤ n then c else y) guess

/-- The month and the day of the month, from the lengths of the months that are left. -/
def monthDay (month n : Nat) : List Nat → Nat × Nat
  | [] => (month, n + 1)
  | len :: rest => if n < len then (month, n + 1) else monthDay (month + 1) (n - len) rest

/-- The date of a day number. -/
def ofDay (n : Nat) : Date :=
  let year := yearOfDay n
  let (month, day) := monthDay 1 (n - daysBeforeYear year) (monthLengths year)
  ⟨year, month, day⟩

/-- The day of the week, Monday being 0. -/
def weekday (d : Date) : Nat := d.toDay % 7

/-- The days of the year before a date. -/
def dayOfYear (d : Date) : Nat := daysBeforeMonth d.year d.month + (d.day - 1)

/-- The day number of the Monday of the first week of a year: that of the week with the fourth of
January. -/
def firstWeek (year : Nat) : Int :=
  let jan4 := daysBeforeYear year + 3
  (jan4 : Int) - (jan4 % 7 : Nat)

/-- The date of a week and a day of the week, the Monday being 1. -/
def ofWeek? (year week day : Nat) : Option Date :=
  if year = 0 ∨ 9999 < year ∨ week = 0 ∨ day = 0 ∨ 7 < day then none
  else
    let weeks := ((firstWeek (year + 1) - firstWeek year) / 7).toNat
    if weeks < week then none
    else
      let n := firstWeek year + ((week - 1) * 7 + (day - 1) : Nat)
      if n < 0 then none else
        let d := ofDay n.toNat
        if d.isValid then some d else none

end Date

end LogStream
