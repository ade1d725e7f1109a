import LogStream.Text.Numeral
import LogStream.Number.Double
import LogStream.Time.Calendar

/-! # Times and durations

A time is a reading of the wall clock with microseconds, with or without an offset from UTC; without
one it counts as UTC. Its instant is the number of microseconds since the start of 1970 in UTC. A
duration is a number of microseconds within a little more than 999999999 days either way. -/

namespace LogStream

/-- Microseconds in a second. -/
def microsPerSecond : Nat := 1000000

/-- Microseconds in a day. -/
def microsPerDay : Nat := 86400 * microsPerSecond

/-! ### Durations -/

/-- A length of time in microseconds. -/
structure Duration where
  micros : Int
  inRange : -999999999 * (microsPerDay : Int) ≤ micros ∧ micros < 1000000000 * (microsPerDay : Int)
deriving DecidableEq

namespace Duration

instance : Inhabited Duration := ⟨⟨0, by decide⟩⟩

/-- The duration of a number of microseconds, if it is in range. -/
def ofMicros? (n : Int) : Option Duration :=
  if h : -999999999 * (microsPerDay : Int) ≤ n ∧ n < 1000000000 * (microsPerDay : Int) then
    some ⟨n, h⟩
  else none

def zero : Duration := ⟨0, by decide⟩

def add? (a b : Duration) : Option Duration := ofMicros? (a.micros + b.micros)

def sub? (a b : Duration) : Option Duration := ofMicros? (a.micros - b.micros)

def neg? (a : Duration) : Option Duration := ofMicros? (-a.micros)

/-- The length in seconds, rounded once. -/
def seconds (d : Duration) : Double :=
  Double.ofRatio (d.micros < 0) d.micros.natAbs microsPerSecond

/-- A quotient of an integer rounded to the nearest whole number, a half to the even one. -/
def roundHalfEven (num : Int) (den : Nat) : Int :=
  let q := Double.divHalfEven num.natAbs den
  if num < 0 then -(q : Int) else q

/-- The microseconds of a finite number of seconds: whole seconds are exact, the rest is scaled as a
double and rounded together with them. -/
def microsOfSeconds (x : Double) : Int :=
  let (whole, rest) := x.split
  let scaled := Double.mul (Double.ofInt microsPerSecond) rest
  roundHalfEven (whole.truncate * microsPerSecond * Double.one + scaled.units) Double.one

/-- The duration of a number of seconds, if it is finite and in range. -/
def ofSeconds? (x : Double) : Option Duration :=
  if x.isFinite then ofMicros? (microsOfSeconds x) else none

end Duration

/-! ### Times -/

/-- The first microsecond behind year 9999, counted from the start of year 1. -/
def wallLimit : Nat := 3652059 * microsPerDay

/-- The microseconds from the start of year 1 to the start of 1970. -/
def epochWall : Nat := 719162 * microsPerDay

/-- A reading of the wall clock in the years 1 to 9999, in microseconds since the start of year 1, and
the offset from UTC in minutes east. -/
structure Time where
  wall : Fin wallLimit
  offset : Option Int
deriving DecidableEq

namespace Time

/-- The instant of a time. -/
def instant (t : Time) : Int :=
  (t.wall.val : Int) - t.offset.getD 0 * (60 * microsPerSecond) - epochWall

/-- The time of a wall clock reading. -/
def ofWall? (wall : Int) (offset : Option Int) : Option Time :=
  if h : wall.toNat < wallLimit then if 0 ≤ wall then some ⟨⟨wall.toNat, h⟩, offset⟩ else none
  else none

/-- The time in UTC of an instant, if it lies in the years 1 to 9999. -/
def ofInstant? (i : Int) : Option Time := ofWall? (i + epochWall) (some 0)

/-- The time in UTC of a finite number of seconds since the start of 1970: the part behind the point is
scaled as a double and rounded, a half to the even microsecond. -/
def ofSeconds? (x : Double) : Option Time :=
  if x.isFinite then
    let (whole, rest) := x.split
    let scaled := Double.mul rest (Double.ofInt microsPerSecond)
    ofInstant? (whole.truncate * microsPerSecond + Duration.roundHalfEven scaled.units Double.one)
  else none

/-- The time in UTC of the same instant. -/
def toUtc? (t : Time) : Option Time := ofInstant? t.instant

/-- The start of 1970 in UTC. -/
def epoch : Time := ⟨⟨epochWall, by decide⟩, some 0⟩

/-- The time of a date and a time of day. -/
def ofFields? (date : Date) (hour minute second micro : Nat) (offset : Option Int) : Option Time :=
  if date.isValid && hour < 24 && minute < 60 && second < 60 && micro < microsPerSecond then
    ofWall? ((((date.toDay * 24 + hour) * 60 + minute) * 60 + second) * microsPerSecond + micro : Nat)
      offset
  else none

/-- The start of year 1, which marks a time that was never set. -/
def isZero (t : Time) : Bool := t.wall.val == 0 && t.offset.isNone ||
  t.offset.isSome && t.instant == -(epochWall : Int)

def date (t : Time) : Date := Date.ofDay (t.wall.val / microsPerDay)

/-- The seconds since midnight. -/
def secondOfDay (t : Time) : Nat := t.wall.val / microsPerSecond % 86400

def hour (t : Time) : Nat := t.secondOfDay / 3600

def minute (t : Time) : Nat := t.secondOfDay / 60 % 60

def second (t : Time) : Nat := t.secondOfDay % 60

def micro (t : Time) : Nat := t.wall.val % microsPerSecond

/-- A time later by a duration, on the same wall clock. -/
def add? (t : Time) (d : Duration) : Option Time := ofWall? (t.wall.val + d.micros) t.offset

/-- A time earlier by a duration, on the same wall clock. -/
def sub? (t : Time) (d : Duration) : Option Time := ofWall? (t.wall.val - d.micros) t.offset

/-- The duration from one time to another. -/
def since? (t u : Time) : Option Duration := Duration.ofMicros? (t.instant - u.instant)

/-- Order by instant. -/
def compare (t u : Time) : Ordering := Ord.compare t.instant u.instant

/-! ### Text -/

/-- A number padded with zeros. -/
def padded (width n : Nat) : Text := Text.padLeft (CodePoint.ofChar '0') width (Text.ofNat n)

/-- Microseconds behind a point, or nothing where there are none. -/
def fractionText (micro : Nat) : Text :=
  if micro = 0 then [] else CodePoint.ofChar '.' :: padded 6 micro

def dateText (d : Date) : Text :=
  padded 4 d.year ++ Text.lit "-" ++ padded 2 d.month ++ Text.lit "-" ++ padded 2 d.day

def clockText (t : Time) : Text :=
  padded 2 t.hour ++ Text.lit ":" ++ padded 2 t.minute ++ Text.lit ":" ++ padded 2 t.second ++
    fractionText t.micro

/-- An offset with its sign, hours and minutes. -/
def offsetText : Option Int → Text
  | none => []
  | some m =>
    Text.lit (if m < 0 then "-" else "+") ++ padded 2 (m.natAbs / 60) ++ Text.lit ":" ++
      padded 2 (m.natAbs % 60)

/-- The time in ISO form with a text between date and clock. -/
def isoWith (sep : String) (t : Time) : Text :=
  dateText t.date ++ Text.lit sep ++ t.clockText ++ offsetText t.offset

/-- The time in ISO form. -/
def iso (t : Time) : Text := isoWith "T" t

end Time

end LogStream
