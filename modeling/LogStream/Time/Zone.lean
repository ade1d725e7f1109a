import LogStream.Fault
import LogStream.Time.Basic

/-! # Zones

A zone is an offset from UTC in minutes east. It is named `UTC`, or written as a sign, hours, a colon
and minutes. -/

namespace LogStream.Zone

/-- Why a name is no zone. -/
inductive ReadError
  | unknown
  | fault (f : Fault)
deriving DecidableEq, Repr

/-- The minutes of a day, which an offset has to stay below. -/
def minutesPerDay : Nat := 1440

/-- The offset of hours and minutes behind a sign. -/
def offset (negative : Bool) (hours minutes : Int) : Except Fault Int :=
  let total := hours * 60 + minutes
  match Duration.ofMicros? (total * (60 * microsPerSecond : Nat)) with
  | none => .error .overflow
  | some d =>
    match if negative then d.neg? else some d with
    | none => .error .overflow
    | some _ =>
      if total.natAbs < minutesPerDay then .ok (if negative then -total else total)
      else .error .badValue

/-- Reads the hours and the minutes behind a sign. -/
def readOffset (negative : Bool) (t : Text) : Except Fault Int :=
  let hours := t.takeWhile (!·.is ':')
  match Text.readInt? hours, Text.readInt? (t.drop (hours.length + 1)) with
  | some h, some m => offset negative h m
  | _, _ => .error .badValue

/-- Reads the name of a zone. -/
def read (name : Text) : Except ReadError Int :=
  match name with
  | [] => .error .unknown
  | c :: r =>
    if c.isIn "+-" && r.any (·.is ':') then
      match readOffset (c.is '-') r with
      | .ok minutes => .ok minutes
      | .error f => .error (.fault f)
    else if name = Text.lit "UTC" then .ok 0
    else .error .unknown

end LogStream.Zone

namespace LogStream.Time

/-- The same instant on the wall clock of a zone, by way of UTC. -/
def inZone? (t : Time) (minutes : Int) : Option Time :=
  t.toUtc?.bind fun u => ofWall? (u.wall.val + minutes * (60 * microsPerSecond : Nat)) (some minutes)

/-- A time in UTC in ISO form with the letter Z for the zone. -/
def isoUtc? (t : Time) : Option Text :=
  t.toUtc?.map fun u => iso { u with offset := none } ++ Text.lit "Z"

end LogStream.Time
