import LogStream.Number.Decimal
import LogStream.Text.Search
import LogStream.Time.Basic

/-! # Durations as text

A duration is written in seconds with six digits. It is read as a sign and a sum of parts, each a decimal
number with a unit; the number zero needs no unit. The sum is computed in doubles, from left to right. -/

namespace LogStream.Duration

/-- Why a text is no duration. -/
inductive ReadError
  | malformed
  | outOfRange
deriving DecidableEq, Repr

/-- The units and their lengths in seconds; of two units that begin alike the longer one comes first. -/
def units : List (String × Double) :=
  [("h", Double.ofInt 3600), ("ms", Double.ofRatio false 1 1000), ("m", Double.ofInt 60),
    ("s", Double.ofInt 1), ("us", Double.ofRatio false 1 1000000),
    ("µs", Double.ofRatio false 1 1000000), ("ns", Double.ofRatio false 1 1000000000)]

/-- The decimal number at the front of a text, and the rest: digits with an optional fraction, or a
fraction alone. -/
def takeNumber? (t : Text) : Option (Text × Text) :=
  let whole := t.takeWhile CodePoint.isDecimal
  let rest := t.drop whole.length
  let point := (rest.take 1).any (·.is '.')
  let fraction := if point then (rest.drop 1).takeWhile CodePoint.isDecimal else []
  if whole = [] ∧ fraction = [] then none
  else
    let n := whole.length + (if point then 1 else 0) + fraction.length
    some (t.take n, t.drop n)

/-- The number with a unit at the front of a text in seconds, and the rest. -/
def takePart? (t : Text) : Option (Double × Text) := do
  let (number, rest) ← takeNumber? t
  let (unit, length) ← units.find? fun u => (Text.lit u.1).isPrefixOf rest
  let x ← Double.read? number
  some (x.mul length, rest.drop unit.length)

/-- The sum of the parts of a text, added to a sum. -/
def sumParts? : Nat → Double → Text → Option Double
  | _, sum, [] => some sum
  | 0, _, _ => none
  | fuel + 1, sum, t => do
    let (x, rest) ← takePart? t
    sumParts? fuel (sum.add x) rest

/-- Reads a duration. -/
def read (t : Text) : Except ReadError Duration :=
  let s := Text.strip t
  let body := s.dropWhile (·.isIn "+-")
  if body = Text.lit "0" then .ok zero
  else if body = [] then .error .malformed
  else
    match sumParts? body.length (Double.zero false) body with
    | none => .error .malformed
    | some x =>
      let x := if (s.take 1).any (·.is '-') then x.neg else x
      (ofSeconds? x).elim (.error .outOfRange) .ok

/-- A duration in seconds with six digits. -/
def toText (d : Duration) : Text := d.seconds.toGeneral 6 ++ Text.lit "s"

end LogStream.Duration
