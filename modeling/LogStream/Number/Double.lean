/-! # Binary64 numbers

A double is its 64 bits, so that every not-a-number keeps its own. Each finite double is a whole
number of units, a unit being `2 ^ -1074`: sums, products, quotients, roots and comparisons are
computed exactly on units and rounded once, to the nearest double and to the even one of two. -/

namespace LogStream

/-- A binary64 number. -/
structure Double where
  bits : UInt64
deriving DecidableEq, Inhabited, Repr

namespace Double

/-- A double from a sign and the other 63 bits. -/
def ofBits (negative : Bool) (magnitude : Nat) : Double :=
  ⟨UInt64.ofNat ((if negative then 0x8000000000000000 else 0) + magnitude)⟩

/-- The sign bit. -/
def isNegative (x : Double) : Bool := 0x8000000000000000 ≤ x.bits.toNat

/-- The bits without the sign. -/
def magnitude (x : Double) : Nat := x.bits.toNat % 0x8000000000000000

/-- The magnitude of the infinities; larger ones are no numbers. -/
def infiniteBits : Nat := 0x7FF0000000000000

def isNaN (x : Double) : Bool := infiniteBits < x.magnitude

def isInfinite (x : Double) : Bool := x.magnitude == infiniteBits

def isFinite (x : Double) : Bool := x.magnitude < infiniteBits

def nan : Double := ⟨0x7FF8000000000000⟩

def infinity (negative : Bool) : Double := ofBits negative infiniteBits

def zero (negative : Bool) : Double := ofBits negative 0

def isZero (x : Double) : Bool := x.magnitude == 0

/-- The distance from zero of a finite double, in units. -/
def absUnits (x : Double) : Nat :=
  let exponent := x.magnitude / 0x10000000000000
  let fraction := x.magnitude % 0x10000000000000
  if exponent = 0 then fraction else (0x10000000000000 + fraction) * Nat.pow 2 (exponent - 1)

/-- The value of a finite double, in units. -/
def units (x : Double) : Int := if x.isNegative then -(x.absUnits : Int) else x.absUnits

/-- The number of units in one. -/
def one : Nat := Nat.pow 2 1074

/-- A quotient rounded to the nearest whole number, a half to the even one. -/
def divHalfEven (num den : Nat) : Nat :=
  let q := num / den
  let r := num % den
  if 2 * r < den then q else if den < 2 * r then q + 1 else q + q % 2

/-- The double nearest to `num / den` units. -/
def ofUnits (negative : Bool) (num den : Nat) : Double :=
  let scale := Nat.log2 (num / den) - 52
  let bits := scale * 0x10000000000000 + divHalfEven num (den * Nat.pow 2 scale)
  if infiniteBits ≤ bits then infinity negative else ofBits negative bits

/-- The double nearest to a quotient of natural numbers. -/
def ofRatio (negative : Bool) (num den : Nat) : Double := ofUnits negative (num * one) den

/-- The double nearest to an integer. -/
def ofInt (n : Int) : Double := ofRatio (n < 0) n.natAbs 1

/-- An integer as a double, if it is not too far out. -/
def ofInt? (n : Int) : Option Double :=
  let x := ofInt n
  if x.isInfinite then none else some x

/-! ### Arithmetic -/

def neg (x : Double) : Double := ⟨x.bits ^^^ 0x8000000000000000⟩

def abs (x : Double) : Double := ofBits false x.magnitude

/-- The size of `x` with the sign of `y`. -/
def copySign (x y : Double) : Double := ofBits y.isNegative x.magnitude

/-- The double nearest to a whole number of units; `zeroSign` is the sign of a sum that vanishes. -/
def ofUnitSum (zeroSign : Bool) (n : Int) : Double :=
  if n = 0 then zero zeroSign else ofUnits (n < 0) n.natAbs 1

def add (x y : Double) : Double :=
  if x.isNaN then x else if y.isNaN then y
  else if x.isInfinite then
    if y.isInfinite && x.isNegative != y.isNegative then nan else x
  else if y.isInfinite then y
  else ofUnitSum (x.isNegative && y.isNegative) (x.units + y.units)

def sub (x y : Double) : Double := if y.isNaN then add x y else add x y.neg

def mul (x y : Double) : Double :=
  let negative := x.isNegative != y.isNegative
  if x.isNaN then x else if y.isNaN then y
  else if x.isInfinite || y.isInfinite then
    if x.isZero || y.isZero then nan else infinity negative
  else if x.isZero || y.isZero then zero negative
  else ofUnits negative (x.absUnits * y.absUnits) one

/-- Division by a number that is not zero. -/
def div (x y : Double) : Double :=
  let negative := x.isNegative != y.isNegative
  if x.isNaN then x else if y.isNaN then y
  else if x.isInfinite then if y.isInfinite then nan else infinity negative
  else if y.isInfinite then zero negative
  else if y.isZero then if x.isZero then nan else infinity negative
  else ofUnits negative (x.absUnits * one) y.absUnits

/-- The greatest number whose square is at most `n`, among those below `2 ^ bits` above `r`. -/
def sqrtFrom (n : Nat) : Nat → Nat → Nat
  | 0, r => r
  | bits + 1, r =>
    let s := r + Nat.pow 2 bits
    sqrtFrom n bits (if s * s ≤ n then s else r)

/-- The whole part of a square root. -/
def natSqrt (n : Nat) : Nat := sqrtFrom n (Nat.log2 n / 2 + 1) 0

/-- The square root of a number that is not negative. -/
def sqrt (x : Double) : Double :=
  if x.isNaN || x.isZero || x.isInfinite then x
  else
    let n := x.absUnits * one
    let r := natSqrt n
    if r * r = n then ofUnits false r 1 else ofUnits false (2 * r + 1) 2

/-! ### Order -/

/-- The order of two doubles, if neither is a not-a-number. -/
def compare? (x y : Double) : Option Ordering :=
  if x.isNaN || y.isNaN then none
  else
    let key (z : Double) : Int :=
      if z.isNegative then -(z.magnitude : Int) else z.magnitude
    some (Ord.compare (key x) (key y))

/-- The order of an integer and a double, if that is a number. -/
def compareInt? (n : Int) (y : Double) : Option Ordering :=
  if y.isNaN then none
  else if y.isInfinite then some (if y.isNegative then .gt else .lt)
  else some (Ord.compare (n * one) y.units)

/-- Equal as numbers; zeros of both signs are equal, a not-a-number equals nothing. -/
def equal (x y : Double) : Bool := compare? x y == some .eq

/-! ### Whole numbers -/

/-- The whole part of a finite double, toward zero. -/
def truncate (x : Double) : Int :=
  if x.isNegative then -((x.absUnits / one : Nat) : Int) else (x.absUnits / one : Nat)

/-- The greatest integer that is not above a finite double. -/
def floor (x : Double) : Int := Int.fdiv x.units one

/-- The least integer that is not below a finite double. -/
def ceil (x : Double) : Int := -Int.fdiv (-x.units) one

/-- A finite double without a fractional part. -/
def isWhole (x : Double) : Bool := x.isFinite && x.absUnits % one == 0

/-- The whole part and the rest of a finite double, both with its sign. -/
def split (x : Double) : Double × Double :=
  (ofUnits x.isNegative (x.absUnits / one * one) 1, ofUnits x.isNegative (x.absUnits % one) 1)

/-! ### Bytes -/

/-- The eight bytes of a double, the lowest first. -/
def toBytes (x : Double) : List UInt8 :=
  (List.range 8).map fun i => UInt8.ofNat (x.bits.toNat / Nat.pow 256 i)

/-- The double of eight bytes, the lowest first. -/
def ofBytes (bs : List UInt8) : Double :=
  ⟨UInt64.ofNat (bs.foldr (fun b n => n * 256 + b.toNat) 0)⟩

end Double

end LogStream
