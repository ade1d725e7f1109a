import LogStream.Number.Double

/-! # Numbers

Integers and doubles together, compared by their exact values. -/

namespace LogStream

/-- An integer or a double. -/
inductive Number
  | int (n : Int)
  | double (x : Double)
deriving DecidableEq

namespace Number

/-- The order of two numbers by exact value, if neither is a not-a-number. -/
def compare? : Number → Number → Option Ordering
  | int m, int n => some (Ord.compare m n)
  | int m, double y => Double.compareInt? m y
  | double x, int n => (Double.compareInt? n x).map Ordering.swap
  | double x, double y => Double.compare? x y

/-- Equal by exact value. -/
def equal (a b : Number) : Bool := compare? a b == some .eq

def isNaN : Number → Bool
  | int _ => false
  | double x => x.isNaN

end Number

/-- The least signed 64-bit integer. -/
def int64Min : Int := -0x8000000000000000

/-- The greatest signed 64-bit integer. -/
def int64Max : Int := 0x7FFFFFFFFFFFFFFF

/-- The greatest unsigned 64-bit integer. -/
def uint64Max : Int := 0xFFFFFFFFFFFFFFFF

end LogStream
