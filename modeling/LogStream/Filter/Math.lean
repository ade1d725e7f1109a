import LogStream.Filter.Access
import LogStream.Filter.Strings

/-! # Mathematics

The functions on numbers. Bits are those of the two's complement, of any width in the logical operators and
of 64 bits in shifts. -/

namespace LogStream.Filter.Dyn

/-! ### Any numbers -/

/-- Values that are all numbers; a list alone stands for its elements. -/
def numbers (name : String) (args : List Dyn) : Eval (List Dyn) :=
  let args := match args with
    | [list xs] => xs
    | args => args
  if args = [] then Eval.fail (.noArguments name)
  else if args.all isNumber then .ok args
  else Eval.noOverload name args

/-- The first value, unless a later one is better: of equal ones the first is kept. -/
def bestOf (better : Dyn → Dyn → Bool) : List Dyn → Dyn
  | [] => null
  | v :: vs => vs.foldl (fun best w => if better w best then w else best) v

def greatest (args : List Dyn) : Eval Dyn := do
  return bestOf (fun w best => less best w) (← numbers "math.greatest" args)

def least (args : List Dyn) : Eval Dyn := do
  return bestOf less (← numbers "math.least" args)

/-- One number, which may stand in a list alone; more than one are a fault. -/
def number (name : String) (v : Dyn) : Eval Dyn := do
  match ← numbers name [v] with
  | [x] => return x
  | _ => Eval.stop .badValue

def abs (v : Dyn) : Eval Dyn := do
  match ← number "math.abs" v with
  | int n => checked n.natAbs
  | double x => return double x.abs
  | w => return w

def sign (v : Dyn) : Eval Dyn := do
  match ← number "math.sign" v with
  | int n => return int n.sign
  | double x =>
    if x.isZero || x.isNaN then return double x
    else return double ((Double.ofInt 1).copySign x)
  | w => return w

/-- The square root of a number, not a number below zero. -/
def sqrtOf : Number → Eval Double
  | .int n => if n < 0 then .ok Double.nan else (ofWhole n).map Double.sqrt
  | .double x =>
    if x.isNaN || (x.isNegative && !x.isZero) then .ok Double.nan else .ok x.sqrt
where
  ofWhole (n : Int) : Eval Double := (Double.ofInt? n).elim (Eval.stop .overflow) .ok

def sqrt (v : Dyn) : Eval Dyn := do
  match (← number "math.sqrt" v).number? with
  | some x => return double (← sqrtOf x)
  | none => return null

/-! ### Doubles -/

/-- A double. -/
def doubleArg (name : String) : Dyn → Eval Double
  | double x => .ok x
  | v => Eval.noOverload name [v]

/-- A finite double rounded to a whole number; all others stay. -/
def rounding (name : String) (round : Double → Double) (v : Dyn) : Eval Dyn := do
  let x ← doubleArg name v
  return double (if x.isFinite then round x else x)

def ceil : Dyn → Eval Dyn := rounding "math.ceil" fun x => Double.ofInt x.ceil

def floor : Dyn → Eval Dyn := rounding "math.floor" fun x => Double.ofInt x.floor

/-- A half is rounded away from zero; half of one is added in doubles. -/
def round : Dyn → Eval Dyn := rounding "math.round" fun x =>
  (Double.ofInt (x.abs.add (Double.ofRatio false 1 2)).floor).copySign x

def trunc : Dyn → Eval Dyn := rounding "math.trunc" fun x => Double.ofInt x.truncate

/-- A test of a double. -/
def doubleTest (name : String) (test : Double → Bool) (v : Dyn) : Eval Dyn := do
  return bool (test (← doubleArg name v))

def isNaN : Dyn → Eval Dyn := doubleTest "math.isNaN" Double.isNaN

def isInf : Dyn → Eval Dyn := doubleTest "math.isInf" Double.isInfinite

def isFinite : Dyn → Eval Dyn := doubleTest "math.isFinite" Double.isFinite

/-! ### Bits -/

/-- The bits of both integers. -/
def landInt : Int → Int → Int
  | .ofNat m, .ofNat n => (m &&& n : Nat)
  | .ofNat m, .negSucc n => (m ^^^ (m &&& n) : Nat)
  | .negSucc m, .ofNat n => (n ^^^ (n &&& m) : Nat)
  | .negSucc m, .negSucc n => .negSucc (m ||| n)

/-- The complement of the bits. -/
def notInt (n : Int) : Int := -n - 1

/-- The bits of either integer. -/
def lorInt (m n : Int) : Int := notInt (landInt (notInt m) (notInt n))

/-- The bits of exactly one of the integers. -/
def xorInt (m n : Int) : Int := landInt (lorInt m n) (notInt (landInt m n))

/-- An operator on two integers. -/
def bitwise (name : String) (f : Int → Int → Int) (v w : Dyn) : Eval Dyn := do
  let m ← integer name v
  let n ← integer name w
  return int (f m n)

def bitAnd : Dyn → Dyn → Eval Dyn := bitwise "math.bitAnd" landInt

def bitOr : Dyn → Dyn → Eval Dyn := bitwise "math.bitOr" lorInt

def bitXor : Dyn → Dyn → Eval Dyn := bitwise "math.bitXor" xorInt

def bitNot (v : Dyn) : Eval Dyn := do return int (notInt (← integer "math.bitNot" v))

/-- The signed integer of a 64-bit pattern. -/
def ofPattern (n : Nat) : Int := if 0x8000000000000000 ≤ n then (n : Int) - 0x10000000000000000 else n

/-- The 64-bit pattern of an integer. -/
def pattern64 (n : Int) : Nat := (Int.emod n 0x10000000000000000).toNat

/-- A shift of an integer by a number of places; none of 64 bits is left after 64 places. -/
def shift (name : String) (f : Int → Nat → Int) (v places : Dyn) : Eval Dyn := do
  let n ← integer name v
  let k ← integer name places
  if k < 0 then Eval.failShowing (int k) (.negativeOffset name k)
  else if 64 ≤ k then return int 0
  else return int (f n k.toNat)

def bitShiftLeft : Dyn → Dyn → Eval Dyn :=
  shift "math.bitShiftLeft" fun n k => ofPattern (pattern64 (n * (Nat.pow 2 k : Nat)))

def bitShiftRight : Dyn → Dyn → Eval Dyn :=
  shift "math.bitShiftRight" fun n k => ofPattern (pattern64 n / Nat.pow 2 k)

end LogStream.Filter.Dyn
