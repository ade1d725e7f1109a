import LogStream.Text.Numeral
import LogStream.Number.Double

/-! # Doubles in decimal

Shortest numerals, numerals of a fixed number of digits, and reading. All three are exact: a numeral
is compared with the value itself and rounded once. -/

namespace LogStream

/-- The digits of a positive number `d₁.d₂d₃… × 10 ^ exponent`. -/
structure Decimal where
  digits : List Nat
  exponent : Int
deriving DecidableEq, Repr

namespace Decimal

/-- Ten to a power that may be negative, as a quotient. -/
def pow10 (e : Int) : Nat × Nat := if 0 ≤ e then (Nat.pow 10 e.toNat, 1) else (1, Nat.pow 10 (-e).toNat)

/-- The digits of a natural number. -/
def digitsOf (n : Nat) : List Nat := (Nat.toDigits 10 n).map fun c => c.toNat - 48

/-- The exponent of the leading digit of `num / den`, found from a first guess. -/
def leadFrom (num den : Nat) : Nat → Int → Int
  | 0, e => e
  | fuel + 1, e =>
    let (p, q) := pow10 e
    if num * q < den * p then leadFrom num den fuel (e - 1)
    else if num * q < den * p * 10 then e
    else leadFrom num den fuel (e + 1)

/-- The exponent of the leading digit of a positive quotient. -/
def lead (num den : Nat) : Int :=
  let guess := ((Nat.log2 num : Int) - Nat.log2 den) * 30103 / 100000
  leadFrom num den 8 guess

/-- A quotient rounded to a number of digits, a half to the even neighbour. -/
def round (num den count : Nat) : Decimal :=
  let e := lead num den
  let (p, q) := pow10 (e - (count - 1 : Nat))
  let n := Double.divHalfEven (num * q) (den * p)
  if n = Nat.pow 10 count then ⟨1 :: List.replicate (count - 1) 0, e + 1⟩ else ⟨digitsOf n, e⟩

/-- A number of units lies among those that round to a magnitude. -/
def roundsTo (magnitude num den : Nat) : Bool := (Double.ofUnits false num den).magnitude == magnitude

/-- The nearest point of the grid `10 ^ e` that rounds to the given double, if there is one. -/
def nearestOnGrid? (x : Double) (e : Int) : Option Nat :=
  let (p, q) := pow10 e
  let num := x.absUnits * q
  let den := Double.one * p
  let low := num / den
  let back (n : Nat) : Bool := roundsTo x.magnitude (n * p * Double.one) q
  let nearer := Double.divHalfEven num den
  let further := if nearer = low then low + 1 else low
  if back nearer then some nearer else if back further then some further else none

/-- The first grid with a point, from coarse to fine; `near?` gives the point of a grid. -/
def shortestFrom (near? : Int → Option Nat) (e : Int) : Nat → Decimal
  | 0 => ⟨[0], 0⟩
  | fuel + 1 =>
    match near? e with
    | some n =>
      let ds := digitsOf n
      ⟨ds, e + (ds.length - 1 : Nat)⟩
    | none => shortestFrom near? (e - 1) fuel

/-- Trailing zeros dropped, one digit kept. -/
def dropZeros (d : Decimal) : Decimal :=
  match (d.digits.reverse.dropWhile (· == 0)).reverse with
  | [] => ⟨[0], d.exponent⟩
  | ds => ⟨ds, d.exponent⟩

/-- The shortest digits that read back as a positive finite double, the nearest among those. -/
def shortest (x : Double) : Decimal :=
  dropZeros (shortestFrom (nearestOnGrid? x) (lead x.absUnits Double.one + 1) 19)

/-- Digits as text. -/
def digitText (ds : List Nat) : Text := ds.map fun d => CodePoint.ofNat (48 + d)

/-- Digits with a point after the first `n` of them, zeros filled in. -/
def positional (d : Decimal) (places : Nat) : Text :=
  let whole :=
    if d.exponent < 0 then [0]
    else (d.digits ++ List.replicate (d.exponent.toNat + 1) 0).take (d.exponent.toNat + 1)
  let rest :=
    if d.exponent < 0 then List.replicate ((-d.exponent).toNat - 1) 0 ++ d.digits
    else d.digits.drop (d.exponent.toNat + 1)
  let fraction := rest ++ List.replicate (places - rest.length) 0
  digitText whole ++ if fraction = [] then [] else CodePoint.ofChar '.' :: digitText fraction

/-- An exponent with its sign and at least two digits. -/
def exponentText (e : Int) : Text :=
  Text.lit (if e < 0 then "e-" else "e+") ++ Text.padLeft (CodePoint.ofChar '0') 2 (Text.ofNat e.natAbs)

/-- One digit, the others behind a point, and the exponent. -/
def scientific (d : Decimal) : Text :=
  digitText (d.digits.take 1) ++
    (if d.digits.length ≤ 1 then [] else CodePoint.ofChar '.' :: digitText (d.digits.drop 1)) ++
    exponentText d.exponent

end Decimal

namespace Double

/-- A text behind the sign of a number. -/
def signed (x : Double) (t : Text) : Text :=
  if x.isNegative then CodePoint.ofChar '-' :: t else t

/-- The shortest numeral that reads back: positional from `10 ^ -4` up to `10 ^ 16`, with a point. -/
def toText (x : Double) : Text :=
  if x.isNaN then Text.lit "nan"
  else if x.isInfinite then x.signed (Text.lit "inf")
  else if x.isZero then x.signed (Text.lit "0.0")
  else
    let d := Decimal.shortest x
    x.signed (if -4 ≤ d.exponent ∧ d.exponent < 16 then d.positional 1 else d.scientific)

/-- A finite double with a fixed number of places. -/
def toFixed (x : Double) (places : Nat) : Text :=
  let n := divHalfEven (x.absUnits * Nat.pow 10 places) one
  let ds := Text.padLeft (CodePoint.ofChar '0') (places + 1) (Text.ofNat n)
  let whole := ds.take (ds.length - places)
  let fraction := ds.drop (ds.length - places)
  x.signed (whole ++ if places = 0 then [] else CodePoint.ofChar '.' :: fraction)

/-- A finite double rounded to a number of digits. -/
def rounded (x : Double) (count : Nat) : Decimal :=
  if x.isZero then ⟨List.replicate count 0, 0⟩ else Decimal.round x.absUnits one count

/-- A finite double in scientific form with a number of places. -/
def toScientific (x : Double) (places : Nat) : Text := x.signed (x.rounded (places + 1)).scientific

/-- A finite double with a number of digits, in the shorter of the two forms, without trailing
zeros. -/
def toGeneral (x : Double) (count : Nat) : Text :=
  let d := x.rounded count
  let s := d.dropZeros
  x.signed (if -4 ≤ d.exponent ∧ d.exponent < count then s.positional 0 else s.scientific)

/-! ### Reading -/

/-- The double nearest to `n × 10 ^ e`; `count` bounds the digits of `n`. -/
def ofDecimal (negative : Bool) (n count : Nat) (e : Int) : Double :=
  if n = 0 then zero negative
  else if 320 < e then infinity negative
  else if e + count < -400 then zero negative
  else
    let (p, q) := Decimal.pow10 e
    ofRatio negative (n * p) q

/-- The digit values at the front of a text, single low lines between them dropped, and the rest;
nothing if a low line has no digit on both sides. -/
def takeDigits? (afterDigit : Bool) : Text → Option (List Nat × Text)
  | [] => some ([], [])
  | c :: r =>
    match c.decimal? with
    | some d => (takeDigits? true r).map fun (ds, rest) => (d :: ds, rest)
    | none =>
      if c.is '_' then
        match r with
        | [] => none
        | c' :: _ =>
          if afterDigit && c'.isDecimal then takeDigits? false r else none
      else some ([], c :: r)

/-- Reads the exponent part, if there is one; the text has to end with it. -/
def readExponent? : Text → Option Int
  | [] => some 0
  | c :: r =>
    if c.isIn "eE" then
      let (negative, r) := Text.takeSign r
      match takeDigits? false r with
      | some (ds, []) =>
        if ds = [] then none
        else
          let n : Int := Text.numberOf 10 ds
          some (if negative then -n else n)
      | _ => none
    else none

/-- Reads a number without sign. -/
def readUnsigned? (negative : Bool) (t : Text) : Option Double :=
  match takeDigits? false t with
  | none => none
  | some (whole, rest) =>
    let fraction? : Option (List Nat × Text) :=
      match rest with
      | [] => some ([], [])
      | c :: r => if c.is '.' then takeDigits? false r else some ([], rest)
    match fraction? with
    | none => none
    | some (fraction, rest) =>
      if whole = [] ∧ fraction = [] then none
      else
        (readExponent? rest).map fun e =>
          let ds := whole ++ fraction
          ofDecimal negative (Text.numberOf 10 ds) ds.length (e - fraction.length)

/-- Reads a double: a decimal with optional fraction and exponent, an infinity or a not-a-number. -/
def read? (t : Text) : Option Double :=
  let (negative, body) := Text.takeSign (Text.stripNumeral t)
  let word := Text.lowerAscii body
  if word = Text.lit "inf" ∨ word = Text.lit "infinity" then some (infinity negative)
  else if word = Text.lit "nan" then some (if negative then nan.neg else nan)
  else readUnsigned? negative body

end Double

end LogStream
