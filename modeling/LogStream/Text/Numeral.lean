import LogStream.Text.Classes

/-! # Numerals

Integers in decimal. Writing uses ASCII digits. Reading takes the decimal digits of all scripts, a
sign, white space around the numeral and single low lines between digits; a numeral of more than
4300 digits is refused. -/

namespace LogStream.Text

/-- The numeral of a natural number in a base up to sixteen. -/
def ofNatBase (base n : Nat) : Text := (Nat.toDigits base n).map CodePoint.ofChar

/-- The decimal numeral of a natural number. -/
def ofNat (n : Nat) : Text := ofNatBase 10 n

/-- The numeral of an integer in a base up to sixteen. -/
def ofIntBase (base : Nat) (n : Int) : Text :=
  if n < 0 then CodePoint.ofChar '-' :: ofNatBase base n.natAbs else ofNatBase base n.natAbs

/-- The decimal numeral of an integer. -/
def ofInt (n : Int) : Text := ofIntBase 10 n

/-- The longest numeral that is read. -/
def maxDigits : Nat := 4300

/-- The number of a sequence of digit values. -/
def numberOf (base : Nat) (ds : List Nat) : Nat := ds.foldl (fun n d => n * base + d) 0

/-- The values of a text of decimal digits. -/
def digitValues? (t : Text) : Option (List Nat) := t.mapM CodePoint.decimal?

/-- The values of decimal digits with single low lines between them; `afterDigit` says whether a low
line may come next. -/
def spacedDigits? (afterDigit : Bool) : Text → Option (List Nat)
  | [] => if afterDigit then some [] else none
  | c :: r =>
    match c.decimal? with
    | some d => (spacedDigits? true r).map (d :: ·)
    | none => if afterDigit && c.is '_' then spacedDigits? false r else none

/-- White space around a numeral: that of ASCII without its separators, and that beyond ASCII. -/
def isNumeralSpace (c : CodePoint) : Bool :=
  if c.isAscii then (9 ≤ c.val && c.val ≤ 13) || c.is ' ' else c.isSpace

/-- Drops the white space around a numeral. -/
def stripNumeral (t : Text) : Text :=
  ((t.dropWhile isNumeralSpace).reverse.dropWhile isNumeralSpace).reverse

/-- The sign in front of a numeral and the rest. -/
def takeSign : Text → Bool × Text
  | [] => (false, [])
  | c :: r => if c.is '-' then (true, r) else if c.is '+' then (false, r) else (false, c :: r)

/-- Reads a decimal integer. -/
def readInt? (t : Text) : Option Int :=
  let (negative, digits) := takeSign (stripNumeral t)
  match spacedDigits? false digits with
  | none => none
  | some ds =>
    if maxDigits < ds.length then none
    else some (if negative then -(numberOf 10 ds : Int) else numberOf 10 ds)

end LogStream.Text
