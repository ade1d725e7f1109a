import LogStream.Text.Basic

/-! # Base 64

Three bytes are four letters of the alphabet `A-Za-z0-9+/`, with `=` in place of the letters that a
last group of one or two bytes does not need. -/

namespace LogStream.Base64

/-- The letter of a number below 64. -/
def letter (n : Nat) : CodePoint :=
  CodePoint.ofNat
    (if n < 26 then 65 + n else if n < 52 then 71 + n else if n < 62 then n - 4
      else if n = 62 then 43 else 47)

/-- The number of a letter. -/
def value? (c : CodePoint) : Option Nat :=
  if c.isAsciiUpper then some (c.val - 65)
  else if c.isAsciiLower then some (c.val - 71)
  else if c.isAsciiDigit then some (c.val + 4)
  else if c.is '+' then some 62
  else if c.is '/' then some 63
  else none

def pad : CodePoint := CodePoint.ofChar '='

/-- The letters of some bytes. -/
def encode : Bytes → Text
  | [] => []
  | [a] => [letter (a.toNat / 4), letter (a.toNat % 4 * 16), pad, pad]
  | [a, b] =>
    [letter (a.toNat / 4), letter (a.toNat % 4 * 16 + b.toNat / 16), letter (b.toNat % 16 * 4), pad]
  | a :: b :: c :: r =>
    letter (a.toNat / 4) :: letter (a.toNat % 4 * 16 + b.toNat / 16) ::
      letter (b.toNat % 16 * 4 + c.toNat / 64) :: letter (c.toNat % 64) :: encode r

/-- The bytes of a run of letters of which whole groups are complete; one letter alone holds no byte,
and the bits that a short last group has left over are dropped. -/
def bytesOf : List Nat → Bytes
  | a :: b :: c :: d :: r =>
    byte (a * 4 + b / 16) :: byte (b % 16 * 16 + c / 4) :: byte (c % 4 * 64 + d) :: bytesOf r
  | [a, b, c] => [byte (a * 4 + b / 16), byte (b % 16 * 16 + c / 4)]
  | [a, b] => [byte (a * 4 + b / 16)]
  | _ => []

/-- The padding that goes with a number of letters: as much as a short last group needs, any amount
behind a complete one. -/
def paddingFits (letters pads : Nat) : Bool :=
  match letters % 4 with
  | 0 => letters != 0 || pads == 0
  | 2 => pads == 2
  | 3 => pads == 1
  | _ => false

/-- The bytes of letters and their padding. -/
def decode? (t : Text) : Option Bytes :=
  let letters := t.takeWhile (· != pad)
  let pads := t.dropWhile (· != pad)
  if pads.all (· == pad) && paddingFits letters.length pads.length then
    (letters.mapM value?).map bytesOf
  else none

/-- A text with padding up to a multiple of four. -/
def padded (t : Text) : Text := t ++ List.replicate ((4 - t.length % 4) % 4) pad

end LogStream.Base64
