import LogStream.Text.Basic

/-! # Wide encodings

UTF-16 and UTF-32 in both byte orders, read with surrogates that stand alone let through. -/

namespace LogStream

/-- The order of the bytes of a unit. -/
inductive ByteOrder
  | little
  | big
deriving DecidableEq, Repr

namespace ByteOrder

/-- The number of a unit whose bytes are given in the order they stand. -/
def number (o : ByteOrder) (bs : Bytes) : Nat :=
  match o with
  | little => bs.foldr (fun b n => n * 256 + b.toNat) 0
  | big => bs.foldl (fun n b => n * 256 + b.toNat) 0

end ByteOrder

namespace Utf16

/-- The high half of a surrogate pair. -/
def isHigh (n : Nat) : Bool := 0xD800 ≤ n && n < 0xDC00

/-- The low half of a surrogate pair. -/
def isLow (n : Nat) : Bool := 0xDC00 ≤ n && n < 0xE000

/-- The code point of a surrogate pair. -/
def pair (high low : Nat) : CodePoint :=
  CodePoint.ofNat (0x10000 + (high - 0xD800) * 1024 + (low - 0xDC00))

/-- Two bytes at a time, none left over. -/
def units? (o : ByteOrder) : Bytes → Option (List Nat)
  | [] => some []
  | [_] => none
  | a :: b :: r => (units? o r).map (o.number [a, b] :: ·)

/-- Surrogate pairs become one code point; a half that stands alone stays. -/
def joinPairs : List Nat → Text
  | [] => []
  | [n] => [CodePoint.ofNat n]
  | m :: n :: r =>
    if isHigh m && isLow n then pair m n :: joinPairs r
    else CodePoint.ofNat m :: joinPairs (n :: r)

/-- The text of bytes in UTF-16. -/
def decode? (o : ByteOrder) (bs : Bytes) : Option Text := (units? o bs).map joinPairs

/-- The units of a code point. -/
def encodePoint (c : CodePoint) : List Nat :=
  if c.val < 0x10000 then [c.val]
  else [0xD800 + (c.val - 0x10000) / 1024, 0xDC00 + (c.val - 0x10000) % 1024]

end Utf16

namespace Utf32

/-- The text of bytes in UTF-32. -/
def decode? (o : ByteOrder) : Bytes → Option Text
  | [] => some []
  | a :: b :: c :: d :: r =>
    let n := o.number [a, b, c, d]
    if n < 0x110000 then (decode? o r).map (CodePoint.ofNat n :: ·) else none
  | _ => none

end Utf32

end LogStream
