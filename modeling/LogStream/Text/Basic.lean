/-! # Text

A text is a list of code points. Surrogates are code points like any other here, since messages,
keys and expressions may hold them; only an encoding can refuse them. Lengths, offsets and indexes
count code points, and texts are ordered by code point. -/

namespace LogStream

/-- A code point, surrogates included. -/
abbrev CodePoint := Fin 0x110000

/-- A sequence of code points. -/
abbrev Text := List CodePoint

/-- A sequence of bytes. -/
abbrev Bytes := List UInt8

namespace CodePoint

/-- The code point of a character. -/
def ofChar (c : Char) : CodePoint := Fin.ofNat 0x110000 c.toNat

/-- The code point of a number that is taken modulo the size of the code space. -/
def ofNat (n : Nat) : CodePoint := Fin.ofNat 0x110000 n

/-- The character of a code point; a surrogate reads as the replacement character. -/
def toChar (c : CodePoint) : Char :=
  if 0xD800 ≤ c.val ∧ c.val ≤ 0xDFFF then '\uFFFD' else Char.ofNat c.val

/-- A surrogate code point, which no encoding form of Unicode can hold. -/
def isSurrogate (c : CodePoint) : Bool := 0xD800 ≤ c.val && c.val ≤ 0xDFFF

/-- A code point is the given character. -/
def is (c : CodePoint) (ch : Char) : Bool := c.val == ch.toNat

/-- A code point is one of the characters of a string. -/
def isIn (c : CodePoint) (s : String) : Bool := s.toList.any c.is

def isAscii (c : CodePoint) : Bool := c.val < 128

def isAsciiDigit (c : CodePoint) : Bool := 48 ≤ c.val && c.val ≤ 57

def isAsciiUpper (c : CodePoint) : Bool := 65 ≤ c.val && c.val ≤ 90

def isAsciiLower (c : CodePoint) : Bool := 97 ≤ c.val && c.val ≤ 122

def isAsciiLetter (c : CodePoint) : Bool := c.isAsciiUpper || c.isAsciiLower

/-- White space of ASCII: a blank, or one of the controls from tabulator to carriage return. -/
def isAsciiSpace (c : CodePoint) : Bool := c.is ' ' || (9 ≤ c.val && c.val ≤ 13)

/-- The value of a hexadecimal digit. -/
def hexValue? (c : CodePoint) : Option Nat :=
  if 48 ≤ c.val ∧ c.val ≤ 57 then some (c.val - 48)
  else if 97 ≤ c.val ∧ c.val ≤ 102 then some (c.val - 87)
  else if 65 ≤ c.val ∧ c.val ≤ 70 then some (c.val - 55)
  else none

def isHexDigit (c : CodePoint) : Bool := c.hexValue?.isSome

def isOctalDigit (c : CodePoint) : Bool := 48 ≤ c.val && c.val ≤ 55

end CodePoint

namespace Text

/-- The text of a string. -/
def lit (s : String) : Text := s.toList.map CodePoint.ofChar

/-- The string of a text; a surrogate becomes the replacement character. -/
def toString (t : Text) : String := String.ofList (t.map CodePoint.toChar)

/-- Texts joined with a separator between them. -/
def joinWith (sep : Text) : List Text → Text
  | [] => []
  | [t] => t
  | t :: ts => t ++ sep ++ joinWith sep ts

/-- Texts listed with a comma and a blank between them. -/
def commaList (ts : List Text) : Text := joinWith (lit ", ") ts

/-- A text padded on the left to a width. -/
def padLeft (c : CodePoint) (width : Nat) (t : Text) : Text :=
  List.replicate (width - t.length) c ++ t

/-- A text padded on the right to a width. -/
def padRight (c : CodePoint) (width : Nat) (t : Text) : Text :=
  t ++ List.replicate (width - t.length) c

/-- Upper case of the ASCII letters, all else unchanged. -/
def upperAscii (t : Text) : Text :=
  t.map fun c => if c.isAsciiLower then CodePoint.ofNat (c.val - 32) else c

/-- Lower case of the ASCII letters, all else unchanged. -/
def lowerAscii (t : Text) : Text :=
  t.map fun c => if c.isAsciiUpper then CodePoint.ofNat (c.val + 32) else c

/-- Order by code point, a proper beginning first. -/
def compare : Text → Text → Ordering
  | [], [] => .eq
  | [], _ :: _ => .lt
  | _ :: _, [] => .gt
  | a :: s, b :: t => (Ord.compare a.val b.val).then (compare s t)

end Text

/-- Order of byte sequences, a proper beginning first. -/
def Bytes.compare : Bytes → Bytes → Ordering
  | [], [] => .eq
  | [], _ :: _ => .lt
  | _ :: _, [] => .gt
  | a :: s, b :: t => (Ord.compare a.toNat b.toNat).then (Bytes.compare s t)

/-- A byte from a number that is taken modulo 256. -/
abbrev byte (n : Nat) : UInt8 := UInt8.ofNat n

end LogStream
