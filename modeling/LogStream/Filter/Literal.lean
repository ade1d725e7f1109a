import LogStream.Number.Decimal
import LogStream.Text.Utf8
import LogStream.Filter.CompileError
import LogStream.Filter.Expr
import LogStream.Filter.Token

/-! # Literals

What the tokens of literals stand for. In a quoted text a backslash starts an escape, unless a letter r
stands in front of the quotes; with a letter b in front the text stands for bytes, one byte to a code
point if all are below 256, else in UTF-8. -/

namespace LogStream.Filter

/-! ### Escapes -/

/-- The letters of the escapes that stand for one character, and those characters. -/
def simpleEscapes : List (Char × Nat) :=
  [('a', 7), ('b', 8), ('f', 12), ('n', 10), ('r', 13), ('t', 9), ('v', 11), ('\\', 92), ('\'', 39),
    ('"', 34), ('\x60', 96), ('?', 63)]

/-- Why a quoted text stands for nothing. -/
inductive EscapeError
  | unknown (c : CodePoint)
  | fault (f : Fault)
deriving DecidableEq

/-- The digits of a numbered escape, if all are there. -/
def escapeDigits? (count : Nat) (t : Text) : Option Nat :=
  if t.length < count then none
  else ((t.take count).mapM CodePoint.hexValue?).map (Text.numberOf 16)

/-- The code point of a numbered escape. -/
def numbered (n : Nat) : Except EscapeError CodePoint :=
  if n < 0x110000 then .ok (CodePoint.ofNat n)
  else if n < 0x80000000 then .error (.fault .badValue)
  else .error (.fault .overflow)

/-- The number of an octal escape of three digits, the first at most three. -/
def octalDigits? : Text → Option Nat
  | a :: b :: c :: _ =>
    if a.isOctalDigit && a.val ≤ 51 && b.isOctalDigit && c.isOctalDigit then
      some (Text.numberOf 8 [a.val - 48, b.val - 48, c.val - 48])
    else none
  | _ => none

/-- The escape behind a backslash: its code point and its length. -/
def readEscape (c : CodePoint) (r : Text) : Except EscapeError (CodePoint × Nat) :=
  let digits (count : Nat) : Except EscapeError (CodePoint × Nat) :=
    match escapeDigits? count r with
    | some n => do return (← numbered n, count + 1)
    | none => .error (.unknown c)
  match simpleEscapes.find? fun e => c.is e.1 with
  | some e => .ok (CodePoint.ofNat e.2, 1)
  | none =>
    if c.is 'x' then digits 2
    else if c.is 'u' then digits 4
    else if c.is 'U' then digits 8
    else
      match octalDigits? (c :: r) with
      | some n => .ok (CodePoint.ofNat n, 3)
      | none => .error (.unknown c)

/-- A text with its escapes read; `skip` code points of an escape are still to be passed over. A
backslash at the very end stands for itself. -/
def unescapeFrom (skip : Nat) : Text → Except EscapeError Text
  | [] => .ok []
  | c :: r =>
    if skip ≠ 0 then unescapeFrom (skip - 1) r
    else if c.is '\\' then
      match r with
      | [] => .ok [c]
      | d :: r' =>
        match readEscape d r' with
        | .error e => .error e
        | .ok (x, n) => (unescapeFrom n r).map (x :: ·)
    else (unescapeFrom 0 r).map (c :: ·)

/-- A text with its escapes read. -/
def unescape (t : Text) : Except EscapeError Text := unescapeFrom 0 t

/-! ### Quoted texts -/

/-- The bytes that a text stands for. -/
def literalBytes (t : Text) : Except EscapeError Bytes :=
  if t.all (·.val < 256) then .ok (t.map fun c => byte c.val)
  else (Utf8.encode? t).elim (.error (.fault .notEncodable)) .ok

/-- The text between the quotes. -/
def betweenQuotes (t : Text) : Text :=
  let n := if t.length < 6 then 1
    else match t with
      | a :: b :: c :: _ => if a = b ∧ b = c then 3 else 1
      | _ => 1
  (t.drop n).take (t.length - 2 * n)

/-- What a quoted text stands for, the letters in front of the quotes included. -/
def readQuoted (t : Text) : Except EscapeError Constant := do
  let letters := t.takeWhile (·.isIn "rRbB")
  let body := betweenQuotes (t.dropWhile (·.isIn "rRbB"))
  let content ← if letters.any (·.isIn "rR") then .ok body else unescape body
  if letters.any (·.isIn "bB") then return .bytes (← literalBytes content)
  else return .string content

/-! ### Writing

The reverse of reading: a text between double quotes that is a literal of it. -/

/-- A code point as it is written between double quotes. -/
def escapePoint (c : CodePoint) : Text :=
  match simpleEscapes.find? fun e => c.val == e.2 && !c.isIn "'?\x60" with
  | some e => [CodePoint.ofChar '\\', CodePoint.ofChar e.1]
  | none =>
    if c.isPrintable then [c]
    else if c.val < 0x10000 then Text.lit "\\u" ++ Text.hex 4 c.val
    else Text.lit "\\U" ++ Text.hex 8 c.val

/-- The literal of a text. -/
def writeString (t : Text) : Text :=
  Text.lit "\"" ++ t.flatMap escapePoint ++ Text.lit "\""

/-! ### Numerals -/

/-- The number of a numeral in base sixteen behind its mark, or in base ten. -/
def readNumeral (t : Text) : Except Fault Nat :=
  match t with
  | z :: x :: r =>
    if z.is '0' && x.isIn "xX" then
      .ok (Text.numberOf 16 (r.map fun c => (CodePoint.hexValue? c).getD 0))
    else (Text.readInt? t).elim (.error .badValue) fun n => .ok n.toNat
  | _ => (Text.readInt? t).elim (.error .badValue) fun n => .ok n.toNat

/-- The greatest number of an integer literal: a sign in front makes it the least signed integer. -/
def intLiteralMax : Nat := 0x8000000000000000

/-- The greatest number of an unsigned literal. -/
def uintLiteralMax : Nat := 0xFFFFFFFFFFFFFFFF

/-- The literal of an integer token. -/
def readInteger (t : Token) : Except CompileError Constant :=
  let isMark : Bool := (t.text.drop (t.text.length - 1)).any (·.isIn "uU")
  let digits := if isMark then t.text.take (t.text.length - 1) else t.text
  match readNumeral digits with
  | .error f => .error (.fault f)
  | .ok n =>
    if isMark then
      if uintLiteralMax < n then .error (.at t.pos .uintOutOfRange) else .ok (.uint n)
    else if intLiteralMax < n then .error (.at t.pos .intOutOfRange)
    else .ok (.int n)

/-- The literal of a string token. -/
def readString (t : Token) : Except CompileError Constant :=
  match readQuoted t.text with
  | .ok c => .ok c
  | .error (.unknown c) => .error (.at t.pos (.badEscape c))
  | .error (.fault f) => .error (.fault f)

/-- The literal of a token for a double. -/
def readFloat (t : Token) : Constant := .double ((Double.read? t.text).getD Double.nan)

end LogStream.Filter
