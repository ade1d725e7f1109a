import LogStream.Text.Utf8
import LogStream.Text.Utf16
import LogStream.Number.Decimal
import LogStream.Datum.Basic

/-! # Reading JSON

JSON in UTF-8, UTF-16 or UTF-32, told apart by a byte order mark or by where the zero bytes of the
first four stand; surrogates that stand alone pass. Beside the numbers of JSON the names `NaN`,
`Infinity` and `-Infinity` are read. Of equal keys the last wins, in the place of the first. -/

namespace LogStream.Json

/-- Why bytes are no JSON. -/
inductive ReadError
  | malformed
  /-- An integer is too long to be read; it stands before any other mistake. -/
  | integerTooLong
deriving DecidableEq, Repr

/-! ### Encoding -/

/-- The byte order marks, of which the first that fits counts, and how what stands behind them is read. -/
def marks : List (Bytes × (Bytes → Option Text)) :=
  [([0x00, 0x00, 0xFE, 0xFF], Utf32.decode? .big), ([0xFF, 0xFE, 0x00, 0x00], Utf32.decode? .little),
    ([0xFE, 0xFF], Utf16.decode? .big), ([0xFF, 0xFE], Utf16.decode? .little),
    ([0xEF, 0xBB, 0xBF], Utf8.decodeWith? true)]

/-- The text of bytes without a mark, in the encoding that their zero bytes show. -/
def decodeUnmarked? (bs : Bytes) : Option Text :=
  match bs with
  | a :: b :: c :: d :: _ =>
    if a = 0 then if b = 0 then Utf32.decode? .big bs else Utf16.decode? .big bs
    else if b = 0 then
      if c = 0 ∧ d = 0 then Utf32.decode? .little bs else Utf16.decode? .little bs
    else Utf8.decodeWith? true bs
  | [a, b] =>
    if a = 0 then Utf16.decode? .big bs
    else if b = 0 then Utf16.decode? .little bs
    else Utf8.decodeWith? true bs
  | _ => Utf8.decodeWith? true bs

/-- The text of bytes in the encoding that they show. -/
def decode? (bs : Bytes) : Option Text :=
  match marks.find? fun m => m.1.isPrefixOf bs with
  | some m => m.2 (bs.drop m.1.length)
  | none => decodeUnmarked? bs

/-! ### Pieces -/

def isBlank (c : CodePoint) : Bool := c.isIn " \t\n\r"

def skipBlanks (s : Text) : Text := s.dropWhile isBlank

/-- The code point of the letter behind a backslash. -/
def escaped? (c : CodePoint) : Option CodePoint :=
  if c.isIn "\"\\/" then some c
  else if c.is 'b' then some (CodePoint.ofNat 8)
  else if c.is 'f' then some (CodePoint.ofNat 12)
  else if c.is 'n' then some (CodePoint.ofNat 10)
  else if c.is 'r' then some (CodePoint.ofNat 13)
  else if c.is 't' then some (CodePoint.ofNat 9)
  else none

/-- The number of four hexadecimal digits. -/
def hex4? (a b c d : CodePoint) : Option Nat := do
  let a ← a.hexValue?
  let b ← b.hexValue?
  let c ← c.hexValue?
  let d ← d.hexValue?
  return ((a * 16 + b) * 16 + c) * 16 + d

/-- A part of a string: a code point, or a unit of UTF-16 that was written as an escape. -/
inductive Piece
  | point (c : CodePoint)
  | unit (n : Nat)
deriving DecidableEq, Repr

/-- The text of the parts: two escapes in a row that are a surrogate pair are one code point. -/
def joinPieces : List Piece → Text
  | [] => []
  | .point c :: r => c :: joinPieces r
  | [.unit n] => [CodePoint.ofNat n]
  | .unit m :: .unit n :: r =>
    if Utf16.isHigh m && Utf16.isLow n then Utf16.pair m n :: joinPieces r
    else CodePoint.ofNat m :: joinPieces (.unit n :: r)
  | .unit n :: .point c :: r => CodePoint.ofNat n :: c :: joinPieces r

/-- A part put before the parts of a string. -/
def consPiece (p : Piece) (read : Option (List Piece × Text)) : Option (List Piece × Text) :=
  read.map fun (ps, rest) => (p :: ps, rest)

/-- The parts of a string up to its closing quote, and the rest. -/
def readPieces? : Text → Option (List Piece × Text)
  | [] => none
  | c :: r =>
    if c.is '"' then some ([], r)
    else if c.is '\\' then
      match r with
      | [] => none
      | e :: r =>
        match escaped? e with
        | some c => consPiece (.point c) (readPieces? r)
        | none =>
          match r with
          | h₁ :: h₂ :: h₃ :: h₄ :: r =>
            if e.is 'u' then
              match hex4? h₁ h₂ h₃ h₄ with
              | some n => consPiece (.unit n) (readPieces? r)
              | none => none
            else none
          | _ => none
    else if c.val < 32 then none
    else consPiece (.point c) (readPieces? r)

/-- A string behind its opening quote, and the rest. -/
def readString? (s : Text) : Option (Text × Text) :=
  (readPieces? s).map fun (ps, rest) => (joinPieces ps, rest)

/-! ### Numbers -/

/-- The digits at the front of a text and the rest. -/
def takeDigits (s : Text) : Text × Text :=
  (s.takeWhile CodePoint.isAsciiDigit, s.dropWhile CodePoint.isAsciiDigit)

/-- The digits of a whole number, without a zero in front of others. -/
def takeWhole (s : Text) : Text × Text :=
  match s with
  | [] => ([], [])
  | c :: r => if c.is '0' then ([c], r) else takeDigits s

/-- A point with digits behind it, if there is one. -/
def takeFraction (s : Text) : Text × Text :=
  match s with
  | [] => ([], [])
  | c :: r =>
    let (ds, rest) := takeDigits r
    if c.is '.' && !ds.isEmpty then (c :: ds, rest) else ([], s)

/-- An exponent, if there is one. -/
def takeExponent (s : Text) : Text × Text :=
  match s with
  | [] => ([], [])
  | e :: r =>
    let sign := (r.take 1).filter (·.isIn "+-")
    let (ds, rest) := takeDigits (r.drop sign.length)
    if e.isIn "eE" && !ds.isEmpty then (e :: sign ++ ds, rest) else ([], s)

/-- A number at the front of a text and the rest: an integer, or a double where there is a fraction or
an exponent. -/
def readNumber (s : Text) : Except ReadError (Datum × Text) :=
  let sign := (s.take 1).filter (·.is '-')
  let (whole, r) := takeWhole (s.drop sign.length)
  if whole.isEmpty then .error .malformed
  else
    let (fraction, r) := takeFraction r
    let (exponent, r) := takeExponent r
    if fraction.isEmpty && exponent.isEmpty then
      match Text.readInt? (sign ++ whole) with
      | some n => .ok (.int n, r)
      | none => .error .integerTooLong
    else
      match Double.read? (sign ++ whole ++ fraction ++ exponent) with
      | some x => .ok (.float x, r)
      | none => .error .malformed

/-! ### Data -/

/-- The names of data, and what they stand for. -/
def names : List (String × Datum) :=
  [("null", .null), ("true", .bool true), ("false", .bool false), ("NaN", .float Double.nan),
    ("Infinity", .float (Double.infinity false)), ("-Infinity", .float (Double.infinity true))]

/-- A name at the front of a text, and the rest. -/
def readName? (s : Text) : Option (Datum × Text) :=
  (names.find? fun n => (Text.lit n.1).isPrefixOf s).map fun n => (n.2, s.drop n.1.length)

/-- The dictionary of entries under texts. -/
def dictionary (entries : List (Text × Datum)) : Datum :=
  .map ((Attrs.putAll [] entries).map fun a => (.text a.1, a.2))

mutual

/-- A datum at the front of a text and the rest. -/
def readDatum : Nat → Text → Except ReadError (Datum × Text)
  | 0, _ => .error .malformed
  | _ + 1, [] => .error .malformed
  | fuel + 1, c :: r =>
    if c.is '"' then
      match readString? r with
      | some (t, rest) => .ok (.text t, rest)
      | none => .error .malformed
    else if c.is '[' then
      match skipBlanks r with
      | d :: r => if d.is ']' then .ok (.list [], r) else
        (readItems fuel (d :: r)).map fun (xs, rest) => (.list xs, rest)
      | [] => .error .malformed
    else if c.is '\x7b' then
      match skipBlanks r with
      | d :: r => if d.is '\x7d' then .ok (.map [], r) else
        (readEntries fuel (d :: r)).map fun (es, rest) => (dictionary es, rest)
      | [] => .error .malformed
    else
      match readName? (c :: r) with
      | some found => .ok found
      | none => readNumber (c :: r)

/-- The items of an array up to its closing bracket. -/
def readItems : Nat → Text → Except ReadError (List Datum × Text)
  | 0, _ => .error .malformed
  | fuel + 1, s => do
    let (x, r) ← readDatum fuel s
    match skipBlanks r with
    | [] => .error .malformed
    | c :: r =>
      if c.is ']' then return ([x], r)
      else if c.is ',' then
        let (xs, rest) ← readItems fuel (skipBlanks r)
        return (x :: xs, rest)
      else .error .malformed

/-- The entries of an object up to its closing brace. -/
def readEntries : Nat → Text → Except ReadError (List (Text × Datum) × Text)
  | 0, _ => .error .malformed
  | _ + 1, [] => .error .malformed
  | fuel + 1, q :: r => do
    if !q.is '"' then .error .malformed
    else
      match readString? r with
      | none => .error .malformed
      | some (k, r) =>
        match skipBlanks r with
        | [] => .error .malformed
        | c :: r =>
          if !c.is ':' then .error .malformed
          else
            let (d, r) ← readDatum fuel (skipBlanks r)
            match skipBlanks r with
            | [] => .error .malformed
            | c :: r =>
              if c.is '\x7d' then return ([(k, d)], r)
              else if c.is ',' then
                let (es, rest) ← readEntries fuel (skipBlanks r)
                return ((k, d) :: es, rest)
              else .error .malformed

end

/-- Reads a text as one datum with blanks around it. -/
def readText (s : Text) : Except ReadError Datum := do
  let (d, r) ← readDatum (2 * s.length + 2) (skipBlanks s)
  if skipBlanks r = [] then return d else .error .malformed

/-- Reads bytes as one datum. -/
def read (bs : Bytes) : Except ReadError Datum :=
  match decode? bs with
  | none => .error .malformed
  | some s => readText s

end LogStream.Json
