import LogStream.Text.Classes

/-! # Tokens

An expression is cut into tokens from the left. At each place the classes of lexemes are tried in a
fixed order, and the first class that has a lexeme there gives the longest one it has. Blank space and
comments are lexemes without a token. -/

namespace LogStream.Filter

/-- The classes of tokens. -/
inductive TokenKind
  | string
  | float
  | int
  | ident
  | op
deriving DecidableEq, Repr

namespace TokenKind

def name : TokenKind → String
  | string => "string"
  | float => "float"
  | int => "int"
  | ident => "ident"
  | op => "op"

end TokenKind

/-- A piece of an expression and where it starts. -/
structure Token where
  kind : TokenKind
  text : Text
  pos : Nat
deriving DecidableEq

/-! ### Lexemes

Each class has a function that gives the length of its lexeme at the front of a text, zero if there
is none. -/

/-- The length of the longest front of which all code points satisfy a test. -/
def runLength (p : CodePoint → Bool) (t : Text) : Nat := (t.takeWhile p).length

/-- White space, or a comment up to the end of its line. -/
def blankLength (t : Text) : Nat :=
  match t with
  | [] => 0
  | c :: r =>
    if c.isSpace then runLength CodePoint.isSpace t
    else if (Text.lit "//").isPrefixOf t then 1 + runLength (fun c => !c.is '\n') r
    else 0

/-- The length up to and with the next three quotes. -/
def toTripleQuote? (quote : CodePoint) : Text → Option Nat
  | [] => none
  | c :: r =>
    if c = quote ∧ [quote, quote].isPrefixOf r then some 3
    else (toTripleQuote? quote r).map (· + 1)

/-- The length up to and with the next quote on the line that is not escaped. -/
def toQuote? (quote : CodePoint) : Text → Option Nat
  | [] => none
  | c :: r =>
    if c.is '\\' then
      match r with
      | [] => none
      | d :: r' => if d.is '\n' then none else (toQuote? quote r').map (· + 2)
    else if c = quote then some 1
    else if c.is '\n' then none
    else (toQuote? quote r).map (· + 1)

/-- The length of a text between three quotes. -/
def tripleQuoted? (quote : CodePoint) (t : Text) : Option Nat :=
  if [quote, quote, quote].isPrefixOf t then (toTripleQuote? quote (t.drop 3)).map (· + 3) else none

/-- The length of a text between single quotes. -/
def singleQuoted? (quote : CodePoint) (t : Text) : Option Nat :=
  if [quote].isPrefixOf t then (toQuote? quote (t.drop 1)).map (· + 1) else none

/-- A quoted text with up to two letters in front that say how to read it. -/
def stringLength (t : Text) : Nat :=
  let letters := runLength (·.isIn "rRbB") (t.take 2)
  let body := t.drop letters
  let single := CodePoint.ofChar '\''
  let double := CodePoint.ofChar '"'
  match tripleQuoted? single body <|> tripleQuoted? double body <|> singleQuoted? single body <|>
      singleQuoted? double body with
  | some n => letters + n
  | none => 0

/-- The letter, the sign and the digits of an exponent. -/
def exponentLength : Text → Nat
  | [] => 0
  | c :: r =>
    if c.isIn "eE" then
      let sign := if (r.take 1).any (·.isIn "+-") then 1 else 0
      let digits := runLength CodePoint.isDecimal (r.drop sign)
      if digits = 0 then 0 else 1 + sign + digits
    else 0

/-- The point and the digits of a fraction. -/
def fractionLength : Text → Nat
  | [] => 0
  | c :: r =>
    let digits := if c.is '.' then runLength CodePoint.isDecimal r else 0
    if digits = 0 then 0 else 1 + digits

/-- Digits with a fraction or an exponent or both. -/
def floatLength (t : Text) : Nat :=
  let digits := runLength CodePoint.isDecimal t
  let fraction := fractionLength (t.drop digits)
  let exponent := exponentLength (t.drop (digits + fraction))
  if digits = 0 ∨ fraction + exponent = 0 then 0 else digits + fraction + exponent

/-- The mark of an unsigned integer. -/
def unsignedLength (t : Text) : Nat := if (t.take 1).any (·.isIn "uU") then 1 else 0

/-- The length of a numeral in base sixteen, its mark included. -/
def hexLength : Text → Nat
  | z :: x :: r =>
    let digits := if z.is '0' && x.isIn "xX" then runLength CodePoint.isHexDigit r else 0
    if digits = 0 then 0 else 2 + digits
  | _ => 0

/-- A numeral and the mark of an unsigned integer. -/
def intLength (t : Text) : Nat :=
  let hex := hexLength t
  let digits := if hex = 0 then runLength CodePoint.isDecimal t else hex
  if digits = 0 then 0 else digits + unsignedLength (t.drop digits)

/-- A letter or the low line. -/
def startsName (c : CodePoint) : Bool := c.isAsciiLetter || c.is '_'

/-- Part of a name: a digit may follow the first letter. -/
def continuesName (c : CodePoint) : Bool := startsName c || c.isAsciiDigit

/-- A name in ASCII. -/
def identLength (t : Text) : Nat :=
  if (t.take 1).any startsName then runLength continuesName t else 0

/-- The operators of two characters. -/
def longOps : List String := ["==", "!=", "<=", ">=", "&&", "||", ".?", "[?"]

/-- The operators and brackets of one character. -/
def shortOps : String := "-+*/%<>!?:.,()[]\x7b\x7d"

def opLength (t : Text) : Nat :=
  if longOps.any fun op => (Text.lit op).isPrefixOf t then 2
  else if (t.take 1).any (·.isIn shortOps) then 1
  else 0

/-- The lexeme at the front of a text: its class, none for blank space, and its length. -/
def lexeme? (t : Text) : Option (Option TokenKind × Nat) :=
  [(none, blankLength t), (some .string, stringLength t), (some .float, floatLength t),
    (some .int, intLength t), (some .ident, identLength t), (some .op, opLength t)].find?
    fun l => l.2 != 0

/-! ### Texts as tokens -/

/-- The tokens of a text that starts with a lexeme, given those behind it for the number of code
points that belong to the lexeme still; without a lexeme all of the text is left. -/
def lexBehind (pos : Nat) (t : Text) (lexeme : Option (Option TokenKind × Nat))
    (behind : Nat → List Token × Text) : List Token × Text :=
  match lexeme with
  | none => ([], t)
  | some (none, n) => behind (n - 1)
  | some (some kind, n) =>
    let (tokens, rest) := behind (n - 1)
    (⟨kind, t.take n, pos⟩ :: tokens, rest)

/-- The tokens from a place on, and what is left where no class has a lexeme; `skip` code points of a
lexeme are still to be passed over. -/
def lexFrom (pos skip : Nat) : Text → List Token × Text
  | [] => ([], [])
  | c :: r =>
    if skip ≠ 0 then lexFrom (pos + 1) (skip - 1) r
    else lexBehind pos (c :: r) (lexeme? (c :: r)) fun n => lexFrom (pos + 1) n r

/-- The tokens of a text, and what is left where no class has a lexeme. -/
def lex (t : Text) : List Token × Text := lexFrom 0 0 t

end LogStream.Filter
