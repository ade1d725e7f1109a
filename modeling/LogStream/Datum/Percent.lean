import LogStream.Datum.Display

/-! # Percent templates

A template is text with directives: a percent sign, an optional key in parentheses, flags, a width, a
precision and a verb. Each directive takes the next datum of a supply, or the one under its key; what
the verb makes of it is padded to the width. A template that does not fit its supply gives nothing,
and neither does one that leaves over data of a supply without keys. -/

namespace LogStream.Percent

/-- The data that directives take: those that are left, and the one that keys are looked up in. -/
structure Supply where
  items : List Datum
  keyed : Option Datum := none

namespace Supply

/-- The supply of a datum: the items of a tuple, or the datum alone. -/
def ofDatum : Datum → Supply
  | .tuple xs => ⟨xs, none⟩
  | .map es => ⟨[.map es], some (.map es)⟩
  | .list xs => ⟨[.list xs], some (.list xs)⟩
  | .bytes bs => ⟨[.bytes bs], some (.bytes bs)⟩
  | d => ⟨[d], none⟩

/-- Takes the next datum. -/
def take? (s : Supply) : Option (Datum × Supply) :=
  match s.items with
  | [] => none
  | d :: items => some (d, { s with items })

/-- Makes the datum under a key the only one to take. -/
def select? (s : Supply) (key : Text) : Option Supply :=
  match s.keyed with
  | some (.map es) =>
    (es.find? fun e => (Datum.text key).same e.1).map fun e => { s with items := [e.2] }
  | _ => none

/-- Nothing that has to be taken is left over. -/
def isSpent (s : Supply) : Bool := s.keyed.isSome || s.items.isEmpty

end Supply

/-- How a directive lays out what its verb makes. -/
structure Layout where
  left : Bool := false
  plus : Bool := false
  blank : Bool := false
  alternate : Bool := false
  zeros : Bool := false
  width : Nat := 0
  precision : Option Nat := none
deriving DecidableEq, Repr

namespace Layout

/-- The layout with the flag of a character, if it is one. -/
def flag? (l : Layout) (c : CodePoint) : Option Layout :=
  if c.is '-' then some { l with left := true }
  else if c.is '+' then some { l with plus := true }
  else if c.is ' ' then some { l with blank := true }
  else if c.is '#' then some { l with alternate := true }
  else if c.is '0' then some { l with zeros := true }
  else none

end Layout

/-! ### Reading directives -/

/-- The text up to the parenthesis that closes the open ones, and the rest. -/
def readKey? : Nat → Text → Option (Text × Text)
  | _, [] => none
  | depth, c :: r =>
    let inner (depth : Nat) := (readKey? depth r).map fun (k, rest) => (c :: k, rest)
    if c.is '(' then inner (depth + 1)
    else if c.is ')' then
      match depth with
      | 0 => some ([], r)
      | depth + 1 => inner depth
    else inner depth

/-- The layout with the flags at the front of a text, and the rest. -/
def readFlags (l : Layout) : Text → Layout × Text
  | [] => (l, [])
  | c :: r =>
    match l.flag? c with
    | some l => readFlags l r
    | none => (l, c :: r)

/-- The greatest width or precision. -/
def maxSize : Nat := 2147483647

/-- A size at the front of a text, or a star that takes it from the supply, and what is left of
both. -/
def readSize? (s : Supply) (t : Text) : Option (Option Int × Supply × Text) :=
  match t with
  | [] => some (none, s, [])
  | c :: r =>
    if c.is '*' then
      match s.take? with
      | some (.int n, s) => if n.natAbs < maxSize then some (some n, s, r) else none
      | some (.bool b, s) => some (some (if b then 1 else 0), s, r)
      | _ => none
    else
      let ds := t.takeWhile CodePoint.isAsciiDigit
      let n := Text.numberOf 10 (ds.map fun d => d.val - 48)
      if ds.isEmpty then some (none, s, t)
      else if maxSize ≤ n then none
      else some (some n, s, t.drop ds.length)

/-- The layout with its width, and what is left. -/
def readWidth? (l : Layout) (s : Supply) (t : Text) : Option (Layout × Supply × Text) :=
  (readSize? s t).map fun (n, s, t) =>
    match n with
    | none => (l, s, t)
    | some n => ({ l with left := l.left || n < 0, width := n.natAbs }, s, t)

/-- The layout with its precision, and what is left. -/
def readPrecision? (l : Layout) (s : Supply) (t : Text) : Option (Layout × Supply × Text) :=
  match t with
  | [] => some (l, s, [])
  | c :: r =>
    if c.is '.' then
      (readSize? s r).map fun (n, s, t) => ({ l with precision := some (n.getD 0).toNat }, s, t)
    else some (l, s, t)

/-! ### Verbs -/

/-- What a verb makes: a sign and a base mark, which stand in front of zeros, and the rest. -/
structure Made where
  sign : Text := []
  mark : Text := []
  body : Text
  /-- The body is a number, so that zeros may pad it. -/
  isNumber : Bool := false

/-- Pads what a verb made. -/
def Made.pad (l : Layout) (m : Made) : Text :=
  let fill := l.width - (m.sign.length + m.mark.length + m.body.length)
  let blanks := List.replicate fill (CodePoint.ofChar ' ')
  if l.left then m.sign ++ m.mark ++ m.body ++ blanks
  else if l.zeros && m.isNumber then
    m.sign ++ m.mark ++ List.replicate fill (CodePoint.ofChar '0') ++ m.body
  else blanks ++ m.sign ++ m.mark ++ m.body

/-- The sign of a number. -/
def signText (l : Layout) (negative : Bool) : Text :=
  Text.lit (if negative then "-" else if l.plus then "+" else if l.blank then " " else "")

/-- A text cut to the precision. -/
def madeText (l : Layout) (t : Text) : Made :=
  { body := match l.precision with
      | none => t
      | some n => t.take n }

/-- What is not ASCII written as escapes. -/
def asciiOnly (t : Text) : Text := t.flatMap fun c => if c.isAscii then [c] else Text.numberedEscape c

/-- A datum as an integer; a double loses its fraction. -/
def wholeNumber? : Datum → Option Int
  | .bool b => some (if b then 1 else 0)
  | .int n => some n
  | .float x => if x.isFinite then some x.truncate else none
  | _ => none

/-- A datum that is an integer. -/
def integer? : Datum → Option Int
  | .bool b => some (if b then 1 else 0)
  | .int n => some n
  | _ => none

/-- An integer in a base, with at least as many digits as the precision says. -/
def madeInteger (l : Layout) (base : Nat) (mark : String) (n : Int) : Made :=
  { sign := signText l (n < 0),
    mark := if l.alternate then Text.lit mark else [],
    body := Text.padLeft (CodePoint.ofChar '0') (l.precision.getD 0) (Text.ofNatBase base n.natAbs),
    isNumber := true }

/-- A datum as a double. -/
def double? (d : Datum) : Option Double :=
  match d.number? with
  | some (.int n) => Double.ofInt? n
  | some (.double x) => some x
  | none => none

/-- Digits in one of the forms of a double. -/
def doubleBody (l : Layout) (verb : CodePoint) (x : Double) : Text :=
  let places := l.precision.getD 6
  let point (t : Text) : Text := if l.alternate && places = 0 then t ++ Text.lit "." else t
  if verb.isIn "fF" then point (x.toFixed places)
  else if verb.isIn "eE" then
    let d := x.rounded (places + 1)
    point (Decimal.digitText (d.digits.take 1)) ++
      (if places = 0 then [] else Text.lit "." ++ Decimal.digitText (d.digits.drop 1)) ++
      Decimal.exponentText d.exponent
  else
    let count := max 1 places
    let d := x.rounded count
    let s := if l.alternate then d else d.dropZeros
    let point (t : Text) : Text :=
      if l.alternate && !t.any (·.is '.') then t ++ Text.lit "." else t
    if -4 ≤ d.exponent ∧ d.exponent < count then point (s.positional 0)
    else
      point (Decimal.digitText (s.digits.take 1) ++
        (if s.digits.length ≤ 1 then [] else Text.lit "." ++ Decimal.digitText (s.digits.drop 1))) ++
        Decimal.exponentText s.exponent

def madeDouble (l : Layout) (verb : CodePoint) (x : Double) : Made :=
  let body :=
    if x.isNaN then Text.lit "nan"
    else if x.isInfinite then Text.lit "inf"
    else doubleBody l verb x.abs
  { sign := signText l (x.isNegative && !x.isNaN),
    body := if verb.isAsciiUpper then Text.upperAscii body else body,
    isNumber := true }

/-- One character: a text of one, or a code point. -/
def character? : Datum → Option CodePoint
  | .text [c] => some c
  | .int n => if 0 ≤ n ∧ n < 0x110000 then some (CodePoint.ofNat n.toNat) else none
  | .bool b => some (CodePoint.ofNat (if b then 1 else 0))
  | _ => none

/-- What a verb makes of a datum. -/
def make? (l : Layout) (verb : CodePoint) (d : Datum) : Option Made :=
  if verb.isIn "sra" then
    if !d.isPrintable then none
    else if verb.is 's' then some (madeText l d.display)
    else if verb.is 'r' then some (madeText l d.shown)
    else some (madeText l (asciiOnly d.shown))
  else if verb.isIn "diu" then
    (wholeNumber? d).bind fun n =>
      if (Datum.int n).isPrintable then some (madeInteger l 10 "" n) else none
  else if verb.is 'o' then (integer? d).map (madeInteger l 8 "0o")
  else if verb.is 'x' then (integer? d).map (madeInteger l 16 "0x")
  else if verb.is 'X' then
    (integer? d).map fun n =>
      let m := madeInteger l 16 "0X" n
      { m with body := Text.upperAscii m.body }
  else if verb.isIn "eEfFgG" then (double? d).map (madeDouble l verb)
  else if verb.is 'c' then (character? d).map fun c => { body := [c] }
  else none

/-! ### Templates -/

/-- One directive behind its percent sign, if that is not doubled: what it writes, and what is left of
supply and template. -/
def directive? (s : Supply) (t : Text) : Option (Text × Supply × Text) := do
  let (s, t) ← match t with
    | c :: r =>
      if c.is '(' then
        let (key, r) ← readKey? 0 r
        let s ← s.select? key
        pure (s, r)
      else pure (s, t)
    | [] => pure (s, [])
  let (l, t) := readFlags {} t
  let (l, s, t) ← readWidth? l s t
  let (l, s, t) ← readPrecision? l s t
  let t := match t with
    | c :: r => if c.isIn "hlL" then r else t
    | [] => []
  match t with
  | [] => none
  | verb :: t =>
    let (d, s) ← s.take?
    let m ← make? l verb d
    return (m.pad l, s, t)

/-- Writes out a template; the fuel bounds its directives. -/
def expand? : Nat → Supply → Text → Option Text
  | _, s, [] => if s.isSpent then some [] else none
  | 0, _, _ => none
  | fuel + 1, s, c :: r =>
    if c.is '%' then
      match r with
      | [] => none
      | c' :: r' =>
        if c'.is '%' then (expand? fuel s r').map (c' :: ·)
        else
          match directive? s r with
          | none => none
          | some (t, s, r) => (expand? fuel s r).map (t ++ ·)
    else (expand? fuel s r).map (c :: ·)

/-- Writes out a template over the supply of a datum. -/
def format? (template : Text) (d : Datum) : Option Text :=
  expand? template.length (Supply.ofDatum d) template

end LogStream.Percent
