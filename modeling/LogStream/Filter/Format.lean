import LogStream.Filter.Convert
import LogStream.Filter.Literal

/-! # Formatting

A template is text with clauses: a percent sign, an optional precision and a verb. A clause takes the next
argument, `%%` stands for the sign itself. -/

namespace LogStream.Filter.Dyn

/-! ### One argument -/

/-- A double that is no finite number, by name. -/
def nonFiniteText (x : Double) : Text :=
  Text.lit (if x.isNaN then "NaN" else if x.isNegative then "-Infinity" else "Infinity")

/-- The greatest precision that may be asked for. -/
def maxPrecision : Nat := 2147483647

/-- A double with a fixed number of places, plain or in scientific form. -/
def doubleText (scientific : Bool) (precision : Nat) (x : Double) : Eval Text :=
  if !x.isFinite then .ok (nonFiniteText x)
  else if maxPrecision < precision then Eval.stop .badValue
  else .ok (if scientific then x.toScientific precision else x.toFixed precision)

mutual

/-- The text of a value; strings are quoted within lists and maps. -/
def formatText (nested : Bool) : Dyn → Eval Text
  | .string t => .ok (if nested then writeString t else t)
  | .null => .ok (Text.lit "null")
  | .list xs => do
    let ts ← formatTexts xs
    return Text.lit "[" ++ Text.commaList ts ++ Text.lit "]"
  | .map es => do
    let ts ← formatEntries es
    return Text.lit "\x7b" ++ Text.commaList ts ++ Text.lit "\x7d"
  | .double x => .ok (if x.isFinite then x.toText else nonFiniteText x)
  | v => text v
termination_by structural v => v

def formatTexts : List Dyn → Eval (List Text)
  | [] => .ok []
  | x :: xs => do
    let t ← formatText true x
    let ts ← formatTexts xs
    return t :: ts
termination_by structural xs => xs

def formatEntries : List (Dyn × Dyn) → Eval (List Text)
  | [] => .ok []
  | (k, v) :: es => do
    let s ← formatText true k
    let t ← formatText true v
    let ts ← formatEntries es
    return (s ++ Text.lit ": " ++ t) :: ts
termination_by structural es => es

end

/-- The verbs of integers and their bases. -/
def bases : List (Char × Nat) := [('d', 10), ('b', 2), ('o', 8), ('x', 16), ('X', 16)]

/-- An integer in a base, or the bytes of a string in base sixteen. -/
def integerText (verb : CodePoint) (base : Nat) (v : Dyn) : Eval Text :=
  let cased (t : Text) : Text := if verb.is 'X' then Text.upperAscii t else t
  let hexBytes (bs : Bytes) : Text := cased (bs.flatMap fun b => Text.hex 2 b.toNat)
  match v with
  | int n =>
    if base = 10 ∧ !(int n).isPrintable then Eval.stop .badValue
    else .ok (cased (Text.ofIntBase base n))
  | string t =>
    if base = 16 then (utf8 t).map hexBytes else Eval.fail (.notAnInteger [verb] v.typeName)
  | bytes bs =>
    if base = 16 then .ok (hexBytes bs) else Eval.fail (.notAnInteger [verb] v.typeName)
  | v => Eval.fail (.notAnInteger [verb] v.typeName)

/-! ### Clauses -/

/-- A verb, none at the end of a template, and the digits of the precision in front of it. -/
structure Clause where
  precision : Option Text
  verb : Text
deriving DecidableEq

/-- The clause behind a percent sign. -/
def readClause (t : Text) : Clause :=
  let digits := if (t.take 1).any (·.is '.') then (t.drop 1).takeWhile CodePoint.isDecimal else []
  if digits = [] then ⟨none, t.take 1⟩
  else ⟨some digits, (t.drop (digits.length + 1)).take 1⟩

/-- How much of a template a clause takes behind the percent sign. -/
def Clause.length (c : Clause) : Nat := c.precision.elim 0 (·.length + 1) + c.verb.length

/-- The clause stands for a percent sign. -/
def Clause.isPercent (c : Clause) : Bool := c.precision.isNone && c.verb == Text.lit "%"

/-- The places that a clause asks for. -/
def Clause.places (c : Clause) : Eval Nat :=
  match c.precision with
  | none => .ok 6
  | some digits => (Text.readInt? digits).elim (Eval.stop .badValue) fun n => .ok n.toNat

/-- How a verb writes an argument. -/
inductive Style
  | shown
  | double (scientific : Bool)
  | integer (base : Nat)
deriving DecidableEq

/-- The style of a verb. -/
def style? (verb : CodePoint) : Option Style :=
  if verb.is 's' then some .shown
  else if verb.is 'f' then some (.double false)
  else if verb.is 'e' then some (.double true)
  else (bases.find? fun b => verb.is b.1).map fun b => .integer b.2

/-- The text of an argument in a clause. -/
def Clause.text (c : Clause) (verb : CodePoint) (style : Style) (arg : Dyn) : Eval Text :=
  match style with
  | .shown => formatText false arg
  | .integer base => integerText verb base arg
  | .double scientific =>
    match arg.number? with
    | none => Eval.fail (.notANumber [verb] arg.typeName)
    | some x => do
      let x ← ofNumber x
      doubleText scientific (← c.places) x

/-- The style of the verb of a clause, and the verb. -/
def Clause.style? (c : Clause) : Option (CodePoint × Style) :=
  match c.verb with
  | [verb] => (Dyn.style? verb).map fun s => (verb, s)
  | _ => none

/-- A template with its clauses filled in from the arguments that are left; `skip` code points of a
clause are still to be passed over. -/
def fillFrom (used skip : Nat) (args : List Dyn) : Text → Eval Text
  | [] => .ok []
  | c :: r =>
    if skip ≠ 0 then fillFrom used (skip - 1) args r
    else if c.is '%' then
      let clause := readClause r
      if clause.isPercent then do return c :: (← fillFrom used clause.length args r)
      else
        match clause.style?, args with
        | none, _ => Eval.fail (.unknownClause clause.verb)
        | some _, [] => Eval.fail (.missingArgument used)
        | some (verb, style), arg :: rest => do
          let t ← clause.text verb style arg
          return t ++ (← fillFrom (used + 1) clause.length rest r)
    else do return c :: (← fillFrom used 0 args r)

/-- A template with its clauses filled in. -/
def format (template args : Dyn) : Eval Dyn :=
  match template, args with
  | string t, list xs => do return string (← fillFrom 0 0 xs t)
  | string t, v => Eval.noOverload "format" [string t, v]
  | v, _ => Eval.noOverload "format" [v]

end LogStream.Filter.Dyn
