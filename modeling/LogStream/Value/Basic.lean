import LogStream.Fault
import LogStream.Number.Decimal
import LogStream.Datum.Display

/-! # Making values

Each datum has a value that it is logged as, and each kind of value can be asked for by name: an
integer has to fit its kind, other data are converted where there is a conversion. -/

namespace LogStream

namespace Kind

/-- The kind of an integer: signed if it fits, else unsigned, else any. -/
def ofInt (n : Int) : Kind :=
  if int64Min ≤ n ∧ n ≤ int64Max then int else if 0 ≤ n ∧ n ≤ uint64Max then uint else any

end Kind

mutual

/-- The value that a datum is logged as. -/
def Value.ofDatum : Datum → Value
  | .null => .empty
  | .bool b => .held .bool (.bool b)
  | .int n => .held (Kind.ofInt n) (.int n)
  | .float x => .held .float (.float x)
  | .text t => .held .string (.text t)
  | .time t => .held .time (.time t)
  | .duration d => .held .duration (.duration d)
  | .map es => .group (Value.membersOf es)
  | .value v => v
  | .lazy d => .held .lazy (.lazy d)
  | .loop => .held .lazy .loop
  | .broken => .held .lazy .broken
  | d => .held .any d
termination_by structural d => d

/-- The entries of a dictionary as members, each key as it is shown. -/
def Value.membersOf : List (Datum × Datum) → List (Text × Value)
  | [] => []
  | (k, d) :: es => (k.display, Value.ofDatum d) :: Value.membersOf es
termination_by structural es => es

end

/-- Why a value cannot be made. -/
inductive MakeError
  | doesNotFit (shown : Text) (target : String)
  | notAGroup (kind : String)
  | fault (f : Fault)
deriving DecidableEq, Repr

namespace MakeError

/-- The wording of an error; a fault has none. -/
def message? : MakeError → Option Text
  | doesNotFit shown target => some (shown ++ Text.lit " does not fit in " ++ Text.lit target)
  | notAGroup kind => some (Text.lit s!"value of kind {kind} is not a group")
  | fault _ => none

end MakeError

namespace Value

/-- A datum is a number within bounds. -/
def inBounds (low high : Int) (x : Number) : Bool :=
  match Number.compare? (.int low) x, Number.compare? x (.int high) with
  | some l, some h => l != .gt && h != .gt
  | _, _ => false

/-- The whole part of a number, toward zero. -/
def wholePart : Number → Int
  | .int n => n
  | .double x => x.truncate

/-- A number within bounds as an integer of a kind. -/
def ofBounded (kind : Kind) (target : String) (low high : Int) (d : Datum) :
    Except MakeError Value :=
  match d.number? with
  | none => .error (.fault .wrongType)
  | some x =>
    if inBounds low high x then .ok (held kind (.int (wholePart x)))
    else if d.isPrintable then .error (.doesNotFit d.display target)
    else .error (.fault .badValue)

def ofBool (d : Datum) : Value := held .bool (.bool d.truth)

def ofSigned (d : Datum) : Except MakeError Value := ofBounded .int "int64" int64Min int64Max d

def ofUnsigned (d : Datum) : Except MakeError Value := ofBounded .uint "uint64" 0 uint64Max d

/-- A datum read as a double: a number, or the numeral that a text or its ASCII bytes hold. -/
def readDouble (d : Datum) : Except Fault Double :=
  match d.number? with
  | some (.int n) => (Double.ofInt? n).elim (.error .overflow) .ok
  | some (.double x) => .ok x
  | none =>
    match d with
    | .text t => (Double.read? t).elim (.error .badValue) .ok
    | .bytes bs =>
      if bs.all (·.toNat < 128) then
        (Double.read? (bs.map fun b => CodePoint.ofNat b.toNat)).elim (.error .badValue) .ok
      else .error .badValue
    | _ => .error .wrongType

def ofFloat (d : Datum) : Except MakeError Value :=
  match readDouble d with
  | .ok x => .ok (held .float (.float x))
  | .error f => .error (.fault f)

/-- Any datum as a string, as it is shown. -/
def ofShown (d : Datum) : Except MakeError Value :=
  if d.isPrintable then .ok (held .string (.text d.display)) else .error (.fault .badValue)

def ofTime (d : Datum) : Value := held .time d

def ofDuration (d : Datum) : Value := held .duration d

/-- The members of a group. -/
def members : Value → Except MakeError (List Attr)
  | group ms => .ok ms
  | empty => .error (.notAGroup "empty")
  | held k _ => .error (.notAGroup k.name)
  | foreign _ => .error (.fault .noAttribute)

/-- No variant is set. -/
def isEmpty : Value → Bool
  | empty => true
  | _ => false

/-- The datum that a value of one of the plain kinds holds. -/
def payload : Value → Datum
  | held _ d => d
  | _ => .null

end Value

namespace Attr

/-- An attribute of any datum. -/
def ofDatum (key : Text) (d : Datum) : Attr := (key, Value.ofDatum d)

/-- A group of attributes and of named data under a key; nothing can be named `key`, as the key itself
is. -/
def group? (key : Text) (attrs : List Attr) (named : List (Text × Datum)) : Option Attr :=
  if named.any fun a => a.1 == Text.lit "key" then none
  else some (key, .group (attrs ++ named.map fun a => ofDatum a.1 a.2))

end Attr

end LogStream
