import LogStream.Text.Case
import LogStream.Text.Quoted

/-! # Levels

A level has a number, by which it is written, and a severity, by which it is compared: `debug` has
the greatest number and the least severity of the levels that are set. -/

namespace LogStream

inductive Level
  | unset
  | info
  | warn
  | error
  | debug
deriving DecidableEq, Repr, Inhabited

namespace Level

/-- All levels in the order of their numbers. -/
def all : List Level := [unset, info, warn, error, debug]

/-- The number by which a level is written. -/
def number : Level → Nat
  | unset => 0
  | info => 1
  | warn => 2
  | error => 3
  | debug => 4

/-- The place of a level in thresholds. -/
def severity : Level → Nat
  | unset => 0
  | debug => 10
  | info => 20
  | warn => 30
  | error => 40

def name : Level → String
  | unset => "UNSET"
  | info => "INFO"
  | warn => "WARN"
  | error => "ERROR"
  | debug => "DEBUG"

/-- The level of a number. -/
def ofNumber? (n : Int) : Option Level := all.find? fun l => (l.number : Int) == n

/-- A name in upper case, if that is ASCII. -/
def upper? (name : Text) : Option String := (name.mapM CodePoint.upperToAscii?).map String.join

/-- The level of a name in any case; `WARNING` is another name of `warn`. -/
def ofName? (name : Text) : Option Level :=
  match upper? name with
  | none => none
  | some u => if u = "WARNING" then some warn else all.find? fun l => l.name == u

/-- The wording for a name that is no level's. -/
def unknownMessage (name : Text) : Text := Text.lit "unknown level: " ++ Text.quoted name

/-- The level of a threshold number: forty and more are errors, thirty and more warnings, twenty and
more information. -/
def ofThreshold (n : Int) : Level :=
  if 40 ≤ n then error else if 30 ≤ n then warn else if 20 ≤ n then info else debug

/-- A level is emitted where the given one is the least to be emitted. -/
def enabled (least l : Level) : Bool := least.severity ≤ l.severity

end Level

/-- What stands where a level is expected: a level, or a bare number, which is written as it is and
has neither name nor severity. -/
inductive LevelMark
  | level (l : Level)
  | number (n : Int)
deriving DecidableEq, Repr

namespace LevelMark

instance : Inhabited LevelMark := ⟨level .unset⟩

/-- The number that is written. -/
def code : LevelMark → Int
  | level l => l.number
  | number n => n

def level? : LevelMark → Option Level
  | level l => some l
  | number _ => none

end LevelMark

end LogStream
