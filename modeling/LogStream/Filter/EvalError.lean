import LogStream.Fault
import LogStream.Filter.Dyn

/-! # Why an expression has no value

An error has a cause of the language. A fault is a failure of an operation below the language; within a
call, a fault about types becomes an error of the call, and a program as a whole turns most faults into
errors. -/

namespace LogStream.Filter

/-- Why an expression has no value. -/
inductive EvalError
  | noOverload (name : String) (types : List String)
  | noSuchAttribute (name : Text)
  | noSelection (typeName : String)
  | noSuchKey (shown : Text)
  | indexOutOfBounds (shown : Text)
  | duplicateKey (shown : Text)
  | notIterable (typeName : String)
  | callFailed (function : Text)
  -- Numbers.
  | integerOverflow
  | overflow (typeName : String)
  | divisionByZero
  | modulusByZero
  | noArguments (name : String)
  | negativeOffset (name : String) (n : Int)
  -- Conversions.
  | doubleOutOfRange
  | intOverflow
  | uintOverflow
  | notConvertible (shown : Text) (target : String)
  | notUtf8
  | badTimestamp (t : Text)
  | timestampWithoutZone (t : Text)
  | badDuration (t : Text)
  | unknownZone (t : Text)
  | badBase64
  -- Strings and lists.
  | indexOutOfRange (n : Int)
  | substringOutOfRange (start stop : Int)
  | sliceOutOfRange (start stop : Int)
  | negativeDepth
  | notOrderable (name : String) (types : List String)
  | emptyOptional
  | unknownClause (verb : Text)
  | missingArgument (index : Nat)
  | notAnInteger (verb : Text) (typeName : String)
  | notANumber (verb : Text) (typeName : String)
  /-- A pattern that is none, or that uses a construct that is not supported. -/
  | badPattern (pattern : Text) (construct : Option String)
  -- Programs.
  | programFailed
  | badOutput (typeName : String)
deriving DecidableEq

/-- An error of the language or a fault in an operation below it. -/
inductive EvalFailure
  | error (e : EvalError)
  | fault (f : Fault)
deriving DecidableEq

/-- What an evaluation gives. -/
abbrev Eval (α : Type) := Except EvalFailure α

namespace EvalError

def message : EvalError → Text
  | noOverload name types =>
    Text.lit s!"no such overload: {name}(" ++ Text.commaList (types.map Text.lit) ++ Text.lit ")"
  | noSuchAttribute name => Text.lit "no such attribute: " ++ name
  | noSelection typeName => Text.lit s!"type '{typeName}' does not support field selection"
  | noSuchKey shown => Text.lit "no such key: " ++ shown
  | indexOutOfBounds shown => Text.lit "index out of bounds: " ++ shown
  | duplicateKey shown => Text.lit "duplicate map key: " ++ shown
  | notIterable typeName => Text.lit s!"cannot iterate over {typeName}"
  | callFailed function => Text.lit "error calling " ++ function
  | integerOverflow => Text.lit "integer overflow"
  | overflow typeName => Text.lit s!"{typeName} overflow"
  | divisionByZero => Text.lit "division by zero"
  | modulusByZero => Text.lit "modulus by zero"
  | noArguments name => Text.lit s!"{name}() requires at least one argument"
  | negativeOffset name n => Text.lit s!"{name}: negative offset: " ++ Text.ofInt n
  | doubleOutOfRange => Text.lit "double is out of int range"
  | intOverflow => Text.lit "int overflow"
  | uintOverflow => Text.lit "uint overflow"
  | notConvertible shown target =>
    Text.lit "cannot convert " ++ shown ++ Text.lit s!" to {target}"
  | notUtf8 => Text.lit "bytes are not valid UTF-8"
  | badTimestamp t => Text.lit "invalid timestamp: " ++ Text.quoted t
  | timestampWithoutZone t => Text.lit "timestamp requires a time zone: " ++ Text.quoted t
  | badDuration t => Text.lit "invalid duration: " ++ Text.quoted t
  | unknownZone t => Text.lit "unknown time zone: " ++ Text.quoted t
  | badBase64 => Text.lit "invalid base64 input"
  | indexOutOfRange n => Text.lit "index out of range: " ++ Text.ofInt n
  | substringOutOfRange a b =>
    Text.lit "substring out of range: [" ++ Text.ofInt a ++ Text.lit ":" ++ Text.ofInt b ++
      Text.lit "]"
  | sliceOutOfRange a b =>
    Text.lit "slice out of range: [" ++ Text.ofInt a ++ Text.lit ":" ++ Text.ofInt b ++ Text.lit "]"
  | negativeDepth => Text.lit "flatten depth must be non-negative"
  | notOrderable name types =>
    Text.lit s!"{name}: elements are not mutually orderable: " ++
      Text.commaList (types.map Text.lit)
  | emptyOptional => Text.lit "optional.none() dereference"
  | unknownClause verb => Text.lit "unrecognized formatting clause: %" ++ verb
  | missingArgument index => Text.lit s!"index {index} out of range"
  | notAnInteger verb typeName =>
    Text.lit "%" ++ verb ++ Text.lit s!" requires an integer, found {typeName}"
  | notANumber verb typeName =>
    Text.lit "%" ++ verb ++ Text.lit s!" requires a number, found {typeName}"
  | badPattern pattern construct =>
    Text.lit "invalid regular expression " ++ Text.quoted pattern ++
      construct.elim [] fun c => Text.lit s!": {c} is not supported"
  | programFailed => Text.lit "error evaluating program"
  | badOutput typeName => Text.lit s!"invalid filter expression output type: {typeName}"

end EvalError

namespace Eval

/-- Ends with an error. -/
def fail {α : Type} (e : EvalError) : Eval α := .error (.error e)

/-- Ends with a fault. -/
def stop {α : Type} (f : Fault) : Eval α := .error (.fault f)

/-- Ends because a function does not take its arguments. -/
def noOverload {α : Type} (name : String) (args : List Dyn) : Eval α :=
  fail (.noOverload name (args.map Dyn.typeName))

/-- Ends with an error that shows a value; one with an integer too long to be written is a fault. -/
def failShowing {α : Type} (v : Dyn) (e : EvalError) : Eval α :=
  if v.isPrintable then fail e else stop .badValue

end Eval

end LogStream.Filter
