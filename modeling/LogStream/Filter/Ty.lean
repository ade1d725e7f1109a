import LogStream.Text.Basic

/-! # Types

The types of expressions. `dyn` is the type of what is known only when the expression is evaluated; it
is assignable to every type and every type to it. -/

namespace LogStream.Filter

/-- The type of an expression. -/
inductive Ty
  | bool
  | int
  | uint
  | double
  | string
  | bytes
  | null
  | timestamp
  | duration
  | dyn
  | list (elem : Ty)
  | map (key value : Ty)
  | optional (elem : Ty)
deriving DecidableEq, Repr, Inhabited

namespace Ty

/-- A type as it is written in messages. -/
def render : Ty → String
  | bool => "bool"
  | int => "int"
  | uint => "uint"
  | double => "double"
  | string => "string"
  | bytes => "bytes"
  | null => "null_type"
  | timestamp => "timestamp"
  | duration => "duration"
  | dyn => "dyn"
  | list e => s!"list({e.render})"
  | map k v => s!"map({k.render}, {v.render})"
  | optional e => s!"optional({e.render})"

/-- Values of the first type may be used where the second is expected. -/
def assignable : Ty → Ty → Bool
  | dyn, _ => true
  | _, dyn => true
  | list a, list b => assignable a b
  | map k v, map l w => assignable k l && assignable v w
  | optional a, optional b => assignable a b
  | a, b => a = b

/-- The type of a place that all the given types meet in: their common type, else `dyn`. -/
def join : List Ty → Ty
  | [] => dyn
  | t :: ts => if ts.all (· = t) then t else dyn

/-- A type of numbers. -/
def isNumeric : Ty → Bool
  | int => true
  | uint => true
  | double => true
  | _ => false

/-- A type whose values are ordered. -/
def isOrdered : Ty → Bool
  | int => true
  | uint => true
  | double => true
  | string => true
  | bytes => true
  | bool => true
  | timestamp => true
  | duration => true
  | _ => false

/-- A type that may be a key of a map. -/
def isKey : Ty → Bool
  | int => true
  | uint => true
  | string => true
  | bool => true
  | dyn => true
  | _ => false

/-- A list or what may be one. -/
def isList : Ty → Bool
  | list _ => true
  | dyn => true
  | _ => false

/-- The type of the elements of a list. -/
def elem : Ty → Ty
  | list e => e
  | _ => dyn

/-- What an optional value holds, or may hold. -/
def content? : Ty → Option Ty
  | optional e => some e
  | dyn => some dyn
  | _ => none

end Ty

end LogStream.Filter
