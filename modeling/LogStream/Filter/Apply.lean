import LogStream.Filter.Builtin
import LogStream.Filter.Convert
import LogStream.Filter.Format
import LogStream.Filter.Lists
import LogStream.Filter.Math
import LogStream.Filter.Strings
import LogStream.Regex.Search

/-! # Calling builtin functions -/

namespace LogStream.Filter

namespace Dyn

/-- A string has a match of a pattern. -/
def isMatch (s pattern : Dyn) : Eval Dyn :=
  match s, pattern with
  | string s, string p =>
    match Regex.search p s with
    | .ok b => .ok (bool b)
    | .error (.unsupported construct) => Eval.fail (.badPattern p (some construct))
    | .error .malformed => Eval.fail (.badPattern p none)
    | .error (.fault f) => Eval.stop f
  | v, w => Eval.noOverload "matches" [v, w]

/-! ### Optional values -/

def orValue (o v : Dyn) : Eval Dyn :=
  match o with
  | optional (some w) => .ok w
  | optional none => .ok v
  | o => Eval.noOverload "orValue" [o, v]

def hasValue : Dyn → Eval Dyn
  | optional c => .ok (bool c.isSome)
  | v => Eval.noOverload "hasValue" [v]

def value : Dyn → Eval Dyn
  | optional (some w) => .ok w
  | optional none => Eval.fail .emptyOptional
  | v => Eval.noOverload "value" [v]

def orElse (o v : Dyn) : Eval Dyn :=
  match o with
  | optional (some w) => .ok (optional (some w))
  | optional none => .ok v
  | o => Eval.noOverload "or" [o, v]

end Dyn

namespace Builtin

/-- A part of a timestamp in the zone that the second argument names, in UTC without one. -/
def applyPart (part : Time → Nat) : List Dyn → Eval Dyn
  | [t] => Dyn.timePart part t .null
  | [t, z] => Dyn.timePart part t z
  | _ => Eval.stop .wrongType

/-- The result of a function. A function with a wrong number of arguments is a fault. -/
def apply : Builtin → List Dyn → Eval Dyn
  | contains, [s, t] => s.contains t
  | startsWith, [s, t] => s.startsWith t
  | endsWith, [s, t] => s.endsWith t
  | isMatch, [s, p] => s.isMatch p
  | lowerAscii, [s] => s.lowerAscii
  | upperAscii, [s] => s.upperAscii
  | trim, [s] => s.trim
  | split, [s, sep] => s.split sep (.int (-1))
  | split, [s, sep, n] => s.split sep n
  | replace, [s, old, new] => s.replace old new (.int (-1))
  | replace, [s, old, new, n] => s.replace old new n
  | charAt, [s, i] => s.charAt i
  | indexOf, [s, t] => s.indexOf t (.int 0)
  | indexOf, [s, t, i] => s.indexOf t i
  | lastIndexOf, [s, t] => s.lastIndexOf t .null
  | lastIndexOf, [s, t, i] => s.lastIndexOf t i
  | substring, [s, a] => s.substring a .null
  | substring, [s, a, b] => s.substring a b
  | join, [l] => l.join (.string [])
  | join, [l, s] => l.join s
  | format, [t, l] => t.format l
  | quote, [s] => s.quote
  | size, [v] => v.size
  | reverse, [v] => v.reverse
  | slice, [l, a, b] => l.slice a b
  | flatten, [l] => l.flatten (.int 1)
  | flatten, [l, n] => l.flatten n
  | sort, [l] => l.sort
  | distinct, [l] => l.distinct
  | first, [l] => l.first
  | last, [l] => l.last
  | range, [n] => n.range
  | setContains, [a, b] => a.setContains b
  | setEquivalent, [a, b] => a.setEquivalent b
  | setIntersects, [a, b] => a.setIntersects b
  | orValue, [o, v] => o.orValue v
  | hasValue, [o] => o.hasValue
  | value, [o] => o.value
  | or, [o, p] => o.orElse p
  | optionalOf, [v] => .ok (.optional (some v))
  | optionalNone, [] => .ok (.optional none)
  | fullYear, args => applyPart (·.date.year) args
  | month, args => applyPart (·.date.month - 1) args
  | date, args => applyPart (·.date.day) args
  | dayOfMonth, args => applyPart (·.date.day - 1) args
  | dayOfWeek, args => applyPart (fun t => (t.date.weekday + 1) % 7) args
  | dayOfYear, args => applyPart (·.date.dayOfYear) args
  | hours, args => applyPart Time.hour args
  | minutes, args => applyPart Time.minute args
  | seconds, args => applyPart Time.second args
  | toInt, [v] => v.toInt
  | toUint, [v] => v.toUint
  | toDouble, [v] => v.toDouble
  | toString, [v] => v.toText
  | toBytes, [v] => v.toBytes
  | toBool, [v] => v.toBool
  | toTimestamp, [v] => v.toTimestamp
  | toDuration, [v] => v.toDuration
  | toDyn, [v] => .ok v
  | encodeBase64, [v] => v.encodeBase64
  | decodeBase64, [v] => v.decodeBase64
  | greatest, args => Dyn.greatest args
  | least, args => Dyn.least args
  | abs, [v] => v.abs
  | sign, [v] => v.sign
  | sqrt, [v] => v.sqrt
  | ceil, [v] => v.ceil
  | floor, [v] => v.floor
  | round, [v] => v.round
  | trunc, [v] => v.trunc
  | isNaN, [v] => v.isNaN
  | isInf, [v] => v.isInf
  | isFinite, [v] => v.isFinite
  | bitAnd, [v, w] => v.bitAnd w
  | bitOr, [v, w] => v.bitOr w
  | bitXor, [v, w] => v.bitXor w
  | bitNot, [v] => v.bitNot
  | bitShiftLeft, [v, n] => v.bitShiftLeft n
  | bitShiftRight, [v, n] => v.bitShiftRight n
  | _, _ => Eval.stop .wrongType

end Builtin

end LogStream.Filter
