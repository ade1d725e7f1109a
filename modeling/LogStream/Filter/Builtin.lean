import LogStream.Filter.Ty

/-! # Builtin functions

The functions that an expression may call: by name alone, or on a receiver, which then is the first
argument. Each has a signature that gives the type of the result for the types of the arguments, or
nothing where the function does not take them. -/

namespace LogStream.Filter

/-- A builtin function. -/
inductive Builtin
  -- Strings.
  | contains
  | startsWith
  | endsWith
  | isMatch
  | lowerAscii
  | upperAscii
  | trim
  | split
  | replace
  | charAt
  | indexOf
  | lastIndexOf
  | substring
  | join
  | format
  | quote
  -- Strings and lists.
  | size
  | reverse
  -- Lists.
  | slice
  | flatten
  | sort
  | distinct
  | first
  | last
  | range
  | setContains
  | setEquivalent
  | setIntersects
  -- Optional values.
  | orValue
  | hasValue
  | value
  | or
  | optionalOf
  | optionalNone
  -- Parts of a timestamp.
  | fullYear
  | month
  | date
  | dayOfMonth
  | dayOfWeek
  | dayOfYear
  | hours
  | minutes
  | seconds
  -- Conversions.
  | toInt
  | toUint
  | toDouble
  | toString
  | toBytes
  | toBool
  | toTimestamp
  | toDuration
  | toDyn
  | encodeBase64
  | decodeBase64
  -- Numbers.
  | greatest
  | least
  | abs
  | sign
  | sqrt
  | ceil
  | floor
  | round
  | trunc
  | isNaN
  | isInf
  | isFinite
  | bitAnd
  | bitOr
  | bitXor
  | bitNot
  | bitShiftLeft
  | bitShiftRight
deriving DecidableEq, Repr

namespace Builtin

/-! ### Names -/

/-- The functions that are called on a receiver. -/
def members : List (String × Builtin) :=
  [("contains", contains), ("startsWith", startsWith), ("endsWith", endsWith), ("matches", isMatch),
    ("lowerAscii", lowerAscii), ("upperAscii", upperAscii), ("trim", trim), ("split", split),
    ("replace", replace), ("charAt", charAt), ("indexOf", indexOf), ("lastIndexOf", lastIndexOf),
    ("substring", substring), ("join", join), ("format", format), ("reverse", reverse),
    ("slice", slice), ("flatten", flatten), ("sort", sort), ("distinct", distinct), ("first", first),
    ("last", last), ("size", size), ("orValue", orValue), ("hasValue", hasValue), ("value", value),
    ("or", or), ("getFullYear", fullYear), ("getMonth", month), ("getDate", date),
    ("getDayOfMonth", dayOfMonth), ("getDayOfWeek", dayOfWeek), ("getDayOfYear", dayOfYear),
    ("getHours", hours), ("getMinutes", minutes), ("getSeconds", seconds)]

/-- The functions that are called by name alone. -/
def globals : List (String × Builtin) :=
  [("size", size), ("matches", isMatch), ("int", toInt), ("uint", toUint), ("double", toDouble),
    ("string", toString), ("bytes", toBytes), ("bool", toBool), ("timestamp", toTimestamp),
    ("duration", toDuration), ("dyn", toDyn), ("optional.of", optionalOf),
    ("optional.none", optionalNone), ("strings.quote", quote), ("base64.encode", encodeBase64),
    ("base64.decode", decodeBase64), ("sets.contains", setContains),
    ("sets.equivalent", setEquivalent), ("sets.intersects", setIntersects), ("lists.range", range),
    ("math.greatest", greatest), ("math.least", least), ("math.abs", abs), ("math.sign", sign),
    ("math.sqrt", sqrt), ("math.ceil", ceil), ("math.floor", floor), ("math.round", round),
    ("math.trunc", trunc), ("math.isNaN", isNaN), ("math.isInf", isInf),
    ("math.isFinite", isFinite), ("math.bitAnd", bitAnd), ("math.bitOr", bitOr),
    ("math.bitXor", bitXor), ("math.bitNot", bitNot), ("math.bitShiftLeft", bitShiftLeft),
    ("math.bitShiftRight", bitShiftRight)]

/-- The function of a name in a table. -/
def named? (table : List (String × Builtin)) (name : Text) : Option Builtin :=
  (table.find? fun f => Text.lit f.1 == name).map Prod.snd

/-- The function that a name stands for on a receiver. -/
def member? (name : Text) : Option Builtin := named? members name

/-- The function that a name stands for alone. -/
def global? (name : Text) : Option Builtin := named? globals name

/-! ### Signatures -/

/-- Arguments may be used for a list of parameters. -/
def takes : List Ty → List Ty → Bool
  | [], [] => true
  | a :: as, p :: ps => a.assignable p && takes as ps
  | _, _ => false

/-- The result of a function with given lists of parameters. -/
def fixed (result : Ty) (parameters : List (List Ty)) (args : List Ty) : Option Ty :=
  if parameters.any (takes args) then some result else none

/-- A list with the elements of the argument. -/
def sameList (a : Ty) : Option Ty := if a.isList then some (.list a.elem) else none

/-- A number of one of the types of a comparison. -/
def extremum (args : List Ty) : Option Ty :=
  let args := match args with
    | [.list e] => [e]
    | _ => args
  if args ≠ [] ∧ args.all (fun a => a.isNumeric || a = .dyn) then some (.join args) else none

/-- Two integers of one type. -/
def bitwise : List Ty → Option Ty
  | [a, b] =>
    if [Ty.int, Ty.uint].any fun t => takes [a, b] [t, t] then some (if a = .dyn then b else a)
    else none
  | _ => none

/-- Two lists, the elements of the second assignable to those of the first. -/
def setRelation : List Ty → Option Ty
  | [a, b] =>
    if a.isList && b.isList && b.elem.assignable a.elem then some .bool else none
  | _ => none

/-- A part of a timestamp, in a zone or in UTC. -/
def timePart : List Ty → Option Ty := fixed .int [[.timestamp], [.timestamp, .string]]

/-- The type of the result for arguments of given types. -/
def signature : Builtin → List Ty → Option Ty
  | contains => fixed .bool [[.string, .string]]
  | startsWith => fixed .bool [[.string, .string]]
  | endsWith => fixed .bool [[.string, .string]]
  | isMatch => fixed .bool [[.string, .string]]
  | lowerAscii => fixed .string [[.string]]
  | upperAscii => fixed .string [[.string]]
  | trim => fixed .string [[.string]]
  | split => fixed (.list .string) [[.string, .string], [.string, .string, .int]]
  | replace =>
    fixed .string [[.string, .string, .string], [.string, .string, .string, .int]]
  | charAt => fixed .string [[.string, .int]]
  | indexOf => fixed .int [[.string, .string], [.string, .string, .int]]
  | lastIndexOf => fixed .int [[.string, .string], [.string, .string, .int]]
  | substring => fixed .string [[.string, .int], [.string, .int, .int]]
  | join => fixed .string [[.list .string], [.list .string, .string]]
  | format => fun
    | [t, l] => if t.assignable .string && l.isList then some .string else none
    | _ => none
  | quote => fixed .string [[.string]]
  | size => fun
    | [.string] => some .int
    | [.bytes] => some .int
    | [.list _] => some .int
    | [.map _ _] => some .int
    | [.dyn] => some .int
    | _ => none
  | reverse => fun
    | [.string] => some .string
    | [.dyn] => some .dyn
    | [a] => sameList a
    | _ => none
  | slice => fun
    | [l, a, b] => if takes [a, b] [.int, .int] then sameList l else none
    | _ => none
  | flatten => fun
    | [l] =>
      if l.isList then
        some (.list (match l.elem with
          | .list e => e
          | _ => .dyn))
      else none
    | [l, n] => if l.isList && n.assignable .int then some (.list .dyn) else none
    | _ => none
  | sort => fun
    | [l] => sameList l
    | _ => none
  | distinct => fun
    | [l] => sameList l
    | _ => none
  | first => fun
    | [l] => if l.isList then some (.optional l.elem) else none
    | _ => none
  | last => fun
    | [l] => if l.isList then some (.optional l.elem) else none
    | _ => none
  | range => fixed (.list .int) [[.int]]
  | setContains => setRelation
  | setEquivalent => setRelation
  | setIntersects => setRelation
  | orValue => fun
    | [o, d] => o.content?.bind fun e =>
      if e = .dyn then some d else if d.assignable e then some e else none
    | _ => none
  | hasValue => fun
    | [o] => o.content?.map fun _ => .bool
    | _ => none
  | value => fun
    | [o] => o.content?
    | _ => none
  | or => fun
    | [a, b] =>
      if a.content?.isSome && b.content?.isSome then some (if a = b then a else .optional .dyn)
      else none
    | _ => none
  | optionalOf => fun
    | [a] => some (.optional a)
    | _ => none
  | optionalNone => fun
    | [] => some (.optional .dyn)
    | _ => none
  | fullYear => timePart
  | month => timePart
  | date => timePart
  | dayOfMonth => timePart
  | dayOfWeek => timePart
  | dayOfYear => timePart
  | hours => timePart
  | minutes => timePart
  | seconds => timePart
  | toInt => fixed .int [[.int], [.uint], [.double], [.string], [.timestamp]]
  | toUint => fixed .uint [[.int], [.uint], [.double], [.string]]
  | toDouble => fixed .double [[.int], [.uint], [.double], [.string]]
  | toString => fun
    | [_] => some .string
    | _ => none
  | toBytes => fixed .bytes [[.string], [.bytes]]
  | toBool => fixed .bool [[.bool], [.string]]
  | toTimestamp => fixed .timestamp [[.string], [.timestamp], [.int]]
  | toDuration => fixed .duration [[.string], [.duration]]
  | toDyn => fun
    | [_] => some .dyn
    | _ => none
  | encodeBase64 => fixed .string [[.bytes]]
  | decodeBase64 => fixed .bytes [[.string]]
  | greatest => extremum
  | least => extremum
  | abs => fun
    | [a] => if a.isNumeric || a = .dyn then some a else none
    | _ => none
  | sign => fun
    | [a] => if a.isNumeric || a = .dyn then some a else none
    | _ => none
  | sqrt => fixed .double [[.int], [.uint], [.double]]
  | ceil => fixed .double [[.double]]
  | floor => fixed .double [[.double]]
  | round => fixed .double [[.double]]
  | trunc => fixed .double [[.double]]
  | isNaN => fixed .bool [[.double]]
  | isInf => fixed .bool [[.double]]
  | isFinite => fixed .bool [[.double]]
  | bitAnd => bitwise
  | bitOr => bitwise
  | bitXor => bitwise
  | bitNot => fixed .int [[.int]]
  | bitShiftLeft => fixed .int [[.int, .int]]
  | bitShiftRight => fixed .int [[.int, .int]]

end Builtin

end LogStream.Filter
