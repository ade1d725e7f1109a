import LogStream.Text.Base64
import LogStream.Text.Utf8
import LogStream.Time.DurationText
import LogStream.Time.Iso
import LogStream.Time.Zone
import LogStream.Filter.EvalError

/-! # Conversions

The functions named like types, the parts of a timestamp, and base 64. -/

namespace LogStream.Filter.Dyn

/-! ### Numbers -/

/-- A number as a signed integer that need not fit yet. -/
def wholeNumber : Dyn → Eval Int
  | int n => .ok n
  | double x => if x.isFinite then .ok x.truncate else Eval.fail .doubleOutOfRange
  | string t =>
    (Text.readInt? t).elim (Eval.fail (.notConvertible (Text.quoted t) "int")) .ok
  | timestamp t => .ok (Int.fdiv t.instant microsPerSecond)
  | v => Eval.noOverload "int" [v]

/-- A value as a signed integer. -/
def signed (v : Dyn) : Eval Int := do
  let n ← wholeNumber v
  if int64Min ≤ n ∧ n ≤ int64Max then return n else Eval.fail .intOverflow

def toInt (v : Dyn) : Eval Dyn := do return int (← signed v)

/-- A value as an unsigned integer: a great integer stays, all else is a signed one first. -/
def unsigned (v : Dyn) : Eval Int :=
  match v with
  | timestamp t => Eval.noOverload "uint" [timestamp t]
  | int n => if int64Max < n then .ok n else signed (int n)
  | v => signed v

def toUint (v : Dyn) : Eval Dyn := do
  let n ← unsigned v
  if 0 ≤ n ∧ n ≤ uint64Max then return int n else Eval.fail .uintOverflow

/-- A number as a double; an integer that is too far out is a fault. -/
def ofNumber : Number → Eval Double
  | .int n => (Double.ofInt? n).elim (Eval.stop .overflow) .ok
  | .double x => .ok x

def toDouble : Dyn → Eval Dyn
  | string t =>
    (Double.read? t).elim (Eval.fail (.notConvertible (Text.quoted t) "double")) fun x =>
      .ok (double x)
  | v =>
    match v.number? with
    | some x => (ofNumber x).map double
    | none => Eval.noOverload "double" [v]

/-! ### Text and bytes -/

/-- The text of a scalar value. -/
def text : Dyn → Eval Text
  | bool b => .ok (Text.lit (if b then "true" else "false"))
  | int n => if (int n).isPrintable then .ok (Text.ofInt n) else Eval.stop .badValue
  | string t => .ok t
  | double x => .ok x.toText
  | bytes bs => (Utf8.decode? bs).elim (Eval.fail .notUtf8) .ok
  | timestamp t => t.isoUtc?.elim (Eval.stop .overflow) .ok
  | duration d => .ok d.toText
  | v => Eval.noOverload "string" [v]

def toText (v : Dyn) : Eval Dyn := (text v).map string

/-- The bytes of a text in UTF-8. -/
def utf8 (t : Text) : Eval Bytes := (Utf8.encode? t).elim (Eval.stop .notEncodable) .ok

/-- The bytes of a string; all else is left as it is. -/
def toBytes : Dyn → Eval Dyn
  | string t => (utf8 t).map bytes
  | v => .ok v

def encodeBase64 : Dyn → Eval Dyn
  | bytes bs => .ok (string (Base64.encode bs))
  | v => Eval.noOverload "base64.encode" [v]

/-- The bytes of base 64, of which the padding may be left out. -/
def decodeBase64 : Dyn → Eval Dyn
  | string t =>
    if t.all CodePoint.isAscii then
      (Base64.decode? (Base64.padded t)).elim (Eval.fail .badBase64) fun bs => .ok (bytes bs)
    else Eval.stop .badValue
  | v => Eval.noOverload "base64.decode" [v]

/-! ### Truth values -/

/-- The words for truth and for falsehood. -/
def trueWords : List String := ["true", "True", "TRUE", "t", "1"]

def falseWords : List String := ["false", "False", "FALSE", "f", "0"]

/-- The truth value that a word stands for. -/
def truthOf? (t : Text) : Option Bool :=
  if trueWords.any fun w => Text.lit w == t then some true
  else if falseWords.any fun w => Text.lit w == t then some false
  else none

def toBool : Dyn → Eval Dyn
  | bool b => .ok (bool b)
  | string t =>
    (truthOf? t).elim (Eval.fail (.notConvertible (Text.quoted t) "bool")) fun b => .ok (bool b)
  | v => Eval.failShowing v (.notConvertible v.shown "bool")

/-! ### Times -/

/-- Reads a timestamp, which has to name its zone. -/
def readTimestamp (t : Text) : Eval Time :=
  match Iso.read t with
  | .ok u => .ok u
  | .error .malformed => Eval.fail (.badTimestamp t)
  | .error .withoutZone => Eval.fail (.timestampWithoutZone t)
  | .error .outOfRange => Eval.stop .overflow

def toTimestamp : Dyn → Eval Dyn
  | timestamp t => .ok (timestamp t)
  | int n =>
    (Time.ofInstant? (n * microsPerSecond)).elim (Eval.stop .overflow) fun t => .ok (timestamp t)
  | string t => (readTimestamp t).map timestamp
  | v => Eval.noOverload "timestamp" [v]

/-- Reads a duration. -/
def readDuration (t : Text) : Eval Duration :=
  match Duration.read t with
  | .ok d => .ok d
  | .error .malformed => Eval.fail (.badDuration t)
  | .error .outOfRange => Eval.stop .overflow

def toDuration : Dyn → Eval Dyn
  | duration d => .ok (duration d)
  | string t => (readDuration t).map duration
  | v => Eval.noOverload "duration" [v]

/-! ### Parts of a timestamp -/

/-- What a value that is no text does as the name of a zone: nothing and what is empty stand for UTC, an
item that starts with a sign among items of which one is a colon has no parts to be split, a map is asked
for its first item; nothing else can be a name. -/
def zoneOfOther : Dyn → Eval Int
  | null => .ok 0
  | bool false => .ok 0
  | int n => if n = 0 then .ok 0 else Eval.stop .wrongType
  | double x => if x.isZero then .ok 0 else Eval.stop .wrongType
  | bytes [] => .ok 0
  | duration d => if d.micros = 0 then .ok 0 else Eval.stop .wrongType
  | members [] => .ok 0
  | foreign (.tuple []) => .ok 0
  | foreign (.tuple (.text t :: xs)) =>
    if isSigns t && xs.any isColonText then Eval.stop .noAttribute else Eval.stop .wrongType
  | list [] => .ok 0
  | list (string t :: xs) =>
    if isSigns t && xs.any isColon then Eval.stop .noAttribute else Eval.stop .wrongType
  | map [] => .ok 0
  | map es => Eval.stop (if (lookup? (int 0) es).isSome then .wrongType else .missingKey)
  | _ => Eval.stop .wrongType
where
  isSigns (t : Text) : Bool := t == [] || t == Text.lit "+" || t == Text.lit "-" || t == Text.lit "+-"
  isColon : Dyn → Bool
    | string t => t == Text.lit ":"
    | _ => false
  isColonText : Datum → Bool
    | .text t => t == Text.lit ":"
    | _ => false

/-- The offset of a zone in minutes; an empty name stands for UTC. -/
def zone : Dyn → Eval Int
  | string [] => .ok 0
  | string t =>
    match Zone.read t with
    | .ok minutes => .ok minutes
    | .error .unknown => Eval.fail (.unknownZone t)
    | .error (.fault f) => Eval.stop f
  | v => zoneOfOther v

/-- A part of a timestamp in a zone. -/
def timePart (part : Time → Nat) (v zoneName : Dyn) : Eval Dyn :=
  match v with
  | timestamp t => do
    let minutes ← zone zoneName
    match t.inZone? minutes with
    | some u => return int (part u)
    | none => Eval.stop .overflow
  | v => Eval.noOverload "timestamp accessor" [v]

end LogStream.Filter.Dyn
