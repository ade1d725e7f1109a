import LogStream.Record.Basic
import LogStream.Wire.Message

/-! # Messages as records

Payloads read back as records. A payload is refused if it is no message, if its level or the kind of a
value is not known, or if a time or a duration is out of range. Attributes with an empty key are passed
over. -/

namespace LogStream

/-- Why a payload is no record. -/
inductive DecodeError
  | malformed
  | unknownLevel (n : Int)
  | badTimestamp
  | badDuration
  | unknownKind
deriving DecidableEq, Repr

namespace DecodeError

def message : DecodeError → Text
  | malformed => Text.lit "error unmarshaling record"
  | unknownLevel n => Text.lit "unrecognized level: " ++ Text.ofInt n
  | badTimestamp => Text.lit "invalid timestamp"
  | badDuration => Text.lit "invalid duration"
  | unknownKind => Text.lit "unrecognized value kind"

end DecodeError

namespace Wire

/-- The instant of a stamp in the years that a clock has, cut to microseconds. -/
def Stamp.toTime? (s : Stamp) : Option Time :=
  if -62135596800 ≤ s.seconds ∧ s.seconds ≤ 253402300799 ∧ 0 ≤ s.nanos ∧ s.nanos ≤ 999999999 then
    Time.ofInstant? (s.seconds * microsPerSecond + s.nanos / 1000)
  else none

/-- The duration of a stamp, cut toward zero to microseconds. -/
def Stamp.toDuration? (s : Stamp) : Option Duration :=
  Duration.ofMicros? (s.seconds * microsPerSecond + Int.tdiv s.nanos 1000)

mutual

/-- The value of a member. -/
def Member.toValue : Member → Except DecodeError Value
  | .unset => .ok .empty
  | .unknown => .error .unknownKind
  | .bool b => .ok (.held .bool (.bool b))
  | .float x => .ok (.held .float (.float x))
  | .int n => .ok (.held .int (.int n))
  | .string t => .ok (.held .string (.text t))
  | .time s => (s.toTime?).elim (.error .badTimestamp) fun t => .ok (.held .time (.time t))
  | .duration s =>
    (s.toDuration?).elim (.error .badDuration) fun d => .ok (.held .duration (.duration d))
  | .uint n => .ok (.held .uint (.int n))
  | .group as => (Member.toValues as).map .group
  | .any tag data => .ok (.held .any (.sealed tag data))
termination_by structural m => m

def Member.toValues : List (Text × Member) → Except DecodeError (List Attr)
  | [] => .ok []
  | (k, m) :: as => do
    let v ← Member.toValue m
    let vs ← Member.toValues as
    return (k, v) :: vs
termination_by structural as => as

end

namespace RecordMessage

/-- The record of a message. -/
def toRecord (m : RecordMessage) : Except DecodeError Record :=
  match Level.ofNumber? m.level with
  | none => .error (.unknownLevel m.level)
  | some level => do
    let time ← match m.time with
      | none => pure none
      | some s => (s.toTime?).elim (.error .badTimestamp) fun t => .ok (some t)
    let attrs ← Member.toValues (m.attrs.filter fun a => a.1 != [])
    return { message := m.message, level := .level level, time, attrs }

end RecordMessage

end Wire

namespace Record

/-- The record that a payload holds. -/
def decode (bs : Bytes) : Except DecodeError Record :=
  match Wire.RecordMessage.read? bs with
  | none => .error .malformed
  | some m => m.toRecord

end Record

end LogStream
