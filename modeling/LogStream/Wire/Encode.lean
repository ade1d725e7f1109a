import LogStream.Json.Printer
import LogStream.Record.Basic
import LogStream.Wire.Message

/-! # Records as messages

A record is filled into a message and that written as bytes. A value fills the member of its kind with
its payload, if the member takes it: an integer takes integers, a truth value those and truth values, a
float any number, a string a text or its bytes, and any takes what is sealed, or can be written as JSON
under a tag with the name of its type. What is in the message already stays where a value does not replace
it: members that a group names twice fill the same entry. -/

namespace LogStream

/-- Why a record cannot be written. -/
inductive EncodeError
  | resolve (e : ResolveError)
  | unserializable (typeName : String)
  | unknownKind (name : Text)
  | record
  | atKey (key : Text)
  | payloadTooLong (size : Nat)
  | fault (f : Fault)
deriving DecidableEq, Repr

namespace EncodeError

/-- The wording of an error; a fault has none. -/
def message? : EncodeError → Option Text
  | resolve e => some e.message
  | unserializable name => some (Text.lit s!"cannot serialize value of type {name} as JSON")
  | unknownKind name => some (Text.lit "unsupported value kind: " ++ Text.quoted name)
  | record => some (Text.lit "cannot encode record")
  | atKey key => some (Text.lit "cannot encode attribute " ++ Text.quoted key)
  | payloadTooLong n => some (Text.lit s!"payload of {n} bytes does not fit a u32 prefix")
  | fault _ => none

end EncodeError

namespace Wire

/-! ### Payloads -/

/-- The instant as seconds, rounded down, and nanoseconds, if it lies in the years that a clock has. -/
def Stamp.ofTime? (t : Time) : Option Stamp :=
  t.toUtc?.map fun u =>
    { seconds := Int.fdiv u.instant microsPerSecond,
      nanos := Int.fmod u.instant microsPerSecond * 1000 }

/-- The duration as seconds and nanoseconds of one sign. -/
def Stamp.ofDuration (d : Duration) : Stamp :=
  { seconds := Int.tdiv d.micros microsPerSecond,
    nanos := Int.tmod d.micros microsPerSecond * 1000 }

/-- A payload as an integer within bounds. -/
def integer? (low high : Int) : Datum → Option Int
  | .int n => if low ≤ n ∧ n ≤ high then some n else none
  | _ => none

/-- A payload as a truth value. -/
def truth? : Datum → Option Bool
  | .bool b => some b
  | d => (integer? int64Min int64Max d).map (· != 0)

/-- A payload as a double. -/
def double? (d : Datum) : Option Double :=
  match d.number? with
  | some (.int n) => Double.ofInt? n
  | some (.double x) => some x
  | none => none

/-- A text that has an encoding. -/
def encodable? (t : Text) : Option Text := if (Utf8.encode? t).isSome then some t else none

/-- A payload as a text. -/
def text? : Datum → Option Text
  | .text t => encodable? t
  | .bytes bs => Utf8.decode? bs
  | _ => none

/-- The tag for data of a type. -/
def typeTag (d : Datum) : Text := Text.lit s!"py/builtins.{d.typeName}"

/-- A payload of the kind any. -/
def sealPayload : Datum → Except EncodeError Payload
  | .sealed tag data => .ok ⟨tag, data⟩
  | d =>
    match Json.print Json.Layout.compact d with
    | .ok t => .ok ⟨typeTag d, Utf8.encodeAll t⟩
    | .error _ => .error (.unserializable d.typeName)

/-- A payload as the member of its kind, in a value that held the given member before; `key` is the
attribute that is named where the member does not take the payload. -/
def fillHeld (key : Text) (m : Member) (kind : Kind) (d : Datum) : Except EncodeError Member :=
  let take (r : Option Member) : Except EncodeError Member := r.elim (.error (.atKey key)) .ok
  match kind with
  | .bool => take ((truth? d).map .bool)
  | .int => take ((integer? int64Min int64Max d).map .int)
  | .uint => take ((integer? 0 uint64Max d).map fun n => .uint n.toNat)
  | .float => take ((double? d).map .float)
  | .string => take ((text? d).map .string)
  | .time =>
    match d with
    | .time t => take ((Stamp.ofTime? t).map .time)
    | _ => .error (.atKey key)
  | .duration =>
    match d with
    | .duration d => .ok (.duration (Stamp.ofDuration d))
    | _ => .error (.atKey key)
  | .any => do
    let p ← sealPayload d
    take ((encodable? p.tag).map fun tag => .any tag p.data)
  | .lazy => .ok m

mutual

/-- Fills a value that held the given member before. -/
def fill (key : Text) (m : Member) : Settled → Except EncodeError Member
  | .empty => .ok m
  | .held kind d => fillHeld key m kind d
  | .group ms => (fillGroup key m.groupAttrs ms).map .group
  | .foreign name => .error (.unknownKind name)
  | .failed e => .error (.resolve e)
termination_by structural s => s

/-- Fills the members of a group one after the other. -/
def fillGroup (key : Text) (attrs : List (Text × Member)) :
    List (Text × Settled) → Except EncodeError (List (Text × Member))
  | [] => .ok attrs
  | (k, s) :: ms =>
    match encodable? k with
    | none => .error (.atKey key)
    | some k => do
      let m ← fill key ((attrs.lookup k).getD .unset) s
      fillGroup key (Attrs.put attrs k m) ms
termination_by structural ms => ms

end

/-- Fills the attributes of a record one after the other. -/
def fillAttrs (start : List (Text × Member)) (attrs : List Attr) :
    Except EncodeError (List (Text × Member)) :=
  attrs.foldlM
    (fun done a =>
      match encodable? a.1 with
      | none => .error (.atKey a.1)
      | some k => do
        let m ← fill k ((done.lookup k).getD .unset) a.2.settle
        return Attrs.put done k m)
    start

/-- A level number that has 32 bits. -/
def levelCode? (l : LevelMark) : Option Int :=
  if -0x80000000 ≤ l.code ∧ l.code < 0x80000000 then some l.code else none

/-- The message of a record before its attributes, in place of what the given one held. -/
def fillHead? (start : RecordMessage) (r : Record) : Option RecordMessage := do
  let message ← encodable? r.message
  let level ← levelCode? r.level
  if isZeroTime r.time then return { start with message, level }
  else
    let t ← r.time
    let s ← Stamp.ofTime? t
    return { start with message, level, time := some s }

/-- Fills a record into a message. -/
def fillRecord (start : RecordMessage) (r : Record) : Except EncodeError RecordMessage :=
  match fillHead? start r with
  | none => .error .record
  | some head => (fillAttrs head.attrs r.attrs).map fun attrs => { head with attrs }

end Wire

namespace Record

/-- The payload that a record is written as. -/
def encode (r : Record) : Except EncodeError Bytes :=
  (Wire.fillRecord Wire.RecordMessage.blank r).map Wire.RecordMessage.toBytes

end Record

end LogStream
