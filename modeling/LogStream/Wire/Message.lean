import LogStream.Text.Utf8
import LogStream.Datum.Basic
import LogStream.Wire.Field

/-! # Messages

The messages of the wire format. A record holds an instant, a message text, a level number and
attributes; a value holds at most one member. Written, the fields stand in the order of their
numbers and the attributes in the order of their keys; numbers and texts outside of a value are left
out where they are zero or empty. Read, a field that is met again replaces what was there, a message
that is met again is merged into what was there, and unknown fields are passed over. -/

namespace LogStream.Wire

/-- Seconds and nanoseconds, of an instant or a duration. -/
structure Stamp where
  seconds : Int := 0
  nanos : Int := 0
deriving DecidableEq, Repr, Inhabited

/-- The member that a value holds. -/
inductive Member
  | unset
  /-- No known member, but fields that are not known. -/
  | unknown
  | bool (b : Bool)
  | float (x : Double)
  | int (n : Int)
  | string (t : Text)
  | time (s : Stamp)
  | duration (s : Stamp)
  | uint (n : Nat)
  | group (attrs : List (Text × Member))
  | any (tag : Text) (data : Bytes)

namespace Member

instance : Inhabited Member := ⟨unset⟩

end Member

/-- A record. -/
structure RecordMessage where
  time : Option Stamp := none
  message : Text := []
  level : Int := 0
  attrs : List (Text × Member) := []

namespace RecordMessage

/-- The record in which nothing is set. -/
def blank : RecordMessage := {}

instance : Inhabited RecordMessage := ⟨blank⟩

end RecordMessage

/-! ### Writing -/

namespace Stamp

def toBytes (s : Stamp) : Bytes := Field.ofIntIfSet 1 s.seconds ++ Field.ofIntIfSet 2 s.nanos

end Stamp

/-- An entry of a map. -/
def entryBytes (key content : Bytes) : Bytes := Field.ofBytes 1 key ++ Field.ofBytes 2 content

/-- Entries in the order of their keys, each as the field of the given number. -/
def mapBytes (number : Nat) (entries : List (Bytes × Bytes)) : Bytes :=
  (entries.mergeSort fun a b => (Bytes.compare a.1 b.1).isLE).flatMap
    fun e => Field.ofBytes number (entryBytes e.1 e.2)

mutual

def Member.toBytes : Member → Bytes
  | .unset => []
  | .unknown => []
  | .bool b => Field.ofNat 1 (if b then 1 else 0)
  | .float x => Field.ofDouble 2 x
  | .int n => Field.ofInt 3 n
  | .string t => Field.ofBytes 4 (Utf8.encodeAll t)
  | .time s => Field.ofBytes 5 s.toBytes
  | .duration s => Field.ofBytes 6 s.toBytes
  | .uint n => Field.ofNat 7 n
  | .group as => Field.ofBytes 8 (mapBytes 1 (Member.entries as))
  | .any tag data =>
    Field.ofBytes 9 (Field.ofBytesIfSet 1 (Utf8.encodeAll tag) ++ Field.ofBytesIfSet 2 data)
termination_by structural m => m

/-- Attributes as pairs of bytes. -/
def Member.entries : List (Text × Member) → List (Bytes × Bytes)
  | [] => []
  | (k, m) :: as => (Utf8.encodeAll k, Member.toBytes m) :: Member.entries as
termination_by structural as => as

end

namespace RecordMessage

def toBytes (r : RecordMessage) : Bytes :=
  (match r.time with
    | none => []
    | some s => Field.ofBytes 1 s.toBytes) ++
  Field.ofBytesIfSet 2 (Utf8.encodeAll r.message) ++ Field.ofIntIfSet 3 r.level ++
  mapBytes 4 (Member.entries r.attrs)

end RecordMessage

/-! ### Reading

Each reader takes what was there before, and the number of levels that messages may still be nested
below it. -/

/-- A reader of a message one level further down, if there is one. -/
def below? {α : Type} (depth : Nat) (read : Nat → Option α) : Option α :=
  match depth with
  | 0 => none
  | depth + 1 => read depth

namespace Stamp

def put (s : Stamp) (f : Field) : Stamp :=
  match f.number, f.content with
  | 1, .varint n => { s with seconds := Varint.toInt64 n }
  | 2, .varint n => { s with nanos := Varint.toInt32 n }
  | _, _ => s

def merge? (s : Stamp) (bs : Bytes) (depth : Nat) : Option Stamp :=
  (Field.readAll? depth bs).map fun fs => fs.foldl put s

end Stamp

/-- A tag and the data under it. -/
structure Payload where
  tag : Text := []
  data : Bytes := []
deriving DecidableEq, Inhabited

namespace Payload

def put? (p : Payload) (f : Field) : Option Payload :=
  match f.number, f.content with
  | 1, .bytes b => (Utf8.decode? b).map fun t => { p with tag := t }
  | 2, .bytes b => some { p with data := b }
  | _, _ => some p

def merge? (p : Payload) (bs : Bytes) (depth : Nat) : Option Payload :=
  (Field.readAll? depth bs).bind fun fs => fs.foldlM put? p

end Payload

namespace Member

/-- The instant that a value holds, or one at zero. -/
def timeStamp : Member → Stamp
  | time s => s
  | _ => {}

/-- The duration that a value holds, or one of zero. -/
def durationStamp : Member → Stamp
  | duration s => s
  | _ => {}

/-- The attributes of the group that a value holds, or none. -/
def groupAttrs : Member → List (Text × Member)
  | group as => as
  | _ => []

/-- The payload that a value holds, or an empty one. -/
def anyPayload : Member → Payload
  | any tag data => ⟨tag, data⟩
  | _ => {}

/-- The value after a field that is not known. -/
def meetUnknown : Member → Member
  | unset => unknown
  | m => m

end Member

/-- An entry of a map. -/
structure Entry where
  key : Text := []
  member : Member := .unset
  /-- The entry holds a field that is not known; such an entry is passed over. -/
  isStrange : Bool := false

namespace Entry

/-- Attributes with an entry bound. -/
def bindIn (attrs : List (Text × Member)) (e : Entry) : List (Text × Member) :=
  if e.isStrange then attrs else Attrs.put attrs e.key e.member

end Entry

mutual

/-- Merges a value. -/
def mergeMember? (m : Member) (bs : Bytes) (depth : Nat) : Option Member :=
  match Field.readAll? depth bs with
  | none => none
  | some fs => fs.foldlM
    (fun m f =>
      match f.number, f.content with
      | 1, .varint n => some (.bool (n != 0))
      | 2, .double x => some (.float x)
      | 3, .varint n => some (.int (Varint.toInt64 n))
      | 4, .bytes b => (Utf8.decode? b).map .string
      | 5, .bytes b => (below? depth (m.timeStamp.merge? b)).map .time
      | 6, .bytes b => (below? depth (m.durationStamp.merge? b)).map .duration
      | 7, .varint n => some (.uint n)
      | 8, .bytes b =>
        match depth with
        | 0 => none
        | depth + 1 => (mergeGroup? m.groupAttrs b depth).map .group
      | 9, .bytes b => (below? depth (m.anyPayload.merge? b)).map fun p => .any p.tag p.data
      | _, _ => some m.meetUnknown) m
termination_by structural depth

/-- Merges the attributes of a group. -/
def mergeGroup? (attrs : List (Text × Member)) (bs : Bytes) (depth : Nat) :
    Option (List (Text × Member)) :=
  match Field.readAll? depth bs with
  | none => none
  | some fs => fs.foldlM
    (fun attrs f =>
      match f.number, f.content with
      | 1, .bytes b =>
        match depth with
        | 0 => none
        | depth + 1 => (readPair? b depth).map (Entry.bindIn attrs)
      | _, _ => some attrs) attrs
termination_by structural depth

/-- Reads an entry of a map. -/
def readPair? (bs : Bytes) (depth : Nat) : Option Entry :=
  match Field.readAll? depth bs with
  | none => none
  | some fs => fs.foldlM
    (fun e f =>
      match f.number, f.content with
      | 1, .bytes b => (Utf8.decode? b).map fun t => { e with key := t }
      | 2, .bytes b =>
        match depth with
        | 0 => none
        | depth + 1 => (mergeMember? e.member b depth).map fun m => { e with member := m }
      | _, _ => some { e with isStrange := true }) {}
termination_by structural depth

end

/-- How deep messages are nested below a record at most. -/
def maxDepth : Nat := 100

namespace RecordMessage

def put? (depth : Nat) (r : RecordMessage) (f : Field) : Option RecordMessage :=
  match f.number, f.content with
  | 1, .bytes b =>
    (below? depth ((r.time.getD {}).merge? b)).map fun s => { r with time := some s }
  | 2, .bytes b => (Utf8.decode? b).map fun t => { r with message := t }
  | 3, .varint n => some { r with level := Varint.toInt32 n }
  | 4, .bytes b =>
    (below? depth (readPair? b)).map fun e => { r with attrs := e.bindIn r.attrs }
  | _, _ => some r

/-- Reads a record. -/
def read? (bs : Bytes) : Option RecordMessage :=
  (Field.readAll? maxDepth bs).bind fun fs => fs.foldlM (put? maxDepth) blank

end RecordMessage

end LogStream.Wire
