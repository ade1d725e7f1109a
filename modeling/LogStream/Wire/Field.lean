import LogStream.Wire.Varint
import LogStream.Number.Double

/-! # Fields

A message is a sequence of fields. A field is a tag, which holds its number and how its content is
laid out, and the content. What a field means depends on the message; here a message is only cut
into its fields. Groups, which no message of this library has, are skipped. -/

namespace LogStream.Wire

/-- The content of a field. -/
inductive Content
  | varint (n : Nat)
  | double (x : Double)
  | bytes (bs : Bytes)
  /-- Four bytes or a group, which no field of this library has. -/
  | other
deriving DecidableEq, Repr

/-- A field by number and content. -/
structure Field where
  number : Nat
  content : Content
deriving DecidableEq, Repr

namespace Field

/-! ### Writing -/

/-- A tag: the number of the field and how its content is laid out. -/
def tag (number layout : Nat) : Bytes := Varint.encode (number * 8 + layout)

/-- A field that holds a number. -/
def ofNat (number n : Nat) : Bytes := tag number 0 ++ Varint.encode n

/-- A field that holds a signed number. -/
def ofInt (number : Nat) (n : Int) : Bytes := ofNat number (Varint.ofInt n)

/-- A field that holds a double. -/
def ofDouble (number : Nat) (x : Double) : Bytes := tag number 1 ++ x.toBytes

/-- A field that holds bytes. -/
def ofBytes (number : Nat) (bs : Bytes) : Bytes :=
  tag number 2 ++ Varint.encode bs.length ++ bs

/-- A signed number that is left out where it is zero. -/
def ofIntIfSet (number : Nat) (n : Int) : Bytes := if n = 0 then [] else ofInt number n

/-- Bytes that are left out where there are none. -/
def ofBytesIfSet (number : Nat) (bs : Bytes) : Bytes := if bs = [] then [] else ofBytes number bs

/-! ### Reading -/

/-- A tag in at most five bytes and 32 bits, of a field whose number is not zero. -/
def readTag? (bs : Bytes) : Option (Nat × Nat × Bytes) :=
  match Varint.read? 5 bs with
  | none => none
  | some (n, r) => if n < 8 ∨ 0x100000000 ≤ n then none else some (n / 8, n % 8, r)

/-- A number of bytes at the front and those behind them. -/
def take? (n : Nat) (bs : Bytes) : Option (Bytes × Bytes) :=
  if n ≤ bs.length then some (bs.take n, bs.drop n) else none

/-- A field put before others, unless it stands in a group. -/
def keepOutside (groups : List Nat) (f : Field) (rest : Option (List Field)) :
    Option (List Field) :=
  if groups.isEmpty then rest.map (f :: ·) else rest

/-- The fields of some bytes. `groups` are the numbers of the groups that are open, the innermost
first; at most `depth` of them may be. -/
def readFrom (depth : Nat) : Nat → List Nat → Bytes → Option (List Field)
  | _, groups, [] => if groups.isEmpty then some [] else none
  | 0, _, _ :: _ => none
  | fuel + 1, groups, b :: r =>
    match readTag? (b :: r) with
    | none => none
    | some (number, layout, r) =>
      match layout with
      | 0 =>
        match Varint.decode? r with
        | none => none
        | some (n, r) => keepOutside groups ⟨number, .varint n⟩ (readFrom depth fuel groups r)
      | 1 =>
        match take? 8 r with
        | none => none
        | some (bs, r) =>
          keepOutside groups ⟨number, .double (Double.ofBytes bs)⟩ (readFrom depth fuel groups r)
      | 2 =>
        match Varint.decode? r with
        | none => none
        | some (n, r) =>
          match take? n r with
          | none => none
          | some (bs, r) => keepOutside groups ⟨number, .bytes bs⟩ (readFrom depth fuel groups r)
      | 3 =>
        if groups.length < depth then
          keepOutside groups ⟨number, .other⟩ (readFrom depth fuel (number :: groups) r)
        else none
      | 4 =>
        match groups with
        | [] => none
        | g :: groups => if g = number then readFrom depth fuel groups r else none
      | 5 =>
        match take? 4 r with
        | none => none
        | some (_, r) => keepOutside groups ⟨number, .other⟩ (readFrom depth fuel groups r)
      | _ => none

/-- The fields of some bytes, in which groups are nested `depth` deep at most. -/
def readAll? (depth : Nat) (bs : Bytes) : Option (List Field) := readFrom depth bs.length [] bs

end Field

end LogStream.Wire
