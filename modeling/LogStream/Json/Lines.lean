import LogStream.Json.Printer
import LogStream.Json.Reader
import LogStream.Record.Basic
import LogStream.Text.Base64

/-! # Records as lines of JSON

Each record is one object on a line of its own: its time if it has one, its level, its message and its
attributes. Times are texts, durations seconds, and a sealed payload an object with its tag and its
data: read as JSON if they are JSON, in base 64 if not. -/

namespace LogStream.Json

/-- Why a record has no line. -/
inductive LineError
  | resolve (e : ResolveError)
  | fault (f : Fault)
deriving DecidableEq, Repr

/-- A sealed payload: its tag, and its data as JSON or in base 64. -/
def openSealed (tag : Text) (data : Bytes) : Except LineError Datum :=
  let tagged (d : Datum) : Datum :=
    dictionary [(Text.lit "@type", .text tag), (Text.lit "value", d)]
  match read data with
  | .ok d => .ok (tagged d)
  | .error .malformed => .ok (tagged (.text (Base64.encode data)))
  | .error .integerTooLong => .error (.fault .badValue)

/-- A plain datum in the form that it has in a line. -/
def plain : Datum → Except LineError Datum
  | .time t => .ok (.text t.iso)
  | .duration d => .ok (.float d.seconds)
  | .sealed tag data => openSealed tag data
  | d => .ok d

mutual

/-- A value in the form that it has in a line. -/
def ofValue : Value → Except LineError Datum
  | .group ms => (ofMembers ms).map dictionary
  | v =>
    match v.toDatum with
    | .error e => .error (.resolve e)
    | .ok d => plain d
termination_by structural v => v

def ofMembers : List (Text × Value) → Except LineError (List (Text × Datum))
  | [] => .ok []
  | (k, v) :: ms => do
    let d ← ofValue v
    let ds ← ofMembers ms
    return (k, d) :: ds
termination_by structural ms => ms

end

/-- A record in the form that it has in a line; a bare number has no level name. -/
def ofRecord (r : Record) : Except LineError Datum := do
  let time := (r.time.map fun t => (Text.lit "time", Datum.text t.iso)).toList
  let level ← (r.level.level?).elim (.error (.fault .noAttribute)) .ok
  let head := time ++
    [(Text.lit "level", .text (Text.lit level.name)), (Text.lit "msg", .text r.message)]
  let attrs ← ofMembers r.attrs
  return dictionary (head ++ attrs)

/-- JSON text, with the faults of printing. -/
def written (layout : Layout) (d : Datum) : Except LineError Text :=
  match print layout d with
  | .ok t => .ok t
  | .error f => .error (.fault f)

/-- The line of a record, without its end. -/
def line (r : Record) : Except LineError Text := do
  let d ← ofRecord r
  written { showsOthers := true } d

/-- Records as lines. -/
def lines (rs : List Record) : Except LineError Text := do
  let ls ← rs.mapM line
  return ls.flatMap (· ++ Text.lit "\n")

/-- A value as JSON. -/
def printValue (v : Value) : Except LineError Text := do
  let d ← ofValue v
  written {} d

end LogStream.Json
