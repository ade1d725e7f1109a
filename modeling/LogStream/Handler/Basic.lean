import LogStream.Handler.Merge
import LogStream.Record.Notice
import LogStream.Wire.Frame
import LogStream.Wire.Pool

/-! # Handlers

A handler writes events as frames. It is derived from a root step by step: a step adds attributes, or
opens a group into which everything behind it goes. Deriving leaves the receiver as it was. All
handlers of one root share its output: the frames written so far and a pool of messages. -/

namespace LogStream

/-- One step by which a handler is derived from another. -/
inductive Derivation
  | attrs (added : List Attr)
  | group (name : Text)

namespace Derivation

/-- The step adds nothing. -/
def isIdle : Derivation → Bool
  | attrs added => added.isEmpty
  | group name => name.isEmpty

end Derivation

/-- How a handler came about. -/
inductive Lineage
  | root
  | derived (parent : Lineage) (step : Derivation)

namespace Lineage

/-- The steps from the root on. -/
def steps : Lineage → List Derivation
  | root => []
  | derived parent step => parent.steps ++ [step]

end Lineage

/-- A handler: the least level that it emits, and how it came about. -/
structure Handler where
  level : LevelMark := .level .debug
  lineage : Lineage := .root

namespace Handler

/-- The handler that a step derives, if the step adds anything. -/
def derive? (h : Handler) (step : Derivation) : Option Handler :=
  if step.isIdle then none else some { h with lineage := .derived h.lineage step }

/-- The handler that a step derives; the receiver itself if the step adds nothing. -/
def derive (h : Handler) (step : Derivation) : Handler := (h.derive? step).getD h

/-- A handler whose records also carry the given attributes. -/
def withAttrs (h : Handler) (added : List Attr) : Handler := h.derive (.attrs added)

/-- A handler that puts everything further under a name. -/
def withGroup (h : Handler) (name : Text) : Handler := h.derive (.group name)

/-- Whether records of a level are emitted; a bare number has no severity. -/
def enabled? (h : Handler) (l : LevelMark) : Option Bool := do
  let l ← l.level?
  let least ← h.level.level?
  return least.enabled l

/-! ### Building attributes -/

/-- Mappings under construction: the innermost one, and around it each open group with the mapping that
it will be put into. -/
structure Scope where
  current : List Attr := []
  outer : List (Text × List Attr) := []

namespace Scope

/-- Opens a group. -/
def enter (s : Scope) (name : Text) : Scope := ⟨[], (name, s.current) :: s.outer⟩

/-- Merges attributes into the innermost mapping. -/
def add (s : Scope) (attrs : List Attr) : Except ResolveError Scope :=
  (merge? s.current attrs).map fun current => { s with current }

/-- Takes one step of a lineage. -/
def follow (s : Scope) : Derivation → Except ResolveError Scope
  | .attrs added => s.add added
  | .group name => .ok (s.enter name)

/-- Puts a finished group into the mapping around it, unless it is empty. -/
def leave (current : List Attr) (outer : Text × List Attr) : List Attr :=
  if current = [] then outer.2 else Attrs.put outer.2 outer.1 (.group current)

/-- Closes all groups, the innermost first. -/
def close (s : Scope) : List Attr := s.outer.foldl leave s.current

end Scope

/-- The attributes of a record for one call. -/
def buildAttrs (h : Handler) (call : List Attr) : Except ResolveError (List Attr) := do
  let s ← h.lineage.steps.foldlM Scope.follow {}
  let s ← s.add call
  return s.close

end Handler

/-! ### Writing -/

/-- What the handlers of one root share. -/
structure Output where
  written : List Bytes := []
  pool : Wire.Pool := {}

namespace Output

/-- A frame behind those that were written. -/
def write (o : Output) (f : Bytes) : Output := { o with written := o.written ++ [f] }

/-- Writes a record as a payload, by way of a message of the pool. -/
def encode (o : Output) (r : Record) : Except EncodeError Bytes × Output :=
  let (m, pool) := o.pool.borrow
  ((Wire.fillRecord m.content r).map Wire.RecordMessage.toBytes, { o with pool := pool.giveBack m })

end Output

/-- What became of an event. -/
inductive Outcome
  | written (f : Bytes)
  /-- The event did not come from a call. -/
  | dropped (notice : Notice)
  /-- The level of the event is not emitted. -/
  | disabled
  | failed (e : EncodeError)

namespace Outcome

def error? : Outcome → Option EncodeError
  | failed e => some e
  | _ => none

def notices : Outcome → List Notice
  | dropped n => [n]
  | _ => []

end Outcome

namespace Handler

/-- The notice about an event without origin and time. -/
def dropNotice (message : Text) : Notice :=
  .debug (Text.lit "dropping event without origin or time: " ++ Text.quoted message)

/-- Writes an event as one frame, or nothing. -/
def handle (h : Handler) (e : Event) (o : Output) : Outcome × Output :=
  if e.origin.isNone && e.time.isNone then (.dropped (dropNotice e.message), o)
  else
    match h.buildAttrs e.attrs with
    | .error err => (.failed (.resolve err), o)
    | .ok attrs =>
      let record : Record := { message := e.message, level := e.level, time := e.time, attrs }
      match o.encode record with
      | (.error err, o) => (.failed err, o)
      | (.ok payload, o) =>
        match frame payload with
        | .error err => (.failed err, o)
        | .ok f => (.written f, o.write f)

end Handler

end LogStream
