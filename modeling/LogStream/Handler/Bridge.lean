import LogStream.Datum.Percent
import LogStream.Handler.Basic

/-! # Bridging call records

Another logging system hands over its calls as call records: fields of its own, which say who called
from where, a message template with arguments, and any further fields. A bridge turns a call record
into an event: chosen fields of its own under their names, the attributes that the surroundings
provide, the further fields, and what is known of the exception that was being handled. A record that
cannot be turned into a frame counts as a failure and stops nothing. -/

namespace LogStream

/-- An exception that was being handled: its type, its text unless only the type is known, and the file
and line that it came from if they are known. -/
structure RaisedError where
  typeName : Text
  text : Option Text := none
  place : Option (Text × Nat) := none
deriving DecidableEq

namespace RaisedError

/-- What the exception says of itself: a missing key says the key, as it is shown. -/
def saying (e : RaisedError) (t : Text) : Text :=
  if e.typeName = Text.lit "KeyError" then Text.quoted t else t

/-- Where the exception came from, and what it says. -/
def trace (e : RaisedError) (file : Text) (line : Nat) : Text :=
  let said := (e.text.map e.saying).getD []
  Text.lit "Traceback (most recent call last):\n  File \"" ++ file ++ Text.lit "\", line " ++
    Text.ofNat line ++ Text.lit ", in <module>\n" ++ e.typeName ++
    (if said = [] then [] else Text.lit ": " ++ said) ++ Text.lit "\n"

end RaisedError

/-- A call of another logging system. -/
structure CallRecord where
  name : Datum := .text []
  level : Datum := .int 20
  path : Datum := .text []
  line : Datum := .int 0
  message : Datum := .text []
  arguments : Datum := .tuple []
  function : Datum := .null
  created : Datum := .float (Double.zero false)
  error : Option RaisedError := none
  /-- What stands in place of the exception, if a further field was put there. -/
  errorField : Option Datum := none
  further : List (Text × Datum) := []

namespace CallRecord

/-- Fields of the other system that are never taken for further ones. -/
def ownFields : List String :=
  ["args", "asctime", "created", "exc_info", "exc_text", "filename", "funcName", "levelname",
    "levelno", "lineno", "message", "module", "msecs", "msg", "name", "pathname", "process",
    "processName", "relativeCreated", "stack_info", "taskName", "thread", "threadName"]

/-- Arguments that are one dictionary with entries are taken by key. -/
def argumentsOf : List Datum → Datum
  | [.map (e :: es)] => .map (e :: es)
  | ds => .tuple ds

/-- Sets a field by name. -/
def setField (r : CallRecord) (field : Text) (d : Datum) : CallRecord :=
  if field = Text.lit "name" then { r with name := d }
  else if field = Text.lit "levelno" then { r with level := d }
  else if field = Text.lit "pathname" then { r with path := d }
  else if field = Text.lit "lineno" then { r with line := d }
  else if field = Text.lit "msg" then { r with message := d }
  else if field = Text.lit "args" then { r with arguments := d }
  else if field = Text.lit "funcName" then { r with function := d }
  else if field = Text.lit "created" then { r with created := d }
  else if field = Text.lit "exc_info" then { r with error := none, errorField := some d }
  else if ownFields.any fun f => Text.lit f == field then r
  else { r with further := Attrs.put r.further field d }

/-- The name under which the message is asked for; a further field of this name hides it. -/
def messageName : Text := Text.lit "getMessage"

/-- The message: the template, filled in if there are arguments. -/
def messageText? (r : CallRecord) : Option Text :=
  if r.further.any (fun a => a.1 == messageName) || !r.message.isPrintable then none
  else if r.arguments.truth then Percent.format? r.message.display r.arguments
  else some r.message.display

/-- The level by threshold, if the record's is a number. -/
def eventLevel? (r : CallRecord) : Option Level :=
  r.level.number?.map fun n =>
    let atLeast (bound : Int) : Bool := (Number.compare? (.int bound) n).any (· != .gt)
    if atLeast 40 then .error else if atLeast 30 then .warn else if atLeast 20 then .info else .debug

/-- The time at which the call was made. -/
def time? (r : CallRecord) : Option Time :=
  match r.created.number? with
  | some (.int n) => Time.ofInstant? (n * microsPerSecond)
  | some (.double x) => Time.ofSeconds? x
  | none => none

/-- Where the call was made: nowhere if there is no path, or one that says so. -/
def origin? (r : CallRecord) : Option (Option Text) :=
  if !r.path.truth || r.path.same (.text (Text.lit "(unknown file)")) then some none
  else if r.path.isPrintable && r.line.isPrintable then
    some (some (r.path.display ++ Text.lit ":" ++ r.line.display))
  else none

/-- The fields that may be chosen, by name. -/
def chosen? (r : CallRecord) (field : Text) : Option Datum :=
  if field = Text.lit "module" then some r.name
  else if field = Text.lit "funcName" then some (if r.function.truth then r.function else .text [])
  else if field = Text.lit "lineno" then some r.line
  else if field = Text.lit "pathname" then some r.path
  else none

/-- What is known of an exception, as attributes. -/
def errorAttrs (e : RaisedError) : List (Text × Datum) :=
  [(Text.lit "exc_type", Datum.text e.typeName)] ++
    (e.text.map fun t => (Text.lit "exc_message", Datum.text (e.saying t))).toList ++
    (e.place.map fun p => (Text.lit "exc_traceback", Datum.text (e.trace p.1 p.2))).toList

/-- The three parts of a datum in place of an exception. -/
def parts? : Datum → Option (Datum × Datum × Datum)
  | .list [a, b, c] => some (a, b, c)
  | .tuple [a, b, c] => some (a, b, c)
  | .map [(a, _), (b, _), (c, _)] => some (a, b, c)
  | _ => none

/-- What a datum in place of an exception gives: nothing, or a message if it has three parts of which
the others say nothing. -/
def errorFieldAttrs? (d : Datum) : Option (List (Text × Datum)) :=
  if !d.truth then some []
  else
    match parts? d with
    | some (.null, .null, .null) => some []
    | some (.null, d, .null) =>
      if d.isPrintable then some [(Text.lit "exc_message", .text d.display)] else none
    | _ => none

/-- The attributes about exceptions. -/
def exceptionAttrs? (r : CallRecord) : Option (List (Text × Datum)) :=
  match r.error, r.errorField with
  | some e, _ => some (errorAttrs e)
  | none, some d => errorFieldAttrs? d
  | none, none => some []

end CallRecord

/-- What the surroundings of a call provide. -/
inductive Surroundings
  | none
  | attrs (provided : List (Text × Datum))
  | failing

/-- A bridge into a handler. -/
structure Bridge where
  handler : Handler := {}
  /-- The fields that are put into every record. -/
  fields : List Text := ["module", "funcName", "lineno", "pathname"].map Text.lit
  surroundings : Surroundings := .none
  /-- The sink can be told to write out what it holds back. -/
  flushes : Bool := true

namespace Bridge

/-- The fields of a record that are put into every record. -/
def fieldAttrs (b : Bridge) (r : CallRecord) : List (Text × Datum) :=
  Attrs.putAll [] (b.fields.filterMap fun f => (r.chosen? f).map fun d => (f, d))

/-- The attributes of a call record: later ones replace earlier ones of the same name. -/
def attrs? (b : Bridge) (r : CallRecord) : Option (List (Text × Datum)) := do
  let provided ← match b.surroundings with
    | .none => some []
    | .attrs provided => some provided
    | .failing => none
  let exception ← r.exceptionAttrs?
  return Attrs.putAll (Attrs.putAll (Attrs.putAll (b.fieldAttrs r) provided) r.further) exception

/-- The event of a call record. -/
def event? (b : Bridge) (r : CallRecord) : Option Event := do
  let message ← r.messageText?
  let level ← r.eventLevel?
  let time ← r.time?
  let attrs ← b.attrs? r
  let origin ← r.origin?
  return { message, level := .level level, time := some time,
           attrs := attrs.map fun a => Attr.ofDatum a.1 a.2, origin }

/-- Writes a call record; none is written if that fails. -/
def emit (b : Bridge) (r : CallRecord) (o : Output) : Option Outcome × Output :=
  match b.event? r with
  | none => (none, o)
  | some e =>
    match b.handler.handle e o with
    | (.failed _, o) => (none, o)
    | (outcome, o) => (some outcome, o)

end Bridge

end LogStream
