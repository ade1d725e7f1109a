import LogStream.Handler.Basic

/-! # Loggers

A logger turns calls into events of its handler. A call gives attributes in a row and further ones by
name; a name that a parameter of the call has already is refused. The clock is the caller's: a call
takes the time at which it is made. -/

namespace LogStream

/-- A logger over a handler. -/
structure Logger where
  handler : Handler

/-- What a call gives beside level and message. -/
structure Extras where
  attrs : List Attr := []
  named : List (Text × Datum) := []

namespace Extras

/-- All attributes, those by name behind the others. -/
def all (x : Extras) : List Attr := x.attrs ++ x.named.map fun a => Attr.ofDatum a.1 a.2

/-- A name is given that is taken already. -/
def clash (x : Extras) (taken : List String) : Bool :=
  x.named.any fun a => taken.any fun t => Text.lit t == a.1

end Extras

namespace Logger

/-- A logger whose records also carry the given attributes. -/
def derive? (l : Logger) (x : Extras) : Except EncodeError Logger :=
  if x.clash ["self"] then .error (.fault .wrongType) else .ok ⟨l.handler.withAttrs x.all⟩

/-- A logger that puts everything further under a name. -/
def withGroup (l : Logger) (name : Text) : Logger := ⟨l.handler.withGroup name⟩

/-- Where a call is made; the library only needs that it is somewhere. -/
def callSite : Text := Text.lit "call"

/-- Makes a call of which the parameters have the given names. -/
def call (taken : List String) (now : Time) (l : Logger) (level : LevelMark) (message : Text)
    (x : Extras) (o : Output) : Outcome × Output :=
  if x.clash taken then (.failed (.fault .wrongType), o)
  else
    match l.handler.enabled? level with
    | none => (.failed (.fault .noAttribute), o)
    | some false => (.disabled, o)
    | some true =>
      l.handler.handle
        { message, level, time := some now, attrs := x.all, origin := some callSite } o

/-- Logs a message at a level. -/
def log : Time → Logger → LevelMark → Text → Extras → Output → Outcome × Output :=
  call ["self", "level", "message"]

/-- Logs a message at the level that the call is named for. -/
def logAt (now : Time) (l : Logger) (level : Level) : Text → Extras → Output → Outcome × Output :=
  call ["self", "message"] now l (.level level)

/-! ### Timed blocks -/

/-- A message about a phase of a block. -/
def phaseMessage (message : Text) (phase : String) : Text :=
  message ++ Text.lit " [" ++ Text.lit phase ++ Text.lit "]"

/-- Makes a call about a phase of a block, with the phase and perhaps more by name. -/
def logPhase (now : Time) (l : Logger) (level : LevelMark) (message : Text) (phase : String)
    (more named : List (Text × Datum)) (o : Output) : Outcome × Output :=
  let own := (Text.lit "phase", Datum.text (Text.lit phase)) :: more
  if (Extras.mk [] named).clash (own.map fun a => a.1.toString) then
    (.failed (.fault .wrongType), o)
  else log now l level (phaseMessage message phase) { named := own ++ named } o

/-- Logs the entry into a block and the exit from it with the time that it took. A block that fails is
left without a word about its exit. -/
def timed (now : Time) (elapsed : Duration) (l : Logger) (message : Text) (level : LevelMark)
    (named : List (Text × Datum)) (bodyFails : Bool) (o : Output) :
    Option EncodeError × Output :=
  if (Extras.mk [] named).clash ["logger", "message", "level"] then
    (some (.fault .wrongType), o)
  else
    let (entry, o) := logPhase now l level message "entry" [] named o
    match entry.error? with
    | some e => (some e, o)
    | none =>
      if bodyFails then (some (.fault .bodyFailed), o)
      else
        let more := [(Text.lit "elapsed", Datum.duration elapsed)]
        let (exit, o) := logPhase now l level message "exit" more named o
        (exit.error?, o)

end Logger

end LogStream
