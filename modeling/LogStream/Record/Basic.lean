import LogStream.Record.Level
import LogStream.Value.Resolve

/-! # Records and events

A record is what is written and read; an event is one call that asks for a record. The attributes of a
record are a mapping, those of an event a list in the order of the call. -/

namespace LogStream

/-- A structured log record. -/
structure Record where
  message : Text := []
  level : LevelMark := .level .unset
  time : Option Time := none
  attrs : List Attr := []

/-- One logging call. An event without origin did not come from a call. -/
structure Event where
  message : Text
  level : LevelMark := .level .info
  time : Option Time := none
  attrs : List Attr := []
  origin : Option Text := none

/-- No time, or the one that marks a time that was never set. -/
def isZeroTime (t : Option Time) : Bool := t.all Time.isZero

namespace Record

instance : Inhabited Record := ⟨{}⟩

/-- The attributes as plain data. -/
def attrData (r : Record) : Except ResolveError (List (Text × Datum)) :=
  r.attrs.mapM fun a => a.2.toDatum.map fun d => (a.1, d)

end Record

end LogStream
