import LogStream.Filter.Program
import LogStream.Reader.Basic

/-! # Reading through a filter

A client can be put behind a filter program: it then sees only the records that the program selects. A
record on which the program has an error ends the reading, or is passed over with a warning. -/

namespace LogStream

/-- What to do with a record on which the program has an error. -/
inductive ErrorPolicy
  /-- The error ends the reading. -/
  | stop
  /-- The record is passed over with a warning. -/
  | skip
deriving DecidableEq, Repr

/-- Why a client behind a filter fails. -/
inductive SelectFailure (ε : Type)
  | select (e : Filter.SelectError)
  | client (e : ε)

/-- The warning about a record that is passed over. -/
def skipNotice (p : Option Filter.Program) (e : Filter.EvalError) : Notice :=
  .warning (Text.lit "skipping record: error evaluating filter " ++
    Text.quoted (p.elim [] Filter.Program.source) ++ Text.lit ": " ++ e.message)

/-- A reply with its error taken for that of a client behind a filter. -/
def Reply.behindFilter {ε : Type} : Reply ε → Reply (SelectFailure ε)
  | next => next
  | stop => stop
  | fail e => fail (.client e)

/-- The client behind a filter program. -/
def Client.select {σ ε : Type} (c : Client σ ε) (p : Option Filter.Program) (policy : ErrorPolicy) :
    Client σ (SelectFailure ε) where
  cancelled := c.cancelled
  take s r :=
    match Filter.Program.selects p r with
    | .ok true =>
      let (reply, notices, s) := c.take s r
      (reply.behindFilter, notices, s)
    | .ok false => (.next, [], s)
    | .error (.eval e) =>
      match policy with
      | .stop => (.fail (.select (.eval e)), [], s)
      | .skip => (.next, [skipNotice p e], s)
    | .error e => (.fail (.select e), [], s)

end LogStream
