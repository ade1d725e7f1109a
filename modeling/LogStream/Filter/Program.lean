import LogStream.Record.Basic
import LogStream.Filter.Checker
import LogStream.Filter.Evaluator
import LogStream.Filter.Parser

/-! # Filter programs

A program is an expression of the truth type over four variables: the message, the name of the level, the
time and the attributes of a record. It selects the records for which it is true. -/

namespace LogStream.Filter

/-! ### Compiling -/

/-- The variables of a program and their types. -/
def recordScope : Scope :=
  [(Text.lit "msg", .string), (Text.lit "level", .string), (Text.lit "time", .timestamp),
    (Text.lit "attrs", .map .string .dyn)]

/-- A compiled filter. -/
structure Program where
  source : Text
  tree : Expr

namespace Program

/-- The program of an expression, which has to have the truth type. -/
def compile (source : Text) : Except CompileError Program := do
  let tree ← parse source
  let output ← check recordScope tree
  if output = .bool then return ⟨source, tree⟩ else throw (.badOutput output)

end Program

/-! ### Records as variables -/

/-- Why a record gives no values to the variables. -/
inductive BindError
  /-- The level has no name. -/
  | namelessLevel
  | resolve (e : ResolveError)
deriving DecidableEq

/-- The payload of a value as a value of an expression. -/
def payloadOf : Value → Dyn
  | .empty => .null
  | .held _ (.sealed tag data) =>
    .map [(.string (Text.lit "type"), .string tag), (.string (Text.lit "value"), .bytes data)]
  | .held _ d => .ofDatum d
  | .group ms => .members ms
  | .foreign _ => .null

/-- Entries put into a map one after the other: the last of equal keys wins. -/
def textMap (entries : List (Text × Dyn)) : Dyn :=
  .map ((Attrs.putAll [] entries).map fun e => (.string e.1, e.2))

mutual

/-- A value of a record as a value of an expression: groups are maps all the way down. -/
def ofValue : Value → Except ResolveError Dyn
  | .group ms => do return textMap (← ofMembers ms)
  | v => v.resolve.map payloadOf
termination_by structural v => v

def ofMembers : List (Text × Value) → Except ResolveError (List (Text × Dyn))
  | [] => .ok []
  | (k, v) :: ms => do
    let x ← ofValue v
    let r ← ofMembers ms
    return (k, x) :: r
termination_by structural ms => ms

end

/-- The values that a record gives to the variables; without a time the start of 1970 stands for it. -/
def activation (r : Record) : Except BindError Activation :=
  match r.level.level? with
  | none => .error .namelessLevel
  | some level =>
    match ofMembers r.attrs with
    | .error e => .error (.resolve e)
    | .ok attrs =>
      .ok [(Text.lit "msg", .string r.message), (Text.lit "level", .string (Text.lit level.name)),
        (Text.lit "time", .timestamp (r.time.getD Time.epoch)), (Text.lit "attrs", textMap attrs)]

/-! ### Selecting -/

/-- Why a program selects neither way. -/
inductive SelectError
  | eval (e : EvalError)
  | bind (e : BindError)
  | fault (f : Fault)
deriving DecidableEq

/-- The faults that a program does not turn into errors. -/
def escapes : Fault → Bool
  | .noAttribute => true
  | .noMemory => true
  | _ => false

namespace Program

/-- The truth value of a program for given variables. -/
def evaluate (p : Program) (env : Activation) : Except SelectError Bool :=
  match eval env p.tree with
  | .ok (.bool b) => .ok b
  | .ok v => .error (.eval (.badOutput v.outputName))
  | .error (.error e) => .error (.eval e)
  | .error (.fault f) => .error (if escapes f then .fault f else .eval .programFailed)

/-- The record is selected; without a program every one is. -/
def selects (p : Option Program) (r : Record) : Except SelectError Bool :=
  match p with
  | none => .ok true
  | some p =>
    match activation r with
    | .error e => .error (.bind e)
    | .ok env => p.evaluate env

end Program

end LogStream.Filter
