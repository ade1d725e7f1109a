import LogStream.Value.Basic

/-! # Lazy values

A lazy value is asked for what to log, and so is what it gives if that is lazy again, up to a hundred
times. `Value.resolve` gives the first value of the chain that is not lazy. `Value.settle` is the
whole tree behind a value: groups all the way down, at the leaves the values that are not lazy, and
the failures of the lazy ones where they stand. -/

namespace LogStream

/-- Why a lazy value gives nothing to log. -/
inductive ResolveError
  | failed (typeName : String)
  | endless (typeName : String)
deriving DecidableEq, Repr

namespace ResolveError

def message : ResolveError → Text
  | failed name => Text.lit s!"log_value() failed for {name}"
  | endless name => Text.lit s!"log_value() called too many times on {name}"

end ResolveError

/-- How often a chain of lazy values is asked before it is given up. -/
def maxHops : Nat := 100

namespace Datum

/-- What a datum gives to log in its place. -/
def ask? : Datum → Option Datum
  | lazy d => some d
  | loop => some loop
  | _ => none

end Datum

namespace Value

/-- The first value of a chain that is not lazy, with a number of hops left. -/
def resolveFrom (origin : String) : Nat → Value → Except ResolveError Value
  | hops, held .lazy d =>
    match hops with
    | 0 => .error (.endless origin)
    | hops + 1 =>
      match d.ask? with
      | none => .error (.failed d.typeName)
      | some next => resolveFrom origin hops (ofDatum next)
  | _, v => .ok v

/-- The first value of the chain that is not lazy. -/
def resolve (v : Value) : Except ResolveError Value := resolveFrom v.payload.typeName maxHops v

end Value

/-- A value with all its lazy parts resolved. -/
inductive Settled
  | empty
  | held (kind : Kind) (payload : Datum)
  | group (members : List (Text × Settled))
  | foreign (name : Text)
  | failed (e : ResolveError)

namespace Settled

instance : Inhabited Settled := ⟨empty⟩

end Settled

mutual

/-- The tree behind a value. -/
def Value.settle : Value → Settled
  | .empty => .empty
  | .held .lazy d => Datum.settleAsked d.typeName maxHops d
  | .held kind d => .held kind d
  | .group ms => .group (Value.settleMembers ms)
  | .foreign name => .foreign name
termination_by structural v => v

def Value.settleMembers : List (Text × Value) → List (Text × Settled)
  | [] => []
  | (k, v) :: ms => (k, Value.settle v) :: Value.settleMembers ms
termination_by structural ms => ms

/-- The tree behind the payload of a lazy value, with a number of hops left. -/
def Datum.settleAsked (origin : String) : Nat → Datum → Settled
  | 0, _ => .failed (.endless origin)
  | _ + 1, .loop => .failed (.endless origin)
  | hops + 1, .lazy d => Datum.settleGiven origin hops d
  | _ + 1, d => .failed (.failed d.typeName)
termination_by structural _ d => d

/-- The tree behind a datum that a lazy value gave. -/
def Datum.settleGiven (origin : String) (hops : Nat) : Datum → Settled
  | .null => .empty
  | .bool b => .held .bool (.bool b)
  | .int n => .held (Kind.ofInt n) (.int n)
  | .float x => .held .float (.float x)
  | .text t => .held .string (.text t)
  | .time t => .held .time (.time t)
  | .duration d => .held .duration (.duration d)
  | .map es => .group (Datum.settleEntries es)
  | .value v =>
    match v with
    | .held .lazy d => Datum.settleAsked origin hops d
    | v => Value.settle v
  | .lazy d =>
    match hops with
    | 0 => .failed (.endless origin)
    | hops + 1 => Datum.settleGiven origin hops d
  | .loop => .failed (.endless origin)
  | .broken => if hops = 0 then .failed (.endless origin) else .failed (.failed "Broken")
  | d => .held .any d
termination_by structural d => d

/-- The trees behind the entries of a dictionary. -/
def Datum.settleEntries : List (Datum × Datum) → List (Text × Settled)
  | [] => []
  | (k, d) :: es =>
    let tree := match d with
      | .value v => Value.settle v
      | d => Datum.settleGiven d.typeName maxHops d
    (k.display, tree) :: Datum.settleEntries es
termination_by structural es => es

end

/-! ### Plain data -/

mutual

/-- The plain datum of a tree: groups become dictionaries, in which the last of equal keys wins. -/
def Settled.toDatum : Settled → Except ResolveError Datum
  | .empty => .ok .null
  | .held _ d => .ok d
  | .group ms => do
    let entries ← Settled.membersToData ms
    return .map ((Attrs.putAll [] entries).map fun a => (.text a.1, a.2))
  | .foreign _ => .ok .null
  | .failed e => .error e
termination_by structural s => s

def Settled.membersToData : List (Text × Settled) → Except ResolveError (List (Text × Datum))
  | [] => .ok []
  | (k, s) :: ms => do
    let d ← Settled.toDatum s
    let rest ← Settled.membersToData ms
    return (k, d) :: rest
termination_by structural ms => ms

end

namespace Value

/-- The plain datum of a value. -/
def toDatum (v : Value) : Except ResolveError Datum := v.settle.toDatum

end Value

end LogStream
