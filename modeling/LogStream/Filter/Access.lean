import LogStream.Filter.EvalError
import LogStream.Filter.Expr

/-! # Operators on values

Selection and indexing, arithmetic, comparison and membership. Integers are exact or fail: a result has
to lie between the least signed and the greatest unsigned 64-bit integer. -/

namespace LogStream.Filter

namespace Dyn

/-! ### Fields and elements -/

/-- What an optional value leads to: its content, another value itself. -/
def unwrapped? : Dyn → Option Dyn
  | optional c => c
  | v => some v

def isOptional : Dyn → Bool
  | optional _ => true
  | _ => false

/-- The value of a field, if the map has it. -/
def field? (v : Dyn) (field : Text) : Eval (Option Dyn) :=
  match v with
  | map es => .ok (lookup? (string field) es)
  | v => Eval.fail (.noSelection v.typeName)

/-- The optional value of a field. -/
def selectLenient (v : Dyn) (field : Text) : Eval Dyn :=
  match v.unwrapped? with
  | none => .ok (optional none)
  | some w => (w.field? field).map optional

/-- The value of a field that has to be there, unless the map is the content of an optional value. -/
def select (v : Dyn) (field : Text) : Eval Dyn :=
  if v.isOptional then v.selectLenient field
  else do
    match ← v.field? field with
    | some w => return w
    | none => Eval.fail (.noSuchKey field)

/-- The place in a list that a number stands for. -/
def place? : Dyn → Option Int
  | int n => some n
  | double x => if x.isWhole then some x.truncate else none
  | _ => none

/-- The entry of a map under an index: a truth value only finds a truth value. -/
def contentAt? (key : Dyn) (entries : List (Dyn × Dyn)) : Option Dyn :=
  match key with
  | bool b =>
    (entries.find? fun e => match e.1 with
      | bool c => b == c
      | _ => false).map Prod.snd
  | key => lookup? key entries

/-- The element or the content under an index, if there is one. -/
def element? (v key : Dyn) : Eval (Option Dyn) :=
  match v with
  | list xs =>
    match key.place? with
    | some i => .ok (if 0 ≤ i then xs[i.toNat]? else none)
    | none => Eval.noOverload "_[_]" [v, key]
  | map es => if key.isHashable then .ok (contentAt? key es) else Eval.stop .wrongType
  | v => Eval.noOverload "_[_]" [v, key]

/-- The optional value under an index. -/
def indexLenient (v key : Dyn) : Eval Dyn :=
  match v.unwrapped? with
  | none => .ok (optional none)
  | some w => (w.element? key).map optional

/-- The value under an index that has to be there, unless the list or map is the content of an optional
value. -/
def index (v key : Dyn) : Eval Dyn :=
  if v.isOptional then v.indexLenient key
  else do
    match ← v.element? key, v with
    | some w, _ => return w
    | none, list _ => Eval.failShowing key (.indexOutOfBounds key.display)
    | none, _ => Eval.failShowing key (.noSuchKey key.display)

/-- A map has a field. -/
def hasField (v : Dyn) (field : Text) : Eval Dyn := do
  return bool (← v.field? field).isSome

/-! ### Arithmetic -/

/-- An integer, if it is in range. -/
def checked (n : Int) : Eval Dyn :=
  if int64Min ≤ n ∧ n ≤ uint64Max then .ok (int n) else Eval.fail .integerOverflow

/-- A double over another one: over zero it is infinite with the sign of the first, or no number. -/
def divideDouble (x y : Double) : Double :=
  if y.isZero then
    if x.isZero || x.isNaN then Double.nan else Double.infinity x.isNegative
  else x.div y

/-- A result, or an error where it is out of the range of its type. -/
def orOverflow {α : Type} (typeName : String) (make : α → Dyn) : Option α → Eval Dyn
  | some a => .ok (make a)
  | none => Eval.fail (.overflow typeName)

/-- The result of an arithmetic operator. -/
def arithmetic (op : BinaryOp) (v w : Dyn) : Eval Dyn :=
  match op, v, w with
  | .add, int a, int b => checked (a + b)
  | .add, double a, double b => .ok (double (a.add b))
  | .add, string a, string b => .ok (string (a ++ b))
  | .add, bytes a, bytes b => .ok (bytes (a ++ b))
  | .add, list a, list b => .ok (list (a ++ b))
  | .add, timestamp t, duration d => orOverflow "timestamp" timestamp (t.add? d)
  | .add, duration d, timestamp t => orOverflow "duration" timestamp (t.add? d)
  | .add, duration a, duration b => orOverflow "duration" duration (a.add? b)
  | .sub, int a, int b => checked (a - b)
  | .sub, double a, double b => .ok (double (a.sub b))
  | .sub, timestamp t, timestamp u => orOverflow "timestamp" duration (t.since? u)
  | .sub, timestamp t, duration d => orOverflow "timestamp" timestamp (t.sub? d)
  | .sub, duration a, duration b => orOverflow "duration" duration (a.sub? b)
  | .mul, int a, int b => checked (a * b)
  | .mul, double a, double b => .ok (double (a.mul b))
  | .div, int a, int b => if b = 0 then Eval.fail .divisionByZero else checked (Int.tdiv a b)
  | .div, double a, double b => .ok (double (divideDouble a b))
  | .mod, int a, int b => if b = 0 then Eval.fail .modulusByZero else checked (Int.tmod a b)
  | op, v, w => Eval.noOverload s!"_{op.symbol}_" [v, w]

/-- The negation of a number or of a duration. -/
def negate : Dyn → Eval Dyn
  | int n => checked (-n)
  | double x => .ok (double x.neg)
  | duration d => d.neg?.elim (Eval.stop .overflow) fun e => .ok (duration e)
  | v => Eval.noOverload "-_" [v]

/-! ### Comparison and membership -/

/-- An order satisfies a relation. -/
def holds : BinaryOp → Ordering → Bool
  | .lt, o => o == .lt
  | .le, o => o != .gt
  | .gt, o => o == .gt
  | _, o => o != .lt

/-- The result of an order relation; none holds of a not-a-number. -/
def compare (op : BinaryOp) (v w : Dyn) : Eval Dyn :=
  match compare? v w with
  | some o => .ok (bool (o.any (holds op)))
  | none => Eval.noOverload s!"_{op.symbol}_" [v, w]

/-- Some value of a list equals the given one. -/
def isAmong (v : Dyn) (xs : List Dyn) : Bool := xs.any v.equals

/-- An element of a list or a key of a map equals the value. -/
def isIn (v container : Dyn) : Eval Dyn :=
  match container with
  | list xs => .ok (bool (v.isAmong xs))
  | map es => .ok (bool (v.isAmong (es.map Prod.fst)))
  | c => Eval.noOverload "@in" [v, c]

/-- A truth value that an operator asks for. -/
def truth (name : String) : Dyn → Eval Bool
  | bool b => .ok b
  | v => Eval.noOverload name [v]

/-- The result of an operator that takes both operands. -/
def operate (op : BinaryOp) (v w : Dyn) : Eval Dyn :=
  match op with
  | .eq => .ok (bool (v.equals w))
  | .ne => .ok (bool (!v.equals w))
  | .mem => v.isIn w
  | .lt => compare .lt v w
  | .le => compare .le v w
  | .gt => compare .gt v w
  | .ge => compare .ge v w
  | op => arithmetic op v w

end Dyn

end LogStream.Filter
