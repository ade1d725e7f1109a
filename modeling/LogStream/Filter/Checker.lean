import LogStream.Filter.Builtin
import LogStream.Number.Basic
import LogStream.Filter.CompileError
import LogStream.Filter.Expr

/-! # Checking types

The type of an expression, from the types of its variables. The first error in evaluation order is
reported; the arguments of a call come before its receiver. -/

namespace LogStream.Filter

/-- The variables in scope with their types, the innermost first. -/
abbrev Scope := List (Text × Ty)

/-- The error that no rule takes operands of the given types. -/
def overloadError (pos : Nat) (name : Text) (args : List Ty) : CompileError :=
  .at pos (.noOverload name args)

/-! ### Rules -/

/-- The type of an arithmetic operation on operands that are not `dyn`. -/
def arithmeticType? : BinaryOp → Ty → Ty → Option Ty
  | .add, .int, .int => some .int
  | .add, .uint, .uint => some .uint
  | .add, .double, .double => some .double
  | .add, .string, .string => some .string
  | .add, .bytes, .bytes => some .bytes
  | .add, .list a, .list b => some (.list (.join [a, b]))
  | .add, .timestamp, .duration => some .timestamp
  | .add, .duration, .timestamp => some .timestamp
  | .add, .duration, .duration => some .duration
  | .sub, .int, .int => some .int
  | .sub, .uint, .uint => some .uint
  | .sub, .double, .double => some .double
  | .sub, .timestamp, .timestamp => some .duration
  | .sub, .timestamp, .duration => some .timestamp
  | .sub, .duration, .duration => some .duration
  | .mul, .int, .int => some .int
  | .mul, .uint, .uint => some .uint
  | .mul, .double, .double => some .double
  | .div, .int, .int => some .int
  | .div, .uint, .uint => some .uint
  | .div, .double, .double => some .double
  | .mod, .int, .int => some .int
  | .mod, .uint, .uint => some .uint
  | _, _, _ => none

/-- Two types of which one value may equal another. -/
def comparable (a b : Ty) : Bool := a.assignable b || a = .null || b = .null

/-- Two types of which one value may be less than another. -/
def mutuallyOrdered (a b : Ty) : Bool := a = .dyn || b = .dyn || (a = b && a.isOrdered)

/-- A value of the first type may be an element or a key of the second. -/
def mayContain (a : Ty) : Ty → Bool
  | .dyn => true
  | .list e => a.assignable e
  | .map k _ => a.assignable k
  | _ => false

/-- The type of a binary operation. -/
def binaryType? (op : BinaryOp) (a b : Ty) : Option Ty :=
  let truth (holds : Bool) : Option Ty := if holds then some .bool else none
  match op with
  | .or => truth (a.assignable .bool && b.assignable .bool)
  | .and => truth (a.assignable .bool && b.assignable .bool)
  | .eq => truth (comparable a b)
  | .ne => truth (comparable a b)
  | .lt => truth (mutuallyOrdered a b)
  | .le => truth (mutuallyOrdered a b)
  | .gt => truth (mutuallyOrdered a b)
  | .ge => truth (mutuallyOrdered a b)
  | .mem => truth (mayContain a b)
  | op => if a = .dyn ∨ b = .dyn then some .dyn else arithmeticType? op a b

/-- The type of a prefix operation. -/
def unaryType? : UnaryOp → Ty → Option Ty
  | .not, a => if a.assignable .bool then some .bool else none
  | .neg, .int => some .int
  | .neg, .double => some .double
  | .neg, .duration => some .duration
  | .neg, .dyn => some .dyn
  | .neg, _ => none

/-- The type of a field. -/
def fieldType (pos : Nat) : Ty → Except CompileError Ty
  | .dyn => .ok .dyn
  | .map k v =>
    if Ty.string.assignable k then .ok v else .error (.at pos (.noSelection (.map k v)))
  | t => .error (.at pos (.noSelection t))

/-- The type of an element or of the value under a key. -/
def elementType (pos : Nat) (operand key : Ty) : Except CompileError Ty :=
  let refuse : Except CompileError Ty :=
    .error (overloadError pos (Text.lit "_[_]") [operand, key])
  match operand with
  | .dyn => .ok .dyn
  | .list e => if key = .int ∨ key = .uint ∨ key = .dyn then .ok e else refuse
  | .map k v => if key.assignable k then .ok v else refuse
  | _ => refuse

/-- A selection: within an optional value, lenient, or plain. -/
def selectionType (access : Ty → Except CompileError Ty) (lenient : Bool) :
    Ty → Except CompileError Ty
  | .optional e => (access e).map .optional
  | t => (access t).map fun r => if lenient then .optional r else r

/-- The type of the variable of a walk. -/
def rangeElem (pos : Nat) : Ty → Except CompileError Ty
  | .dyn => .ok .dyn
  | .list e => .ok e
  | .map k _ => .ok k
  | t => .error (.at pos (.badRange t))

/-- The type of a walk with elements and a body of given types. -/
def walkType (bodyPos : Nat) (kind : Walk) (elem body : Ty) : Except CompileError Ty :=
  match kind with
  | .map => .ok (.list body)
  | .sortBy =>
    if body = .dyn ∨ body.isOrdered then .ok (.list elem)
    else .error (.at bodyPos (.badSortKey body))
  | kind =>
    if body.assignable .bool then .ok (if kind = .filter then .list elem else .bool)
    else .error (.at bodyPos (.badPredicate kind.name body))

/-- The type of a conditional. -/
def conditionalType (pos : Nat) (condition yes no : Ty) : Except CompileError Ty :=
  if yes = no then .ok yes
  else if yes.assignable no then .ok .dyn
  else .error (overloadError pos (Text.lit "_?_:_") [condition, yes, no])

/-- The type of a call. -/
def callType (pos : Nat) (function? : Option Builtin) (name : Text) (args : List Ty) :
    Except CompileError Ty :=
  match function? with
  | none => .error (.at pos (.undeclared name))
  | some f =>
    match f.signature args with
    | none => .error (overloadError pos name args)
    | some t => .ok t

/-- The type of a literal. -/
def constantType (pos : Nat) : Constant → Except CompileError Ty
  | .null => .ok .null
  | .bool _ => .ok .bool
  | .int n => if int64Max < n then .error (.at pos .intOutOfRange) else .ok .int
  | .uint _ => .ok .uint
  | .double _ => .ok .double
  | .string _ => .ok .string
  | .bytes _ => .ok .bytes

/-! ### Expressions -/

mutual

/-- The type of an expression. -/
def check (scope : Scope) : Expr → Except CompileError Ty
  | .literal pos c => constantType pos c
  | .ident pos name =>
    match scope.lookup name with
    | some t => .ok t
    | none => .error (.at pos (.undeclared name))
  | .select pos operand _ lenient => do
    selectionType (fieldType pos) lenient (← check scope operand)
  | .index pos operand key lenient => do
    let t ← check scope operand
    let k ← check scope key
    selectionType (fun t => elementType pos t k) lenient t
  | .call pos f args => do
    let ts ← checkAll scope args
    callType pos (Builtin.global? f) f ts
  | .method pos f receiver args => do
    let ts ← checkAll scope args
    let t ← check scope receiver
    callType pos (Builtin.member? f) f (t :: ts)
  | .list _ elements => do return .list (.join (← checkAll scope elements))
  | .map _ entries => do
    let (keys, contents) ← checkEntries scope entries
    return .map (.join keys) (.join contents)
  | .unary pos op operand => do
    let t ← check scope operand
    match unaryType? op t with
    | some r => return r
    | none => throw (overloadError pos (Text.lit s!"{op.symbol}_") [t])
  | .binary pos op left right => do
    let a ← check scope left
    let b ← check scope right
    match binaryType? op a b with
    | some r => return r
    | none => throw (overloadError pos (Text.lit s!"_{op.symbol}_") [a, b])
  | .conditional pos condition yes no => do
    let c ← check scope condition
    if c.assignable .bool then
      let a ← check scope yes
      let b ← check scope no
      conditionalType pos c a b
    else throw (.at pos (.badCondition c))
  | .has pos _ operand _ => do
    match ← check scope operand with
    | .dyn => return .bool
    | .map _ _ => return .bool
    | t => throw (.at pos (.noSelection t))
  | .walk pos kind range var body => do
    let elem ← rangeElem pos (← check scope range)
    let t ← check ((var, elem) :: scope) body
    walkType body.pos kind elem t
  | .bind _ var init body => do
    let t ← check scope init
    check ((var, t) :: scope) body
termination_by structural e => e

/-- The types of some expressions. -/
def checkAll (scope : Scope) : List Expr → Except CompileError (List Ty)
  | [] => .ok []
  | e :: es => do
    let t ← check scope e
    let ts ← checkAll scope es
    return t :: ts
termination_by structural es => es

/-- The types of the keys and of the contents of some entries. -/
def checkEntries (scope : Scope) : List (Expr × Expr) → Except CompileError (List Ty × List Ty)
  | [] => .ok ([], [])
  | (key, content) :: es => do
    let k ← check scope key
    if k.isKey then
      let c ← check scope content
      let (ks, cs) ← checkEntries scope es
      return (k :: ks, c :: cs)
    else throw (.at key.pos (.badKeyType k))
termination_by structural es => es

end

end LogStream.Filter
