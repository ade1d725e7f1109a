import LogStream.Filter.Access
import LogStream.Filter.Apply
import LogStream.Filter.Expr

/-! # Evaluation

The value of an expression, from the values of its variables. Operands are evaluated from the left, except
that the container of `in` comes first. The operators `&&` and `||` absorb an error of one operand where
the other one decides. -/

namespace LogStream.Filter

/-- The variables with their values, the innermost first. -/
abbrev Activation := List (Text × Dyn)

/-- The operand that decides a logical operator. -/
def decisive (op : BinaryOp) : Bool := op = .or

/-- A logical operator on the outcomes of its operands, the second of which is asked for only where the
first does not decide. -/
def logical (op : BinaryOp) (left : Eval Dyn) (right : Unit → Eval Dyn) : Eval Dyn :=
  let name := s!"_{op.symbol}_"
  let first : Eval Bool := left >>= Dyn.truth name
  match first with
  | .error (.fault f) => Eval.stop f
  | .error (.error e) => do
    if (← (← right ()).truth name) = decisive op then return .bool (decisive op) else Eval.fail e
  | .ok b =>
    if b = decisive op then .ok (.bool b)
    else do return .bool (← (← right ()).truth name)

/-- A call, of which a fault about types is an error of the call. -/
def called (function : Text) : Eval Dyn → Eval Dyn
  | .error (.fault .wrongType) => Eval.fail (.callFailed function)
  | r => r

/-- The function of a name; every name that was checked has one. -/
def applyNamed (function? : Option Builtin) (args : List Dyn) : Eval Dyn :=
  match function? with
  | some f => f.apply args
  | none => Eval.stop .missingKey

/-- The elements of a list, or the keys of a map. -/
def iterated : Dyn → Eval (List Dyn)
  | .list xs => .ok xs
  | .map es => .ok (es.map Prod.fst)
  | v => Eval.fail (.notIterable v.typeName)

/-! ### Walks -/

/-- The items with what a body gives for each. -/
def keyed (body : Dyn → Eval Dyn) : List Dyn → Eval (List (Dyn × Dyn))
  | [] => .ok []
  | x :: xs => do
    let k ← body x
    let r ← keyed body xs
    return (k, x) :: r

/-- The items that satisfy a predicate. -/
def filtered (name : String) (body : Dyn → Eval Dyn) : List Dyn → Eval (List Dyn)
  | [] => .ok []
  | x :: xs => do
    let b ← (← body x).truth name
    let r ← filtered name body xs
    return if b then x :: r else r

/-- Whether the predicate gives the sought truth value for some item; it is not asked behind that item. -/
def reaches (name : String) (sought : Bool) (body : Dyn → Eval Dyn) : List Dyn → Eval Bool
  | [] => .ok false
  | x :: xs => do
    if (← (← body x).truth name) = sought then return true else reaches name sought body xs

/-- The value of a walk over some items. -/
def walk (kind : Walk) (body : Dyn → Eval Dyn) (items : List Dyn) : Eval Dyn :=
  match kind with
  | .map => do return .list ((← keyed body items).map Prod.fst)
  | .sortBy => do return .list (← Dyn.sortBy "sortBy" (← keyed body items))
  | .filter => do return .list (← filtered "filter" body items)
  | .all => do return .bool !(← reaches "all" false body items)
  | .any => do return .bool (← reaches "exists" true body items)
  | .one => do return .bool ((← filtered "exists_one" body items).length == 1)

/-! ### Expressions -/

/-- The value of a literal. -/
def Constant.value : Constant → Dyn
  | .null => .null
  | .bool b => .bool b
  | .int n => .int n
  | .uint n => .int n
  | .double x => .double x
  | .string t => .string t
  | .bytes bs => .bytes bs

/-- A map with one more entry, whose key has to be new. -/
def addEntry (entries : List (Dyn × Dyn)) (key : Dyn) (content : Eval Dyn) :
    Eval (List (Dyn × Dyn)) :=
  if !key.isHashable then Eval.stop .wrongType
  else if (Dyn.binding? key entries).isSome then Eval.failShowing key (.duplicateKey key.shown)
  else do return entries ++ [(key, ← content)]

mutual

/-- The value of an expression. -/
def eval (env : Activation) : Expr → Eval Dyn
  | .literal _ c => .ok c.value
  | .ident _ name => (env.lookup name).elim (Eval.fail (.noSuchAttribute name)) .ok
  | .select _ operand field lenient => do
    let v ← eval env operand
    if lenient then v.selectLenient field else v.select field
  | .index _ operand key lenient => do
    let v ← eval env operand
    let k ← eval env key
    if lenient then v.indexLenient k else v.index k
  | .call _ f args => called f do applyNamed (Builtin.global? f) (← evalAll env args)
  | .method _ f receiver args => called f do
    let v ← eval env receiver
    let vs ← evalAll env args
    applyNamed (Builtin.member? f) (v :: vs)
  | .list _ elements => do return .list (← evalAll env elements)
  | .map _ entries => do return .map (← evalEntries env [] entries)
  | .unary _ .not operand => do return .bool !(← (← eval env operand).truth "!_")
  | .unary _ .neg operand => do (← eval env operand).negate
  | .binary _ op left right =>
    match op with
    | .or => logical .or (eval env left) fun _ => eval env right
    | .and => logical .and (eval env left) fun _ => eval env right
    | .mem => do
      let container ← eval env right
      let v ← eval env left
      v.isIn container
    | op => do
      let v ← eval env left
      let w ← eval env right
      Dyn.operate op v w
  | .conditional _ condition yes no => do
    if ← (← eval env condition).truth "_?_:_" then eval env yes else eval env no
  | .has _ _ operand field => do (← eval env operand).hasField field
  | .walk _ kind range var body => do
    let items ← iterated (← eval env range)
    walk kind (fun x => eval ((var, x) :: env) body) items
  | .bind _ var init body => do
    let v ← eval env init
    eval ((var, v) :: env) body
termination_by structural e => e

/-- The values of some expressions. -/
def evalAll (env : Activation) : List Expr → Eval (List Dyn)
  | [] => .ok []
  | e :: es => do
    let v ← eval env e
    let vs ← evalAll env es
    return v :: vs
termination_by structural es => es

/-- Entries put behind those of a map. -/
def evalEntries (env : Activation) (done : List (Dyn × Dyn)) :
    List (Expr × Expr) → Eval (List (Dyn × Dyn))
  | [] => .ok done
  | (key, content) :: es => do
    let k ← eval env key
    let done ← addEntry done k (eval env content)
    evalEntries env done es
termination_by structural es => es

end

end LogStream.Filter
