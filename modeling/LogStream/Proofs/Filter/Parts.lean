import LogStream.Filter.Builtin
import LogStream.Filter.Expr

/-! # Parts of expressions

The expressions in an expression (`Expr.nodes`), and what a call in it calls (`Expr.call?`).

An expression leaves the names of some variables open (`Expr.free`); walks and bindings in it bind names
(`Expr.bound`). What stands for an open name can be put in its place (`Expr.replace`): up to the parts
that bind this name anew. -/

namespace LogStream.Filter

/-! ### Expressions in an expression -/

mutual

/-- The expression and all expressions in it. -/
def Expr.nodes : Expr → List Expr
  | e@(.literal _ _) => [e]
  | e@(.ident _ _) => [e]
  | e@(.select _ operand _ _) => e :: operand.nodes
  | e@(.index _ operand key _) => e :: (operand.nodes ++ key.nodes)
  | e@(.call _ _ args) => e :: Expr.nodesAll args
  | e@(.method _ _ receiver args) => e :: (receiver.nodes ++ Expr.nodesAll args)
  | e@(.list _ elements) => e :: Expr.nodesAll elements
  | e@(.map _ entries) => e :: Expr.nodesEntries entries
  | e@(.unary _ _ operand) => e :: operand.nodes
  | e@(.binary _ _ left right) => e :: (left.nodes ++ right.nodes)
  | e@(.conditional _ condition yes no) => e :: (condition.nodes ++ (yes.nodes ++ no.nodes))
  | e@(.has _ _ operand _) => e :: operand.nodes
  | e@(.walk _ _ range _ body) => e :: (range.nodes ++ body.nodes)
  | e@(.bind _ _ init body) => e :: (init.nodes ++ body.nodes)
termination_by structural e => e

def Expr.nodesAll : List Expr → List Expr
  | [] => []
  | e :: es => e.nodes ++ Expr.nodesAll es
termination_by structural es => es

def Expr.nodesEntries : List (Expr × Expr) → List Expr
  | [] => []
  | (key, content) :: es => key.nodes ++ (content.nodes ++ Expr.nodesEntries es)
termination_by structural es => es

end

theorem Expr.mem_nodes (e : Expr) : e ∈ e.nodes := by
  cases e <;> exact List.mem_cons_self

/-- The function that an expression calls, and the expressions of its arguments. -/
def Expr.call? : Expr → Option (Builtin × List Expr)
  | .call _ f args => (Builtin.global? f).map (·, args)
  | .method _ f receiver args => (Builtin.member? f).map (·, receiver :: args)
  | _ => none

namespace Expr

/-! ### Open names and bound names -/

mutual

/-- The names that an expression leaves open. -/
def free : Expr → List Text
  | .literal _ _ => []
  | .ident _ name => [name]
  | .select _ operand _ _ => operand.free
  | .index _ operand key _ => operand.free ++ key.free
  | .call _ _ args => freeAll args
  | .method _ _ receiver args => receiver.free ++ freeAll args
  | .list _ elements => freeAll elements
  | .map _ entries => freeEntries entries
  | .unary _ _ operand => operand.free
  | .binary _ _ left right => left.free ++ right.free
  | .conditional _ condition yes no => condition.free ++ (yes.free ++ no.free)
  | .has _ _ operand _ => operand.free
  | .walk _ _ range var body => range.free ++ body.free.filter (· ≠ var)
  | .bind _ var init body => init.free ++ body.free.filter (· ≠ var)
termination_by structural e => e

def freeAll : List Expr → List Text
  | [] => []
  | e :: es => e.free ++ freeAll es
termination_by structural es => es

def freeEntries : List (Expr × Expr) → List Text
  | [] => []
  | (key, content) :: es => key.free ++ (content.free ++ freeEntries es)
termination_by structural es => es

end

mutual

/-- The names that walks and bindings in an expression bind. -/
def bound : Expr → List Text
  | .literal _ _ => []
  | .ident _ _ => []
  | .select _ operand _ _ => operand.bound
  | .index _ operand key _ => operand.bound ++ key.bound
  | .call _ _ args => boundAll args
  | .method _ _ receiver args => receiver.bound ++ boundAll args
  | .list _ elements => boundAll elements
  | .map _ entries => boundEntries entries
  | .unary _ _ operand => operand.bound
  | .binary _ _ left right => left.bound ++ right.bound
  | .conditional _ condition yes no => condition.bound ++ (yes.bound ++ no.bound)
  | .has _ _ operand _ => operand.bound
  | .walk _ _ range var body => range.bound ++ var :: body.bound
  | .bind _ var init body => init.bound ++ var :: body.bound
termination_by structural e => e

def boundAll : List Expr → List Text
  | [] => []
  | e :: es => e.bound ++ boundAll es
termination_by structural es => es

def boundEntries : List (Expr × Expr) → List Text
  | [] => []
  | (key, content) :: es => key.bound ++ (content.bound ++ boundEntries es)
termination_by structural es => es

end

/-! ### Expressions for names -/

mutual

/-- What an expression for each place of a name makes of an expression, where it is put in for the open
occurrences of this name. -/
def replace (x : Text) (put : Nat → Expr) : Expr → Expr
  | .literal pos c => .literal pos c
  | .ident pos name => if name = x then put pos else .ident pos name
  | .select pos operand field lenient => .select pos (operand.replace x put) field lenient
  | .index pos operand key lenient =>
    .index pos (operand.replace x put) (key.replace x put) lenient
  | .call pos f args => .call pos f (replaceAll x put args)
  | .method pos f receiver args => .method pos f (receiver.replace x put) (replaceAll x put args)
  | .list pos elements => .list pos (replaceAll x put elements)
  | .map pos entries => .map pos (replaceEntries x put entries)
  | .unary pos op operand => .unary pos op (operand.replace x put)
  | .binary pos op left right => .binary pos op (left.replace x put) (right.replace x put)
  | .conditional pos condition yes no =>
    .conditional pos (condition.replace x put) (yes.replace x put) (no.replace x put)
  | .has pos selectPos operand field => .has pos selectPos (operand.replace x put) field
  | .walk pos kind range var body =>
    .walk pos kind (range.replace x put) var (if var = x then body else body.replace x put)
  | .bind pos var init body =>
    .bind pos var (init.replace x put) (if var = x then body else body.replace x put)
termination_by structural e => e

def replaceAll (x : Text) (put : Nat → Expr) : List Expr → List Expr
  | [] => []
  | e :: es => e.replace x put :: replaceAll x put es
termination_by structural es => es

def replaceEntries (x : Text) (put : Nat → Expr) : List (Expr × Expr) → List (Expr × Expr)
  | [] => []
  | (key, content) :: es => (key.replace x put, content.replace x put) :: replaceEntries x put es
termination_by structural es => es

end

mutual

/-- The name itself put in for a name changes nothing. -/
@[simp] theorem replace_self (x : Text) : ∀ e : Expr, (e.replace x fun pos => .ident pos x) = e
  | .literal _ _ => rfl
  | .ident _ name => by
    unfold replace
    split
    · next h => rw [h]
    · rfl
  | .select _ operand _ _ => by simp [replace, replace_self x operand]
  | .index _ operand key _ => by simp [replace, replace_self x operand, replace_self x key]
  | .call _ _ args => by simp [replace, replaceAll_self x args]
  | .method _ _ receiver args => by
    simp [replace, replace_self x receiver, replaceAll_self x args]
  | .list _ elements => by simp [replace, replaceAll_self x elements]
  | .map _ entries => by simp [replace, replaceEntries_self x entries]
  | .unary _ _ operand => by simp [replace, replace_self x operand]
  | .binary _ _ left right => by simp [replace, replace_self x left, replace_self x right]
  | .conditional _ condition yes no => by
    simp [replace, replace_self x condition, replace_self x yes, replace_self x no]
  | .has _ _ operand _ => by simp [replace, replace_self x operand]
  | .walk _ _ range _ body => by simp [replace, replace_self x range, replace_self x body]
  | .bind _ _ init body => by simp [replace, replace_self x init, replace_self x body]
termination_by structural e => e

theorem replaceAll_self (x : Text) : ∀ es : List Expr, replaceAll x (.ident · x) es = es
  | [] => rfl
  | e :: es => by simp [replaceAll, replace_self x e, replaceAll_self x es]
termination_by structural es => es

theorem replaceEntries_self (x : Text) :
    ∀ es : List (Expr × Expr), replaceEntries x (.ident · x) es = es
  | [] => rfl
  | (key, content) :: es => by
    simp [replaceEntries, replace_self x key, replace_self x content, replaceEntries_self x es]
termination_by structural es => es

end

/-- An expression with another name for an open name. -/
def rename (x y : Text) (e : Expr) : Expr := e.replace x fun pos => .ident pos y

/-- A walk or a binding with another name for its variable, one that does not occur in its body. -/
inductive Renames (y : Text) : Expr → Expr → Prop
  | walk {pos : Nat} {kind : Walk} {range body : Expr} {x : Text} (hfree : y ∉ body.free)
      (hbound : y ∉ body.bound) :
      Renames y (.walk pos kind range x body) (.walk pos kind range y (body.rename x y))
  | bind {pos : Nat} {init body : Expr} {x : Text} (hfree : y ∉ body.free)
      (hbound : y ∉ body.bound) :
      Renames y (.bind pos x init body) (.bind pos y init (body.rename x y))

end Expr

end LogStream.Filter
