import LogStream.Number.Double
import LogStream.Text.Basic

/-! # Expressions

The tree of an expression. Every node knows the offset that messages about it name. -/

namespace LogStream.Filter

/-- The value that a literal stands for. -/
inductive Constant
  | null
  | bool (b : Bool)
  | int (n : Int)
  | uint (n : Nat)
  | double (x : Double)
  | string (t : Text)
  | bytes (bs : Bytes)
deriving DecidableEq

inductive UnaryOp
  | not
  | neg
deriving DecidableEq, Repr

namespace UnaryOp

def symbol : UnaryOp → String
  | not => "!"
  | neg => "-"

def all : List UnaryOp := [not, neg]

end UnaryOp

inductive BinaryOp
  | or
  | and
  | lt
  | le
  | gt
  | ge
  | eq
  | ne
  | mem
  | add
  | sub
  | mul
  | div
  | mod
deriving DecidableEq, Repr

namespace BinaryOp

def symbol : BinaryOp → String
  | or => "||"
  | and => "&&"
  | lt => "<"
  | le => "<="
  | gt => ">"
  | ge => ">="
  | eq => "=="
  | ne => "!="
  | mem => "in"
  | add => "+"
  | sub => "-"
  | mul => "*"
  | div => "/"
  | mod => "%"

/-- How tightly an operator binds, the loosest one first. -/
def level : BinaryOp → Nat
  | or => 0
  | and => 1
  | lt => 2
  | le => 2
  | gt => 2
  | ge => 2
  | eq => 2
  | ne => 2
  | mem => 2
  | add => 3
  | sub => 3
  | mul => 4
  | div => 4
  | mod => 4

/-- How many levels there are. -/
def levels : Nat := 5

def all : List BinaryOp := [or, and, lt, le, gt, ge, eq, ne, mem, add, sub, mul, div, mod]

end BinaryOp

/-- The ways of going through a list or the keys of a map with a variable. -/
inductive Walk
  | all
  | any
  | one
  | map
  | filter
  | sortBy
deriving DecidableEq, Repr

namespace Walk

def name : Walk → String
  | all => "all"
  | any => "exists"
  | one => "exists_one"
  | map => "map"
  | filter => "filter"
  | sortBy => "sortBy"

/-- The walk of a name. -/
def ofName? (name : Text) : Option Walk :=
  [all, any, one, map, filter, sortBy].find? fun w => Text.lit w.name == name

end Walk

/-- An expression. -/
inductive Expr
  | literal (pos : Nat) (value : Constant)
  | ident (pos : Nat) (name : Text)
  /-- A field of a map; a lenient selection gives an optional value. -/
  | select (pos : Nat) (operand : Expr) (field : Text) (lenient : Bool)
  /-- An element of a list or the value under a key; a lenient one gives an optional value. -/
  | index (pos : Nat) (operand key : Expr) (lenient : Bool)
  /-- A call of a function by its name alone. -/
  | call (pos : Nat) (function : Text) (args : List Expr)
  /-- A call of a function on a receiver. -/
  | method (pos : Nat) (function : Text) (receiver : Expr) (args : List Expr)
  | list (pos : Nat) (elements : List Expr)
  | map (pos : Nat) (entries : List (Expr × Expr))
  | unary (pos : Nat) (op : UnaryOp) (operand : Expr)
  | binary (pos : Nat) (op : BinaryOp) (left right : Expr)
  | conditional (pos : Nat) (condition yes no : Expr)
  /-- Whether a map has a field. -/
  | has (pos : Nat) (selectPos : Nat) (operand : Expr) (field : Text)
  | walk (pos : Nat) (kind : Walk) (range : Expr) (var : Text) (body : Expr)
  /-- A body with a name for a value. -/
  | bind (pos : Nat) (var : Text) (init body : Expr)

namespace Expr

instance : Inhabited Expr := ⟨literal 0 .null⟩

/-- The offset that messages about an expression name. -/
def pos : Expr → Nat
  | literal p _ => p
  | ident p _ => p
  | select p .. => p
  | index p .. => p
  | call p .. => p
  | method p .. => p
  | list p _ => p
  | map p _ => p
  | unary p .. => p
  | binary p .. => p
  | conditional p .. => p
  | has p .. => p
  | walk p .. => p
  | bind p .. => p

end Expr

end LogStream.Filter
