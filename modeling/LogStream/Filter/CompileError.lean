import LogStream.Fault
import LogStream.Text.Numeral
import LogStream.Text.Quoted
import LogStream.Filter.Ty

/-! # Why an expression is not a program

Every cause but one is found at an offset of the expression. Some literals end in a fault. -/

namespace LogStream.Filter

/-- What is wrong with an expression. -/
inductive CompileCause
  -- In its text.
  | badCharacter (c : CodePoint)
  | badEscape (c : CodePoint)
  | intOutOfRange
  | uintOutOfRange
  -- In its grammar.
  | emptyExpression
  | unexpectedEnd
  | unexpectedToken (found : Text)
  | unexpectedIn
  /-- The token found is empty at the end of the expression. -/
  | expected (what : String) (found : Text)
  | expectedIdent (found : Text)
  | hasArgument
  | bindArguments
  | walkVariable (name : Text)
  -- In its types.
  | undeclared (name : Text)
  | noOverload (name : Text) (args : List Ty)
  | noSelection (operand : Ty)
  | badKeyType (key : Ty)
  | badCondition (condition : Ty)
  | badRange (range : Ty)
  | badPredicate (walk : String) (body : Ty)
  | badSortKey (body : Ty)
deriving DecidableEq

/-- Why an expression is not a program. -/
inductive CompileError
  | at (pos : Nat) (cause : CompileCause)
  /-- The expression as a whole is not of a truth type. -/
  | badOutput (output : Ty)
  | fault (f : Fault)
deriving DecidableEq

namespace CompileCause

/-- A token as it is named where another one was expected. -/
def foundText (found : Text) : Text :=
  Text.quoted (if found = [] then Text.lit "end of input" else found)

/-- A type between quotes. -/
def tyText (t : Ty) : Text := Text.lit s!"'{t.render}'"

def message : CompileCause → Text
  | badCharacter c => Text.lit "unexpected character " ++ Text.quoted [c]
  | badEscape c => Text.lit "invalid escape sequence \\" ++ [c]
  | intOutOfRange => Text.lit "int literal out of range"
  | uintOutOfRange => Text.lit "uint literal out of range"
  | emptyExpression => Text.lit "empty expression"
  | unexpectedEnd => Text.lit "unexpected end of input"
  | unexpectedToken found => Text.lit "unexpected token " ++ Text.quoted found
  | unexpectedIn => Text.lit "unexpected keyword 'in'"
  | expected what found => Text.lit s!"expected '{what}', found " ++ foundText found
  | expectedIdent found => Text.lit "expected identifier, found " ++ foundText found
  | hasArgument => Text.lit "has() requires a field selection argument"
  | bindArguments => Text.lit "cel.bind() requires (name, init, expr)"
  | walkVariable name => name ++ Text.lit "() requires an identifier as its first argument"
  | undeclared name => Text.lit "undeclared reference to '" ++ name ++ Text.lit "'"
  | noOverload name args =>
    Text.lit "found no matching overload for '" ++ name ++ Text.lit "' applied to '(" ++
      Text.commaList (args.map fun t => Text.lit t.render) ++ Text.lit ")'"
  | noSelection operand =>
    Text.lit "type " ++ tyText operand ++ Text.lit " does not support field selection"
  | badKeyType key => Text.lit "unsupported map key type " ++ tyText key
  | badCondition condition => Text.lit "conditional requires bool, found " ++ tyText condition
  | badRange range =>
    Text.lit "expression of type " ++ tyText range ++
      Text.lit " cannot be range of a comprehension"
  | badPredicate walk body =>
    Text.lit s!"{walk}() predicate must be bool, found " ++ tyText body
  | badSortKey body => Text.lit "sortBy() key must be orderable, found " ++ tyText body

end CompileCause

namespace CompileError

/-- Where the error was found. -/
def position? : CompileError → Option Nat
  | .at pos _ => some pos
  | _ => none

/-- The wording of an error; a fault has none. -/
def message? : CompileError → Option Text
  | .at pos cause =>
    some (cause.message ++ Text.lit " (at offset " ++ Text.ofNat pos ++ Text.lit ")")
  | badOutput output =>
    some (Text.lit s!"invalid filter expression output type: {output.render}")
  | fault _ => none

end CompileError

end LogStream.Filter
