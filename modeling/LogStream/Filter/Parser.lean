import LogStream.Filter.Literal

/-! # Parsing

An expression is parsed from its tokens by recursive descent, one function for each rule of the
grammar:

* an expression is a chain of operators, and may go on as a conditional;
* a chain of a level is made of chains of the next tighter level, joined to the left;
* the operands of the tightest chains are members behind any number of prefix operators;
* a member is a primary expression with selections, indexes and calls behind it.

Each function gives the tree and the tokens that are left. The fuel bounds the depth of the calls; a
fixed number for each token is enough. -/

namespace LogStream.Filter

namespace Token

/-- The token is the operator or the word of the given text. -/
def is (t : Token) (s : String) : Bool :=
  (t.kind = .op || t.kind = .ident) && t.text == Text.lit s

/-- The operator that the token stands for between two operands. -/
def binaryOp? (t : Token) : Option BinaryOp := BinaryOp.all.find? fun op => t.is op.symbol

/-- The operator that the token stands for before an operand. -/
def unaryOp? (t : Token) : Option UnaryOp := UnaryOp.all.find? fun op => t.is op.symbol

end Token

/-- The tokens that are left, and where the expression ends. -/
structure Input where
  tokens : List Token
  stop : Nat

namespace Input

/-- Where the next token starts. -/
def pos (i : Input) : Nat := i.tokens.head?.elim i.stop Token.pos

/-- The text of the next token, empty at the end. -/
def found (i : Input) : Text := i.tokens.head?.elim [] Token.text

/-- The next token is the operator or the word of the given text. -/
def isAt (i : Input) (s : String) : Bool := i.tokens.head?.any (·.is s)

/-- The input behind the next token. -/
def next (i : Input) : Input := { i with tokens := i.tokens.tail }

/-- An error at the next token. -/
def fail {α : Type} (i : Input) (cause : CompileCause) : Except CompileError α :=
  .error (.at i.pos cause)

/-- Passes over the given operator, or tells that it is missing. -/
def expect (i : Input) (s : String) : Except CompileError Input :=
  if i.isAt s then .ok i.next else i.fail (.expected s i.found)

/-- The name that comes next. -/
def name (i : Input) : Except CompileError (Text × Input) :=
  match i.tokens with
  | t :: ts =>
    if t.kind = .ident then .ok (t.text, { i with tokens := ts })
    else i.fail (.expectedIdent i.found)
  | [] => i.fail (.expectedIdent i.found)

end Input

/-! ### Nodes -/

/-- The negation of a literal that follows its sign at once. -/
def negated? (pos : Nat) : Expr → Option Expr
  | .literal p c =>
    if p = pos + 1 then
      match c with
      | .int n => some (.literal pos (.int (-n)))
      | .double x => some (.literal pos (.double x.neg))
      | _ => none
    else none
  | _ => none

/-- A prefix operator before its operand. -/
def unaryNode (pos : Nat) (op : UnaryOp) (operand : Expr) : Expr :=
  match op, negated? pos operand with
  | .neg, some literal => literal
  | _, _ => .unary pos op operand

/-- A call by name alone; `has` asks for a field. -/
def callNode (pos : Nat) (name : Text) (args : List Expr) : Except CompileError Expr :=
  if name = Text.lit "has" then
    match args with
    | [.select p operand field false] => .ok (.has pos p operand field)
    | _ => .error (.at pos .hasArgument)
  else .ok (.call pos name args)

/-- The names before a point that belong to the name of a function. -/
def namespaces : List String := ["optional", "strings", "math", "base64", "sets", "lists"]

/-- A call on a receiver: a binding, a function of a namespace, a walk or a method. -/
def methodNode (pos : Nat) (receiver : Expr) (name : Text) (args : List Expr) :
    Except CompileError Expr :=
  let receiverName := match receiver with
    | .ident _ n => n
    | _ => []
  if receiverName = Text.lit "cel" ∧ name = Text.lit "bind" then
    match args with
    | [.ident _ var, init, body] => .ok (.bind pos var init body)
    | _ => .error (.at pos .bindArguments)
  else if namespaces.any fun n => Text.lit n == receiverName then
    .ok (.call pos (receiverName ++ Text.lit "." ++ name) args)
  else
    match Walk.ofName? name, args with
    | some w, [var, body] =>
      match var with
      | .ident _ v => .ok (.walk pos w receiver v body)
      | _ => .error (.at pos (.walkVariable name))
    | _, _ => .ok (.method pos name receiver args)

/-- A name alone: a constant or a variable. -/
def wordNode (pos : Nat) (name : Text) : Expr :=
  if name = Text.lit "true" then .literal pos (.bool true)
  else if name = Text.lit "false" then .literal pos (.bool false)
  else if name = Text.lit "null" then .literal pos .null
  else .ident pos name

/-- The name is that of a constant. -/
def isConstantName (name : Text) : Bool :=
  name == Text.lit "true" || name == Text.lit "false" || name == Text.lit "null"

/-! ### The grammar -/

mutual

/-- A chain of the loosest level, and the branches of a conditional behind a question mark. -/
def parseExpr : Nat → Input → Except CompileError (Expr × Input)
  | 0, i => i.fail .unexpectedEnd
  | fuel + 1, i => do
    let (condition, j) ← parseChain fuel 0 i
    if j.isAt "?" then
      let (yes, k) ← parseChain fuel 0 j.next
      let k ← k.expect ":"
      let (no, k) ← parseExpr fuel k
      return (.conditional j.pos condition yes no, k)
    else return (condition, j)
termination_by structural fuel => fuel

/-- A chain of the operators of a level. -/
def parseChain : Nat → Nat → Input → Except CompileError (Expr × Input)
  | 0, _, i => i.fail .unexpectedEnd
  | fuel + 1, level, i =>
    if level < BinaryOp.levels then do
      let (left, j) ← parseChain fuel (level + 1) i
      parseLinks fuel level left j
    else parseUnary fuel i
termination_by structural fuel => fuel

/-- The rest of a chain behind its first operand. -/
def parseLinks : Nat → Nat → Expr → Input → Except CompileError (Expr × Input)
  | 0, _, _, i => i.fail .unexpectedEnd
  | fuel + 1, level, left, i =>
    match i.tokens.head?.bind Token.binaryOp? with
    | none => .ok (left, i)
    | some op =>
      if op.level = level then do
        let (right, j) ← parseChain fuel (level + 1) i.next
        parseLinks fuel level (.binary i.pos op left right) j
      else .ok (left, i)
termination_by structural fuel => fuel

/-- A member behind prefix operators. -/
def parseUnary : Nat → Input → Except CompileError (Expr × Input)
  | 0, i => i.fail .unexpectedEnd
  | fuel + 1, i =>
    match i.tokens.head?.bind Token.unaryOp? with
    | some op => do
      let (operand, j) ← parseUnary fuel i.next
      return (unaryNode i.pos op operand, j)
    | none => do
      let (operand, j) ← parsePrimary fuel i
      parseSteps fuel operand j
termination_by structural fuel => fuel

/-- The selections, indexes and calls behind an expression. -/
def parseSteps : Nat → Expr → Input → Except CompileError (Expr × Input)
  | 0, _, i => i.fail .unexpectedEnd
  | fuel + 1, operand, i =>
    if i.isAt "." then do
      let (name, j) ← i.next.name
      if j.isAt "(" then
        let (args, k) ← parseItems fuel ")" j.next
        let node ← methodNode i.pos operand name args
        parseSteps fuel node k
      else parseSteps fuel (.select i.pos operand name false) j
    else if i.isAt ".?" then do
      let (name, j) ← i.next.name
      parseSteps fuel (.select i.pos operand name true) j
    else if i.isAt "[" || i.isAt "[?" then do
      let (key, j) ← parseExpr fuel i.next
      let j ← j.expect "]"
      parseSteps fuel (.index i.pos operand key (i.isAt "[?")) j
    else .ok (operand, i)
termination_by structural fuel => fuel

/-- A literal, a name, a call, a list, a map or an expression in parentheses. -/
def parsePrimary : Nat → Input → Except CompileError (Expr × Input)
  | 0, i => i.fail .unexpectedEnd
  | fuel + 1, i =>
    match i.tokens with
    | [] => i.fail .unexpectedEnd
    | t :: _ =>
      match t.kind with
      | .int => do return (.literal t.pos (← readInteger t), i.next)
      | .float => .ok (.literal t.pos (readFloat t), i.next)
      | .string => do return (.literal t.pos (← readString t), i.next)
      | .ident =>
        if t.text = Text.lit "in" then i.fail .unexpectedIn
        else if i.next.isAt "(" && !isConstantName t.text then do
          let (args, j) ← parseItems fuel ")" i.next.next
          return (← callNode t.pos t.text args, j)
        else .ok (wordNode t.pos t.text, i.next)
      | .op =>
        if i.isAt "(" then do
          let (inner, j) ← parseExpr fuel i.next
          return (inner, ← j.expect ")")
        else if i.isAt "[" then do
          let (elements, j) ← parseItems fuel "]" i.next
          return (.list t.pos elements, j)
        else if i.isAt "\x7b" then do
          let (entries, j) ← parseEntries fuel i.next
          return (.map t.pos entries, j)
        else i.fail (.unexpectedToken t.text)
termination_by structural fuel => fuel

/-- Expressions up to a closing bracket; a comma may stand before it. -/
def parseItems : Nat → String → Input → Except CompileError (List Expr × Input)
  | 0, _, i => i.fail .unexpectedEnd
  | fuel + 1, close, i =>
    if i.isAt close then .ok ([], i.next)
    else do
      let (item, j) ← parseExpr fuel i
      if j.isAt close then return ([item], j.next)
      else
        let j ← j.expect ","
        let (items, j) ← parseItems fuel close j
        return (item :: items, j)
termination_by structural fuel => fuel

/-- Keys and contents up to the closing brace; a comma may stand before it. -/
def parseEntries : Nat → Input → Except CompileError (List (Expr × Expr) × Input)
  | 0, i => i.fail .unexpectedEnd
  | fuel + 1, i =>
    if i.isAt "\x7d" then .ok ([], i.next)
    else do
      let (key, j) ← parseExpr fuel i
      let j ← j.expect ":"
      let (content, j) ← parseExpr fuel j
      if j.isAt "\x7d" then return ([(key, content)], j.next)
      else
        let j ← j.expect ","
        let (entries, j) ← parseEntries fuel j
        return ((key, content) :: entries, j)
termination_by structural fuel => fuel

end

/-! ### Whole expressions -/

/-- The calls that a number of tokens may need below one another. -/
def parseFuel (tokens : Nat) : Nat := 16 * (tokens + 2)

/-- The tokens of a text that has no place without a lexeme. -/
def tokenize (source : Text) : Except CompileError (List Token) :=
  match lex source with
  | (tokens, []) => .ok tokens
  | (_, c :: rest) => .error (.at (source.length - (rest.length + 1)) (.badCharacter c))

/-- What the parser is given: the tokens of a text, and where it ends. -/
def scan (source : Text) : Except CompileError Input :=
  (tokenize source).map fun tokens => ⟨tokens, source.length⟩

/-- The tree of an expression. -/
def parse (source : Text) : Except CompileError Expr := do
  let input ← scan source
  if input.tokens.isEmpty then input.fail .emptyExpression
  else
    let (e, rest) ← parseExpr (parseFuel input.tokens.length) input
    if rest.tokens.isEmpty then return e
    else rest.fail (.unexpectedToken rest.found)

end LogStream.Filter
