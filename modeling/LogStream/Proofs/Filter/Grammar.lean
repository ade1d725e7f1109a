import LogStream.Proofs.Filter.Literals

/-! # The grammar of expressions

Derivations of the grammar as trees, one constructor for each production, with chains of operators
and steps of members joined to the left as the grammar has them. A derivation has the tokens at its
leaves (`Derivation.tokens`), and stands for the trees that `Derivation.Means` relates it to. -/

namespace LogStream.Filter

/-! ### Terminals -/

/-- The token is a name: it starts with a letter or the low line. -/
def Token.IsName (t : Token) : Prop := t.kind = .ident ∧ t.text.head?.any startsName = true

/-- A token that is the given operator or bracket. -/
structure Terminal (s : String) where
  token : Token
  is : token.is s = true

/-- A token that is a name. -/
structure Word where
  token : Token
  isName : token.IsName

/-- A token that is an operator of the given level. -/
structure Operator (level : Nat) where
  token : Token
  op : BinaryOp
  is : token.is op.symbol = true
  level_eq : op.level = level

/-- A token that is a prefix operator. -/
structure Sign where
  token : Token
  op : UnaryOp
  is : token.is op.symbol = true

namespace Word

/-- The name of a variable or a constant; `in` is none. -/
def IsPrimary (w : Word) : Prop := w.token.text ≠ Text.lit "in"

/-- The name of a function that is called by it alone. -/
def IsCallable (w : Word) : Prop := w.IsPrimary ∧ isConstantName w.token.text = false

end Word

/-! ### Derivations -/

/-- The nonterminal symbols. A chain of level zero is a `ConditionalOr`, one of level one a
`ConditionalAnd`, and so on up to `Multiplication`; a chain of the last level is a `Unary`. Items
are the expressions of an argument list or of a list up to the closing bracket, entries those of a
map. -/
inductive Symbol
  | expr
  | chain (level : Nat)
  | unary
  | member
  | primary
  | items (close : String)
  | entries

/-- The derivations of a symbol. -/
inductive Derivation : Symbol → Type
  -- Expr = ConditionalOr ["?" ConditionalOr ":" Expr]
  | plain (condition : Derivation (.chain 0)) : Derivation .expr
  | conditional (condition : Derivation (.chain 0)) (mark : Terminal "?")
      (yes : Derivation (.chain 0)) (colon : Terminal ":") (no : Derivation .expr) :
      Derivation .expr
  -- ConditionalOr = [ConditionalOr "||"] ConditionalAnd, and so on
  | single {level : Nat} (h : level < BinaryOp.levels)
      (operand : Derivation (.chain (level + 1))) : Derivation (.chain level)
  | link {level : Nat} (left : Derivation (.chain level)) (op : Operator level)
      (right : Derivation (.chain (level + 1))) : Derivation (.chain level)
  | operand {level : Nat} (h : level = BinaryOp.levels) (unary : Derivation .unary) :
      Derivation (.chain level)
  -- Unary = {"!" | "-"} Member
  | bare (member : Derivation .member) : Derivation .unary
  | signed (sign : Sign) (operand : Derivation .unary) : Derivation .unary
  -- Member = Primary | Member "." IDENT ["(" [ExprList] ")"] | Member ".?" IDENT
  --        | Member "[" Expr "]" | Member "[?" Expr "]"
  | primary (primary : Derivation .primary) : Derivation .member
  | select (member : Derivation .member) (point : Terminal ".") (name : Word) : Derivation .member
  | method (member : Derivation .member) (point : Terminal ".") (name : Word)
      (bracket : Terminal "(") (args : Derivation (.items ")")) : Derivation .member
  | lenientSelect (member : Derivation .member) (point : Terminal ".?") (name : Word) :
      Derivation .member
  | index (member : Derivation .member) (bracket : Terminal "[") (key : Derivation .expr)
      (close : Terminal "]") : Derivation .member
  | lenientIndex (member : Derivation .member) (bracket : Terminal "[?") (key : Derivation .expr)
      (close : Terminal "]") : Derivation .member
  -- Primary = LITERAL | IDENT ["(" [ExprList] ")"] | "(" Expr ")" | "[" [ExprList] "]"
  --         | "{" [MapInits] "}"
  | literal (token : Token) (h : token.kind = .int ∨ token.kind = .float ∨ token.kind = .string) :
      Derivation .primary
  | word (name : Word) (h : name.IsPrimary) : Derivation .primary
  | call (name : Word) (h : name.IsCallable) (bracket : Terminal "(")
      (args : Derivation (.items ")")) : Derivation .primary
  | parens (bracket : Terminal "(") (inner : Derivation .expr) (close : Terminal ")") :
      Derivation .primary
  | list (bracket : Terminal "[") (elements : Derivation (.items "]")) : Derivation .primary
  | map (bracket : Terminal "\x7b") (entries : Derivation .entries) : Derivation .primary
  -- ExprList = Expr {"," Expr} [","], and the closing bracket behind it
  | closeItems {close : String} (bracket : Terminal close) : Derivation (.items close)
  | lastItem {close : String} (item : Derivation .expr) (bracket : Terminal close) :
      Derivation (.items close)
  | moreItems {close : String} (item : Derivation .expr) (comma : Terminal ",")
      (rest : Derivation (.items close)) : Derivation (.items close)
  -- MapInits = Expr ":" Expr {"," Expr ":" Expr} [","], and the closing brace behind it
  | closeEntries (bracket : Terminal "\x7d") : Derivation .entries
  | lastEntry (key : Derivation .expr) (colon : Terminal ":") (content : Derivation .expr)
      (bracket : Terminal "\x7d") : Derivation .entries
  | moreEntries (key : Derivation .expr) (colon : Terminal ":") (content : Derivation .expr)
      (comma : Terminal ",") (rest : Derivation .entries) : Derivation .entries

namespace Derivation

/-- The tokens at the leaves. -/
@[simp] def tokens : {s : Symbol} → Derivation s → List Token
  | _, plain c => c.tokens
  | _, conditional c m y k n => c.tokens ++ m.token :: (y.tokens ++ k.token :: n.tokens)
  | _, single _ d => d.tokens
  | _, link l op r => l.tokens ++ op.token :: r.tokens
  | _, operand _ u => u.tokens
  | _, bare m => m.tokens
  | _, signed s u => s.token :: u.tokens
  | _, primary p => p.tokens
  | _, select m p n => m.tokens ++ [p.token, n.token]
  | _, method m p n b as => m.tokens ++ p.token :: n.token :: b.token :: as.tokens
  | _, lenientSelect m p n => m.tokens ++ [p.token, n.token]
  | _, index m b k c => m.tokens ++ b.token :: (k.tokens ++ [c.token])
  | _, lenientIndex m b k c => m.tokens ++ b.token :: (k.tokens ++ [c.token])
  | _, literal t _ => [t]
  | _, word n _ => [n.token]
  | _, call n _ b as => n.token :: b.token :: as.tokens
  | _, parens b e c => b.token :: (e.tokens ++ [c.token])
  | _, list b es => b.token :: es.tokens
  | _, map b es => b.token :: es.tokens
  | _, closeItems b => [b.token]
  | _, lastItem e b => e.tokens ++ [b.token]
  | _, moreItems e c r => e.tokens ++ c.token :: r.tokens
  | _, closeEntries b => [b.token]
  | _, lastEntry k m v b => k.tokens ++ m.token :: (v.tokens ++ [b.token])
  | _, moreEntries k m v c r => k.tokens ++ m.token :: (v.tokens ++ c.token :: r.tokens)

end Derivation

/-! ### What a derivation stands for -/

/-- A name alone stands for a constant or a variable. -/
inductive WordMeans (pos : Nat) : Text → Expr → Prop
  | yes : WordMeans pos (Text.lit "true") (.literal pos (.bool true))
  | no : WordMeans pos (Text.lit "false") (.literal pos (.bool false))
  | null : WordMeans pos (Text.lit "null") (.literal pos .null)
  | variable {name : Text} (h : isConstantName name = false) : WordMeans pos name (.ident pos name)

/-- A call by name alone is a call of a function, but `has` asks for the field of one selection that
is not lenient. -/
inductive CallMeans (pos : Nat) : Text → List Expr → Expr → Prop
  | has (p : Nat) (operand : Expr) (field : Text) :
      CallMeans pos (Text.lit "has") [.select p operand field false] (.has pos p operand field)
  | function {name : Text} (h : name ≠ Text.lit "has") (args : List Expr) :
      CallMeans pos name args (.call pos name args)

/-- The expression is the name of a namespace. -/
def Expr.IsNamespace (e : Expr) : Prop :=
  ∃ p space, space ∈ namespaces ∧ e = .ident p (Text.lit space)

/-- The call of `cel.bind`. -/
def IsBinding (receiver : Expr) (name : Text) : Prop :=
  (∃ p, receiver = .ident p (Text.lit "cel")) ∧ name = Text.lit "bind"

/-- A call on a receiver binds a name, calls a function of a namespace, goes through a range or
calls a method. -/
inductive MethodMeans (pos : Nat) : Expr → Text → List Expr → Expr → Prop
  | bind (p q : Nat) (var : Text) (init body : Expr) :
      MethodMeans pos (.ident p (Text.lit "cel")) (Text.lit "bind") [.ident q var, init, body]
        (.bind pos var init body)
  | function {p : Nat} {space : String} (h : space ∈ namespaces) (name : Text)
      (args : List Expr) : MethodMeans pos (.ident p (Text.lit space)) name args
        (.call pos (Text.lit space ++ Text.lit "." ++ name) args)
  | walk {receiver : Expr} (h : ¬ receiver.IsNamespace) (w : Walk) (q : Nat) (var : Text)
      (body : Expr) : MethodMeans pos receiver (Text.lit w.name) [.ident q var, body]
        (.walk pos w receiver var body)
  | method {receiver : Expr} {name : Text} {args : List Expr} (h : ¬ receiver.IsNamespace)
      (hb : ¬ IsBinding receiver name)
      (hw : ∀ w : Walk, Text.lit w.name = name → args.length ≠ 2) :
      MethodMeans pos receiver name args (.method pos name receiver args)

/-- A number that stands right behind the given offset. -/
inductive IsNumberBehind (pos : Nat) : Expr → Prop
  | int (n : Int) : IsNumberBehind pos (.literal (pos + 1) (.int n))
  | double (x : Double) : IsNumberBehind pos (.literal (pos + 1) (.double x))

/-- A minus right before a number is part of the number; else an operator stands for itself. -/
inductive SignMeans (pos : Nat) : UnaryOp → Expr → Expr → Prop
  | int (n : Int) : SignMeans pos .neg (.literal (pos + 1) (.int n)) (.literal pos (.int (-n)))
  | double (x : Double) :
      SignMeans pos .neg (.literal (pos + 1) (.double x)) (.literal pos (.double x.neg))
  | operator {op : UnaryOp} {operand : Expr} (h : op = .neg → ¬ IsNumberBehind pos operand) :
      SignMeans pos op operand (.unary pos op operand)

/-- What the derivations of a symbol stand for. -/
def Symbol.Meaning : Symbol → Type
  | .items _ => List Expr
  | .entries => List (Expr × Expr)
  | _ => Expr

/-- A derivation and what it stands for. -/
inductive Derivation.Means : {s : Symbol} → Derivation s → s.Meaning → Prop
  | plain {c : Derivation (.chain 0)} {e : Expr} (h : Means c e) : Means (.plain c) e
  | conditional {c y : Derivation (.chain 0)} {n : Derivation .expr} {a b d : Expr}
      (m : Terminal "?") (k : Terminal ":") (hc : Means c a) (hy : Means y b) (hn : Means n d) :
      Means (.conditional c m y k n) (.conditional m.token.pos a b d : Expr)
  | single {level : Nat} (h : level < BinaryOp.levels) {d : Derivation (.chain (level + 1))}
      {e : Expr} (hd : Means d e) : Means (.single h d) e
  | link {level : Nat} {l : Derivation (.chain level)} {r : Derivation (.chain (level + 1))}
      {a b : Expr} (op : Operator level) (hl : Means l a) (hr : Means r b) :
      Means (.link l op r) (.binary op.token.pos op.op a b : Expr)
  | operand {level : Nat} (h : level = BinaryOp.levels) {u : Derivation .unary} {e : Expr}
      (hu : Means u e) : Means (.operand h u) e
  | bare {m : Derivation .member} {e : Expr} (h : Means m e) : Means (.bare m) e
  | signed {u : Derivation .unary} {a e : Expr} (s : Sign) (hu : Means u a)
      (hs : SignMeans s.token.pos s.op a e) : Means (.signed s u) e
  | primary {p : Derivation .primary} {e : Expr} (h : Means p e) : Means (.primary p) e
  | select {m : Derivation .member} {a : Expr} (p : Terminal ".") (n : Word) (h : Means m a) :
      Means (.select m p n) (.select p.token.pos a n.token.text false : Expr)
  | method {m : Derivation .member} {as : Derivation (.items ")")} {a e : Expr} {args : List Expr}
      (p : Terminal ".") (n : Word) (b : Terminal "(") (hm : Means m a) (has : Means as args)
      (h : MethodMeans p.token.pos a n.token.text args e) : Means (.method m p n b as) e
  | lenientSelect {m : Derivation .member} {a : Expr} (p : Terminal ".?") (n : Word)
      (h : Means m a) :
      Means (.lenientSelect m p n) (.select p.token.pos a n.token.text true : Expr)
  | index {m : Derivation .member} {k : Derivation .expr} {a b : Expr} (o : Terminal "[")
      (c : Terminal "]") (hm : Means m a) (hk : Means k b) :
      Means (.index m o k c) (.index o.token.pos a b false : Expr)
  | lenientIndex {m : Derivation .member} {k : Derivation .expr} {a b : Expr} (o : Terminal "[?")
      (c : Terminal "]") (hm : Means m a) (hk : Means k b) :
      Means (.lenientIndex m o k c) (.index o.token.pos a b true : Expr)
  | literal {t : Token} (h : t.kind = .int ∨ t.kind = .float ∨ t.kind = .string) {c : Constant}
      (hc : t.Denotes c) : Means (.literal t h) (.literal t.pos c : Expr)
  | word {n : Word} (h : n.IsPrimary) {e : Expr} (he : WordMeans n.token.pos n.token.text e) :
      Means (.word n h) e
  | call {n : Word} {as : Derivation (.items ")")} {args : List Expr} {e : Expr}
      (h : n.IsCallable) (b : Terminal "(") (has : Means as args)
      (he : CallMeans n.token.pos n.token.text args e) : Means (.call n h b as) e
  | parens {d : Derivation .expr} {e : Expr} (o : Terminal "(") (c : Terminal ")")
      (h : Means d e) : Means (.parens o d c) e
  | list {es : Derivation (.items "]")} {elements : List Expr} (o : Terminal "[")
      (h : Means es elements) : Means (.list o es) (.list o.token.pos elements : Expr)
  | map {es : Derivation .entries} {entries : List (Expr × Expr)} (o : Terminal "\x7b")
      (h : Means es entries) : Means (.map o es) (.map o.token.pos entries : Expr)
  | closeItems {close : String} (b : Terminal close) : Means (.closeItems b) ([] : List Expr)
  | lastItem {close : String} {d : Derivation .expr} {e : Expr} (b : Terminal close)
      (h : Means d e) : Means (.lastItem d b) ([e] : List Expr)
  | moreItems {close : String} {d : Derivation .expr} {r : Derivation (.items close)} {e : Expr}
      {es : List Expr} (c : Terminal ",") (h : Means d e) (hr : Means r es) :
      Means (.moreItems d c r) (e :: es : List Expr)
  | closeEntries (b : Terminal "\x7d") : Means (.closeEntries b) ([] : List (Expr × Expr))
  | lastEntry {k v : Derivation .expr} {a e : Expr} (c : Terminal ":") (b : Terminal "\x7d")
      (hk : Means k a) (hv : Means v e) : Means (.lastEntry k c v b) ([(a, e)] : List (Expr × Expr))
  | moreEntries {k v : Derivation .expr} {r : Derivation .entries} {a e : Expr}
      {es : List (Expr × Expr)} (c : Terminal ":") (m : Terminal ",") (hk : Means k a)
      (hv : Means v e) (hr : Means r es) :
      Means (.moreEntries k c v m r) ((a, e) :: es : List (Expr × Expr))

end LogStream.Filter
