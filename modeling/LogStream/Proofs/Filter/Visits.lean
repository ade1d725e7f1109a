import LogStream.Filter.Evaluator
import LogStream.Proofs.Filter.Parts
import LogStream.Proofs.Outcome

/-! # What an evaluation evaluates

The evaluation of an expression asks for the values of expressions in it, each for variables with given
values (`Asks`): for an operand behind another one only where that has a value, for the body of a walk only
for the items that the walk comes to. All that is evaluated on the way is what it `Visits`. -/

namespace LogStream.Filter

/-- The expression has a value. -/
def HasValue (env : Activation) (e : Expr) : Prop := ∃ v, eval env e = .ok v

/-- A logical operator asks for its right operand, given what comes of the left one. -/
def BinaryOp.asksRight (op : BinaryOp) (left : Eval Dyn) : Prop :=
  match left >>= Dyn.truth s!"_{op.symbol}_" with
  | .ok b => b ≠ decisive op
  | .error (.error _) => True
  | .error (.fault _) => False

/-- A walk goes on behind an item, given what comes of the body for it. -/
def Walk.goesPast : Walk → Eval Dyn → Prop
  | .map, x => ∃ v, x = .ok v
  | .sortBy, x => ∃ v, x = .ok v
  | .filter, x => ∃ b, x = .ok (.bool b)
  | .one, x => ∃ b, x = .ok (.bool b)
  | .all, x => x = .ok (.bool true)
  | .any, x => x = .ok (.bool false)

/-- The evaluation of the first expression asks for the value of the second one, for variables with the
values given there. -/
inductive Asks (env : Activation) : Expr → Activation → Expr → Prop
  | select (pos : Nat) (operand : Expr) (field : Text) (lenient : Bool) :
      Asks env (.select pos operand field lenient) env operand
  | indexed (pos : Nat) (operand key : Expr) (lenient : Bool) :
      Asks env (.index pos operand key lenient) env operand
  | key {operand : Expr} (h : HasValue env operand) (pos : Nat) (key : Expr) (lenient : Bool) :
      Asks env (.index pos operand key lenient) env key
  | arg {before : List Expr} (h : ∀ d ∈ before, HasValue env d) (pos : Nat) (f : Text) (e : Expr)
      (after : List Expr) : Asks env (.call pos f (before ++ e :: after)) env e
  | receiver (pos : Nat) (f : Text) (receiver : Expr) (args : List Expr) :
      Asks env (.method pos f receiver args) env receiver
  | methodArg {receiver : Expr} {before : List Expr} (hr : HasValue env receiver)
      (h : ∀ d ∈ before, HasValue env d) (pos : Nat) (f : Text) (e : Expr) (after : List Expr) :
      Asks env (.method pos f receiver (before ++ e :: after)) env e
  | element {before : List Expr} (h : ∀ d ∈ before, HasValue env d) (pos : Nat) (e : Expr)
      (after : List Expr) : Asks env (.list pos (before ++ e :: after)) env e
  | entryKey {before : List (Expr × Expr)} {done : List (Dyn × Dyn)}
      (h : evalEntries env [] before = .ok done) (pos : Nat) (key content : Expr)
      (after : List (Expr × Expr)) : Asks env (.map pos (before ++ (key, content) :: after)) env key
  | entryContent {before : List (Expr × Expr)} {done : List (Dyn × Dyn)} {key : Expr} {k : Dyn}
      (h : evalEntries env [] before = .ok done) (hkey : eval env key = .ok k) (hk : k.isHashable = true)
      (hnew : ¬ (Dyn.binding? k done).isSome) (pos : Nat) (content : Expr)
      (after : List (Expr × Expr)) :
      Asks env (.map pos (before ++ (key, content) :: after)) env content
  | operand (pos : Nat) (op : UnaryOp) (operand : Expr) : Asks env (.unary pos op operand) env operand
  | left {op : BinaryOp} (h : op ≠ .mem) (pos : Nat) (left right : Expr) :
      Asks env (.binary pos op left right) env left
  | right {op : BinaryOp} {left : Expr} (hop : op ∉ [.or, .and, .mem]) (h : HasValue env left) (pos : Nat)
      (right : Expr) : Asks env (.binary pos op left right) env right
  | undecided {op : BinaryOp} {left : Expr} (hop : op ∈ [.or, .and]) (h : op.asksRight (eval env left))
      (pos : Nat) (right : Expr) : Asks env (.binary pos op left right) env right
  | container (pos : Nat) (left right : Expr) : Asks env (.binary pos .mem left right) env right
  | sought {right : Expr} (h : HasValue env right) (pos : Nat) (left : Expr) :
      Asks env (.binary pos .mem left right) env left
  | condition (pos : Nat) (condition yes no : Expr) :
      Asks env (.conditional pos condition yes no) env condition
  | yes {condition : Expr} (h : eval env condition = .ok (.bool true)) (pos : Nat) (yes no : Expr) :
      Asks env (.conditional pos condition yes no) env yes
  | no {condition : Expr} (h : eval env condition = .ok (.bool false)) (pos : Nat) (yes no : Expr) :
      Asks env (.conditional pos condition yes no) env no
  | has (pos selectPos : Nat) (operand : Expr) (field : Text) :
      Asks env (.has pos selectPos operand field) env operand
  | range (pos : Nat) (kind : Walk) (range : Expr) (var : Text) (body : Expr) :
      Asks env (.walk pos kind range var body) env range
  | body {kind : Walk} {range : Expr} {v : Dyn} {before : List Dyn} {x : Dyn} {after : List Dyn}
      {var : Text} {body : Expr} (hv : eval env range = .ok v)
      (hitems : iterated v = .ok (before ++ x :: after))
      (h : ∀ y ∈ before, kind.goesPast (eval ((var, y) :: env) body)) (pos : Nat) :
      Asks env (.walk pos kind range var body) ((var, x) :: env) body
  | init (pos : Nat) (var : Text) (init body : Expr) : Asks env (.bind pos var init body) env init
  | bound {init : Expr} {v : Dyn} (h : eval env init = .ok v) (pos : Nat) (var : Text) (body : Expr) :
      Asks env (.bind pos var init body) ((var, v) :: env) body

/-- The evaluation of the first expression evaluates the second one on the way, for variables with the
values given there. -/
inductive Visits (env : Activation) (e : Expr) : Activation → Expr → Prop
  | self : Visits env e env e
  | step {env' env'' : Activation} {e' e'' : Expr} (h : Visits env e env' e')
      (hasks : Asks env' e' env'' e'') : Visits env e env'' e''

variable {env env' env'' : Activation} {e e' e'' : Expr}

theorem Visits.of_asks (hasks : Asks env e env' e') (h : Visits env' e' env'' e'') :
    Visits env e env'' e'' := by
  induction h with
  | self => exact Visits.self.step hasks
  | step _ hasks' ih => exact ih.step hasks'

/-! ### Operators -/

/-- An operator that asks for both operands takes their values. -/
theorem eval_operate {op : BinaryOp} (hop : op ∉ [.or, .and, .mem]) {left right : Expr} {v w : Dyn}
    (hl : eval env left = .ok v) (hr : eval env right = .ok w) (pos : Nat) :
    eval env (.binary pos op left right) = Dyn.operate op v w := by
  have hoperate : (do let v ← eval env left; let w ← eval env right; Dyn.operate op v w) =
      Dyn.operate op v w := by rw [hl, ok_bind, hr, ok_bind]
  cases op with
  | or | and | mem => exact absurd (by simp) hop
  | _ => exact hoperate

/-! ### Calls -/

/-- The values of some expressions are each that of one of them, and those before it have values. -/
theorem exists_of_mem_evalAll : ∀ {es : List Expr} {vs : List Dyn}, evalAll env es = .ok vs → ∀ v ∈ vs,
    ∃ before d after, es = before ++ d :: after ∧ (∀ d' ∈ before, HasValue env d') ∧ eval env d = .ok v
  | [], vs, h, v, hv => by
    cases h
    exact absurd hv List.not_mem_nil
  | e :: es, vs, h, v, hv => by
    obtain ⟨w, hw, h⟩ := exists_of_bind_eq_ok h
    obtain ⟨ws, hws, h⟩ := exists_of_bind_eq_ok h
    cases h
    rcases List.mem_cons.mp hv with rfl | hv
    · exact ⟨[], e, es, rfl, List.forall_mem_nil _, hw⟩
    · obtain ⟨before, d, after, rfl, hbefore, hd⟩ := exists_of_mem_evalAll hws v hv
      exact ⟨e :: before, d, after, rfl, List.forall_mem_cons.mpr ⟨⟨w, hw⟩, hbefore⟩, hd⟩

/-- A call asks for its arguments one after the other. -/
theorem Asks.of_call? {f : Builtin} {before after : List Expr} {d : Expr}
    (hcall : e.call? = some (f, before ++ d :: after)) (hbefore : ∀ d' ∈ before, HasValue env d') :
    Asks env e env d := by
  cases e with
  | call pos name args =>
    obtain ⟨g, -, heq⟩ := Option.map_eq_some_iff.mp hcall
    cases heq
    exact .arg hbefore ..
  | method pos name receiver args =>
    obtain ⟨g, -, heq⟩ := Option.map_eq_some_iff.mp hcall
    cases before with
    | nil =>
      cases heq
      exact .receiver ..
    | cons _ before =>
      cases heq
      obtain ⟨hreceiver, hbefore⟩ := List.forall_mem_cons.mp hbefore
      exact .methodArg hreceiver hbefore ..
  | _ => cases hcall

/-! ### Parts -/

@[simp] theorem nodesAll_append : ∀ xs ys : List Expr,
    Expr.nodesAll (xs ++ ys) = Expr.nodesAll xs ++ Expr.nodesAll ys
  | [], _ => rfl
  | x :: xs, ys => by
    rw [List.cons_append, Expr.nodesAll, nodesAll_append xs ys, Expr.nodesAll, List.append_assoc]

@[simp] theorem nodesEntries_append : ∀ xs ys : List (Expr × Expr),
    Expr.nodesEntries (xs ++ ys) = Expr.nodesEntries xs ++ Expr.nodesEntries ys
  | [], _ => rfl
  | (key, content) :: xs, ys => by
    rw [List.cons_append, Expr.nodesEntries, nodesEntries_append xs ys, Expr.nodesEntries,
      List.append_assoc, List.append_assoc]

/-- What is asked for is a part. -/
theorem Asks.nodes_subset (h : Asks env e env' e') : e'.nodes ⊆ e.nodes := by
  intro d hd
  cases h <;> simp [Expr.nodes, Expr.nodesAll, Expr.nodesEntries, hd]

/-- **All that is evaluated on the way is a part of the expression.** -/
theorem Visits.mem_nodes (h : Visits env e env' e') : e' ∈ e.nodes := by
  have hsubset : e'.nodes ⊆ e.nodes := by
    induction h with
    | self => exact List.Subset.refl _
    | step _ hasks ih => exact List.Subset.trans hasks.nodes_subset ih
  exact hsubset e'.mem_nodes

end LogStream.Filter
