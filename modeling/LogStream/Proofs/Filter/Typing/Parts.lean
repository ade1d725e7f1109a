import LogStream.Proofs.Filter.Typing.Control

/-! # Parts of expressions

An expression is checked part by part, a body with more variables in scope than what is around it.
So that one can speak of the types of all parts, `Expr.parts` lists them, each with its scope. -/

namespace LogStream.Filter

/-! ### Parts -/

mutual

/-- The parts of an expression, itself among them, each with the variables in scope there. -/
def Expr.parts (scope : Scope) : Expr → List (Scope × Expr)
  | e@(.literal _ _) => [(scope, e)]
  | e@(.ident _ _) => [(scope, e)]
  | e@(.select _ operand _ _) => (scope, e) :: operand.parts scope
  | e@(.index _ operand key _) => (scope, e) :: (operand.parts scope ++ key.parts scope)
  | e@(.call _ _ args) => (scope, e) :: Expr.partsAll scope args
  | e@(.method _ _ receiver args) =>
    (scope, e) :: (receiver.parts scope ++ Expr.partsAll scope args)
  | e@(.list _ elements) => (scope, e) :: Expr.partsAll scope elements
  | e@(.map _ entries) => (scope, e) :: Expr.partsEntries scope entries
  | e@(.unary _ _ operand) => (scope, e) :: operand.parts scope
  | e@(.binary _ _ left right) => (scope, e) :: (left.parts scope ++ right.parts scope)
  | e@(.conditional _ condition yes no) =>
    (scope, e) :: (condition.parts scope ++ (yes.parts scope ++ no.parts scope))
  | e@(.has _ _ operand _) => (scope, e) :: operand.parts scope
  | e@(.walk pos _ range var body) =>
    (scope, e) :: (range.parts scope ++
      (check scope range >>= rangeElem pos).toOption.elim [] fun a =>
        body.parts ((var, a) :: scope))
  | e@(.bind _ var init body) =>
    (scope, e) :: (init.parts scope ++
      (check scope init).toOption.elim [] fun t => body.parts ((var, t) :: scope))
termination_by structural e => e

/-- The parts of some expressions. -/
def Expr.partsAll (scope : Scope) : List Expr → List (Scope × Expr)
  | [] => []
  | e :: es => e.parts scope ++ Expr.partsAll scope es
termination_by structural es => es

/-- The parts of the keys and of the contents of some entries. -/
def Expr.partsEntries (scope : Scope) : List (Expr × Expr) → List (Scope × Expr)
  | [] => []
  | (key, content) :: es =>
    key.parts scope ++ (content.parts scope ++ Expr.partsEntries scope es)
termination_by structural es => es

end

theorem Expr.mem_parts (scope : Scope) (e : Expr) : (scope, e) ∈ e.parts scope := by
  cases e <;> exact List.mem_cons_self

/-! ### What is asked of a part -/

/-- The expression has a static type. -/
def Expr.isStatic (scope : Scope) (e : Expr) : Bool := (check scope e).toOption.any Ty.isStatic

theorem Expr.isStatic_iff {scope : Scope} {e : Expr} {t : Ty} (h : check scope e = .ok t) :
    e.isStatic scope = t.isStatic := by
  rw [Expr.isStatic, h]
  rfl

/-- The names of the types of values that a function of arguments of given types may be unable to
print. -/
def unprintable (function? : Option Builtin) (types : Except CompileError (List Ty)) :
    List String :=
  match function?, types with
  | some f, .ok ts => f.unprintable ts
  | _, _ => []

/-- The names of the types of values that the expression may be unable to print where it calls a
function. -/
def Expr.unprintable (scope : Scope) : Expr → List String
  | .call _ f args => Filter.unprintable (Builtin.global? f) (checkAll scope args)
  | .method _ f receiver args =>
    Filter.unprintable (Builtin.member? f) do
      return (← check scope receiver) :: (← checkAll scope args)
  | _ => []

/-- The part has a static type, and `textless` holds of the types of the values that it may be
unable to print. -/
structure Safe (textless : String → Prop) (p : Scope × Expr) : Prop where
  static : p.2.isStatic p.1 = true
  prints : ∀ n ∈ p.2.unprintable p.1, textless n

variable {textless : String → Prop} {scope : Scope} {env : Activation} {t : Ty}

/-- An expression of safe parts has a static type. -/
theorem isStatic_of_parts {e : Expr} (h : ∀ p ∈ e.parts scope, Safe textless p)
    (hcheck : check scope e = .ok t) : t.isStatic = true :=
  Expr.isStatic_iff hcheck ▸ (h _ (e.mem_parts scope)).static

theorem isStatic_of_partsAll : ∀ {es : List Expr} {ts : List Ty},
    (∀ p ∈ Expr.partsAll scope es, Safe textless p) → checkAll scope es = .ok ts →
    ∀ a ∈ ts, a.isStatic = true
  | [], _, _, h => by
    cases h
    exact List.forall_mem_nil _
  | e :: es, _, hparts, h => by
    obtain ⟨he, hes⟩ := List.forall_mem_append.mp hparts
    obtain ⟨t, ht, h⟩ := exists_of_bind_eq_ok h
    obtain ⟨ts, hts, h⟩ := exists_of_bind_eq_ok h
    cases h
    exact List.forall_mem_cons.mpr ⟨isStatic_of_parts he ht, isStatic_of_partsAll hes hts⟩

/-! ### Variables -/

/-- Every variable of a static type has a value of this type. -/
def Binds (scope : Scope) (env : Activation) : Prop :=
  ∀ name t, scope.lookup name = some t → t.isStatic = true →
    ∃ v, env.lookup name = some v ∧ v.HasType t

theorem of_lookup_cons {name var : Text} {a : Ty}
    (h : List.lookup name ((var, t) :: scope) = some a) :
    (name = var ∧ a = t) ∨ scope.lookup name = some a := by
  rw [List.lookup_cons] at h
  split at h
  · next hname =>
    cases h
    exact .inl ⟨eq_of_beq hname, rfl⟩
  · exact .inr h

/-- One more variable with a value of its type. -/
theorem Binds.cons (h : Binds scope env) (var : Text) {v : Dyn} (hv : v.HasType t) :
    Binds ((var, t) :: scope) ((var, v) :: env) := by
  intro name a ha hstatic
  rw [List.lookup_cons]
  split
  · next hname =>
    rw [List.lookup_cons, hname] at ha
    cases ha
    exact ⟨v, rfl, hv⟩
  · next hname =>
    rw [List.lookup_cons, hname] at ha
    exact h name a ha hstatic

end LogStream.Filter
