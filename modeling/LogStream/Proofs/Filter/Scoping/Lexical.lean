import LogStream.Filter.Program
import LogStream.Proofs.Filter.Faults.Programs
import LogStream.Proofs.Filter.Scoping.Replacement

/-! # Lexical scoping

The names of an expression that has a type are known, those of variables as well as those of functions
(`known_of_check`). So its evaluation misses no variable, whatever values the variables in scope have; and
its type and its outcome depend on names only as the structure of the expression tells (`scoped_of_check`):
the variable of a walk or a binding can have another name, and a binding is what its body is with the
expression in the place of the name. -/

namespace LogStream.Filter

/-! ### Known names -/

/-- If the expression is a call, then the name of its function is one. -/
def Expr.Resolves : Expr → Prop
  | .call _ f _ => (Builtin.global? f).isSome = true
  | .method _ f _ _ => (Builtin.member? f).isSome = true
  | _ => True

/-- The names of variables are in scope, and the calls resolve. -/
structure Known (scope : Scope) (names : List Text) (nodes : List Expr) : Prop where
  inScope : ∀ n ∈ names, (scope.lookup n).isSome = true
  resolves : ∀ e ∈ nodes, e.Resolves

namespace Known

variable {scope : Scope} {names names' : List Text} {nodes nodes' : List Expr} {e : Expr}

theorem nil : Known scope [] [] := ⟨nofun, nofun⟩

theorem node (h : Known scope names nodes) (he : e.Resolves) : Known scope names (e :: nodes) :=
  ⟨h.inScope, List.forall_mem_cons.mpr ⟨he, h.resolves⟩⟩

theorem append (h : Known scope names nodes) (h' : Known scope names' nodes') :
    Known scope (names ++ names') (nodes ++ nodes') :=
  ⟨List.forall_mem_append.mpr ⟨h.inScope, h'.inScope⟩,
    List.forall_mem_append.mpr ⟨h.resolves, h'.resolves⟩⟩

/-- The variable that is bound around a body is not open any more. -/
theorem close {var : Text} {a : Ty} (h : Known ((var, a) :: scope) names nodes) :
    Known scope (names.filter (· ≠ var)) nodes := by
  refine ⟨fun n hn => ?_, h.resolves⟩
  obtain ⟨hn, hvar⟩ := List.mem_filter.mp hn
  have hscope := h.inScope n hn
  rwa [List.lookup_cons, beq_false_of_ne (of_decide_eq_true hvar)] at hscope

end Known

/-- A call that has a type resolves. -/
theorem isSome_of_callType {pos : Nat} {function? : Option Builtin} {name : Text} {ts : List Ty}
    {t : Ty} (h : callType pos function? name ts = .ok t) : function?.isSome = true := by
  cases function? with
  | none => cases h
  | some f => rfl

mutual

/-- **The names in an expression that has a type are known.** -/
theorem known_of_check : ∀ (e : Expr) {scope : Scope} {t : Ty}, check scope e = .ok t →
    Known scope e.free e.nodes
  | .literal _ _, _, _, _ => Known.nil.node trivial
  | .ident _ name, scope, _, h => by
    refine Known.node ⟨fun n hn => ?_, nofun⟩ trivial
    rw [List.mem_singleton.mp hn]
    rw [check] at h
    split at h
    · next ht => rw [ht]; rfl
    · cases h
  | .select _ operand _ _, _, _, h => by
    obtain ⟨_, ho, -⟩ := exists_of_bind_eq_ok h
    exact (known_of_check operand ho).node trivial
  | .index _ operand key _, _, _, h => by
    obtain ⟨_, ho, h⟩ := exists_of_bind_eq_ok h
    obtain ⟨_, hk, -⟩ := exists_of_bind_eq_ok h
    exact ((known_of_check operand ho).append (known_of_check key hk)).node trivial
  | .call _ f args, _, _, h => by
    obtain ⟨_, ha, h⟩ := exists_of_bind_eq_ok h
    exact (known_of_checkAll args ha).node (isSome_of_callType h)
  | .method _ f receiver args, _, _, h => by
    obtain ⟨_, ha, h⟩ := exists_of_bind_eq_ok h
    obtain ⟨_, hr, h⟩ := exists_of_bind_eq_ok h
    exact ((known_of_check receiver hr).append (known_of_checkAll args ha)).node
      (isSome_of_callType h)
  | .list _ elements, _, _, h => by
    obtain ⟨_, hes, -⟩ := exists_of_bind_eq_ok h
    exact (known_of_checkAll elements hes).node trivial
  | .map _ entries, _, _, h => by
    obtain ⟨_, hes, -⟩ := exists_of_bind_eq_ok h
    exact (known_of_checkEntries entries hes).node trivial
  | .unary _ _ operand, _, _, h => by
    obtain ⟨_, ho, -⟩ := exists_of_bind_eq_ok h
    exact (known_of_check operand ho).node trivial
  | .binary _ _ left right, _, _, h => by
    obtain ⟨_, hl, h⟩ := exists_of_bind_eq_ok h
    obtain ⟨_, hr, -⟩ := exists_of_bind_eq_ok h
    exact ((known_of_check left hl).append (known_of_check right hr)).node trivial
  | .conditional _ condition yes no, _, _, h => by
    obtain ⟨_, hc, h⟩ := exists_of_bind_eq_ok h
    split at h
    · obtain ⟨_, hy, h⟩ := exists_of_bind_eq_ok h
      obtain ⟨_, hn, -⟩ := exists_of_bind_eq_ok h
      have hyn := (known_of_check yes hy).append (known_of_check no hn)
      exact ((known_of_check condition hc).append hyn).node trivial
    · cases h
  | .has _ _ operand _, _, _, h => by
    obtain ⟨_, ho, -⟩ := exists_of_bind_eq_ok h
    exact (known_of_check operand ho).node trivial
  | .walk _ _ range _ body, _, _, h => by
    obtain ⟨_, hr, h⟩ := exists_of_bind_eq_ok h
    obtain ⟨_, -, h⟩ := exists_of_bind_eq_ok h
    obtain ⟨_, hb, -⟩ := exists_of_bind_eq_ok h
    exact ((known_of_check range hr).append (known_of_check body hb).close).node trivial
  | .bind _ _ init body, _, _, h => by
    obtain ⟨_, hi, hb⟩ := exists_of_bind_eq_ok h
    exact ((known_of_check init hi).append (known_of_check body hb).close).node trivial
termination_by structural e => e

theorem known_of_checkAll : ∀ (es : List Expr) {scope : Scope} {ts : List Ty},
    checkAll scope es = .ok ts → Known scope (Expr.freeAll es) (Expr.nodesAll es)
  | [], _, _, _ => Known.nil
  | e :: es, _, _, h => by
    obtain ⟨_, he, h⟩ := exists_of_bind_eq_ok h
    obtain ⟨_, hes, -⟩ := exists_of_bind_eq_ok h
    exact (known_of_check e he).append (known_of_checkAll es hes)
termination_by structural es => es

theorem known_of_checkEntries : ∀ (es : List (Expr × Expr)) {scope : Scope}
    {ts : List Ty × List Ty}, checkEntries scope es = .ok ts →
    Known scope (Expr.freeEntries es) (Expr.nodesEntries es)
  | [], _, _, _ => Known.nil
  | (key, content) :: es, _, _, h => by
    obtain ⟨_, hk, h⟩ := exists_of_bind_eq_ok h
    split at h
    · obtain ⟨_, hc, h⟩ := exists_of_bind_eq_ok h
      obtain ⟨_, hes, -⟩ := exists_of_bind_eq_ok h
      have hces := (known_of_check content hc).append (known_of_checkEntries es hes)
      exact (known_of_check key hk).append hces
    · cases h
termination_by structural es => es

end

/-! ### No missing variables -/

variable {scope : Scope} {env : Activation} {e : Expr} {t : Ty}

/-- The failure is not about a variable that has no value. -/
def EvalFailure.MissesNone (f : EvalFailure) : Prop := ∀ name, f ≠ .error (.noSuchAttribute name)

instance : Tolerant EvalFailure.MissesNone where
  of_isOrdinary hf name h := by
    rw [h] at hf
    exact hf

/-- An evaluation misses no variable if all open names have values. -/
theorem eval_ne_noSuchAttribute (h : ∀ n ∈ e.free, (env.lookup n).isSome = true) (name : Text) :
    eval env e ≠ .error (.error (.noSuchAttribute name)) := by
  have hnames : Names EvalFailure.MissesNone env e.free := by
    intro n hn hnone
    have hsome := h n hn
    rw [hnone] at hsome
    cases hsome
  have hfails := failsOnly_eval e hnames fun _ _ _ _ _ _ => nofun
  exact fun hmiss => hfails _ hmiss name rfl

/-! ### Other names -/

variable {part part' : Expr} {y : Text}

theorem eval_of_renames (h : part.Renames y part') (env : Activation) :
    eval env part' = eval env part := by
  cases h with
  | @walk pos kind range body x hfree hbound =>
    have hbody : ∀ v, eval ((x, v) :: env) body = eval ((y, v) :: env) (body.rename x y) :=
      fun v => isLexical_eval.eq_rename hfree hbound v env
    rw [eval, eval, funext hbody]
  | @bind pos init body x hfree hbound =>
    have hbody : ∀ v, eval ((x, v) :: env) body = eval ((y, v) :: env) (body.rename x y) :=
      fun v => isLexical_eval.eq_rename hfree hbound v env
    rw [eval, eval, funext hbody]

theorem type?_of_renames (h : part.Renames y part') (scope : Scope) :
    part'.type? scope = part.type? scope := by
  cases h with
  | @walk pos kind range body x hfree hbound =>
    have hbody : ∀ a, body.type? ((x, a) :: scope) = (body.rename x y).type? ((y, a) :: scope) :=
      fun a => isLexical_type?.eq_rename hfree hbound a scope
    simp only [Expr.type?, check, toOption_bind] at hbody ⊢
    refine congrArg _ (funext fun a => congrArg _ (funext fun elem => ?_))
    rw [hbody elem]
    exact congrArg _ (funext fun b => toOption_walkType _ _ kind elem b)
  | @bind pos init body x hfree hbound =>
    have hbody : ∀ a, body.type? ((x, a) :: scope) = (body.rename x y).type? ((y, a) :: scope) :=
      fun a => isLexical_type?.eq_rename hfree hbound a scope
    simp only [Expr.type?, check, toOption_bind] at hbody ⊢
    rw [funext hbody]

/-! ### Bindings -/

variable {x : Text} {init body : Expr}

/-- A binding is what its body is with the expression in the place of the name. -/
theorem IsLexical.eq_replace_bound {β γ : Type} {sem : List (Text × β) → Expr → γ} {value : β → γ}
    (hsem : IsLexical sem value) {env : List (Text × β)} {v : β}
    (hcapture : ∀ n ∈ body.bound, n ∉ init.free) (hinit : sem env init = value v) :
    sem ((x, v) :: env) body = sem env (body.replace x fun _ => init) := by
  refine hsem.eq_replace List.lookup_cons_self (fun n _ hnx => ?_) (fun _ => hinit)
    fun n hn _ => hcapture n hn
  rw [List.lookup_cons, beq_false_of_ne hnx]

/-- **Lexical scoping.** Let an expression have a type. Then its calls resolve, and its evaluation misses
no variable if those in scope have values. If the variable of a walk or a binding that is part of the
expression gets another name, one that does not occur in the body, then the type and all outcomes stay:
the part is what stands for `hole` in the expression `outer`. If the expression is a binding whose body
binds no name that is open in the expression to be bound, then this expression can be put in for the
name: the type stays, and so does the outcome wherever the expression has a value. -/
theorem scoped_of_check (h : check scope e = .ok t) :
    (∀ m ∈ e.nodes, m.Resolves) ∧
    (∀ env : Activation, (∀ n, (scope.lookup n).isSome = true → (env.lookup n).isSome = true) →
      ∀ name, eval env e ≠ .error (.error (.noSuchAttribute name))) ∧
    (∀ (outer : Expr) (hole : Text) (part part' : Expr) (y : Text),
      e = outer.replace hole (fun _ => part) → part.Renames y part' →
      check scope (outer.replace hole fun _ => part') = .ok t ∧
      ∀ env, eval env (outer.replace hole fun _ => part') = eval env e) ∧
    ∀ pos x init body, e = .bind pos x init body → (∀ n ∈ body.bound, n ∉ init.free) →
      check scope (body.replace x fun _ => init) = .ok t ∧
      ∀ env v, eval env init = .ok v →
        eval env (body.replace x fun _ => init) = eval env e := by
  have hknown := known_of_check e h
  refine ⟨hknown.resolves, fun env henv => ?_, ?_, ?_⟩
  · exact eval_ne_noSuchAttribute fun n hn => henv n (hknown.inScope n hn)
  · rintro outer hole part part' y rfl hpart
    constructor
    · have htype := isLexical_type?.replace_congr (fun scope _ => type?_of_renames hpart scope) hole
        outer scope
      exact eq_ok_of_toOption (htype.trans (congrArg Except.toOption h))
    · exact isLexical_eval.replace_congr (fun env _ => eval_of_renames hpart env) hole outer
  · rintro pos x init body rfl hcapture
    obtain ⟨a, ha, hbody⟩ := exists_of_bind_eq_ok h
    constructor
    · have htype := isLexical_type?.eq_replace_bound (x := x) hcapture
        (congrArg Except.toOption ha)
      exact eq_ok_of_toOption (htype.symm.trans (congrArg Except.toOption hbody))
    · intro env v hv
      rw [eval, hv, ok_bind, isLexical_eval.eq_replace_bound hcapture hv]

/-- Whether `x` is the message behind a walk. -/
def afterWalk (walk : Expr) : Expr :=
  .binary 63 .and walk (.binary 68 .eq (.ident 66 (Text.lit "x")) (.ident 71 (Text.lit "msg")))

/-- The message bound to `x`. -/
def named (body : Expr) : Expr := .bind 8 (Text.lit "x") (.ident 12 (Text.lit "msg")) body

/-- Whether a word or `x` is not the level: a walk over both with a variable of any name. -/
def overBoth (var : Text) : Expr :=
  .walk 33 .any (.list 17 [.literal 18 (.string (Text.lit "a")), .ident 23 (Text.lit "x")]) var
    (.binary 50 .ne (.ident 48 var) (.ident 53 (Text.lit "level")))

/-- The variables of a record whose message is its level. -/
def levelAsMessage : Activation :=
  [(Text.lit "msg", .string (Text.lit "INFO")), (Text.lit "level", .string (Text.lit "INFO")),
    (Text.lit "time", .timestamp .epoch), (Text.lit "attrs", .map [])]

/-- The variable of the walk shadows the name for the message; it can be called `y`. -/
theorem scoped_of_check_shadowing :
    check recordScope (named (afterWalk (overBoth (Text.lit "x")))) = .ok .bool ∧
    (∀ name, eval levelAsMessage (named (afterWalk (overBoth (Text.lit "x")))) ≠
      .error (.error (.noSuchAttribute name))) ∧
    check recordScope (named (afterWalk (overBoth (Text.lit "y")))) = .ok .bool ∧
    eval levelAsMessage (named (afterWalk (overBoth (Text.lit "y")))) = .ok (.bool true) ∧
    eval levelAsMessage ((afterWalk (overBoth (Text.lit "x"))).replace (Text.lit "x")
      fun _ => .ident 12 (Text.lit "msg")) = .ok (.bool true) := by
  have hcheck : check recordScope (named (afterWalk (overBoth (Text.lit "x")))) = .ok .bool := by
    rfl
  have hvalue : eval levelAsMessage (named (afterWalk (overBoth (Text.lit "x")))) =
      .ok (.bool true) := by rfl
  have hinit : eval levelAsMessage (.ident 12 (Text.lit "msg")) =
      .ok (.string (Text.lit "INFO")) := by rfl
  obtain ⟨-, hmiss, hrename, hreplace⟩ := scoped_of_check hcheck
  have hwalk : (overBoth (Text.lit "x")).Renames (Text.lit "y") (overBoth (Text.lit "y")) :=
    .walk (by decide) (by decide)
  obtain ⟨htype, houtcome⟩ := hrename (named (afterWalk (.ident 0 (Text.lit "hole"))))
    (Text.lit "hole") _ _ _ rfl hwalk
  have hplaced := (hreplace 8 _ _ _ rfl (by decide)).2 levelAsMessage _ hinit
  refine ⟨hcheck, hmiss _ fun n hn => ?_, htype, (houtcome _).trans hvalue, hplaced.trans hvalue⟩
  have hkeys : ∀ b ∈ recordScope, ∃ v ∈ levelAsMessage, b.1 = v.1 := by decide
  obtain ⟨b, hb, hn⟩ := List.lookup_isSome_iff.mp hn
  obtain ⟨v, hv, hbv⟩ := hkeys b hb
  exact List.lookup_isSome_iff.mpr ⟨v, hv, hbv ▸ hn⟩

end LogStream.Filter
