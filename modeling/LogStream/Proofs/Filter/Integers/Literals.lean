import Mathlib
import LogStream.Proofs.Filter.Hereditary.Basic
import LogStream.Proofs.Filter.Nodes
import LogStream.Proofs.Filter.Parts
import LogStream.Proofs.Outcome

/-! # Literals of integers

The literals of integers that the parser makes fit in 64 bits (`areLiterate_of_parse`). A sign before a literal
may be part of it, so the greatest literal without a mark is the one that has a sign in front of it to be the
least signed integer (`Constant.IsLiteral`). -/

namespace LogStream.Filter

/-- The constant is that of a literal, with or without a sign. -/
def Constant.IsLiteral : Constant → Prop
  | .int n => n.natAbs ≤ intLiteralMax
  | .uint n => n ≤ uintLiteralMax
  | _ => True

/-- If the expression is a literal, then its constant is one of a literal. -/
@[simp] def Expr.IsLiterate : Expr → Prop
  | .literal _ c => c.IsLiteral
  | _ => True

/-- All literals among the expressions have constants of literals. -/
def AreLiterate (es : List Expr) : Prop := ∀ e ∈ es, e.IsLiterate

@[simp] theorem areLiterate_nil : AreLiterate [] := List.forall_mem_nil _

@[simp] theorem areLiterate_cons {e : Expr} {es : List Expr} :
    AreLiterate (e :: es) ↔ e.IsLiterate ∧ AreLiterate es := List.forall_mem_cons

@[simp] theorem areLiterate_append {es fs : List Expr} :
    AreLiterate (es ++ fs) ↔ AreLiterate es ∧ AreLiterate fs := List.forall_mem_append

/-- The parser makes literals of their tokens only. -/
abbrev ParsesLiterate (x : Except CompileError (Expr × Input)) : Prop :=
  Yields (fun r => AreLiterate r.1.nodes) x

/-! ### Tokens -/

theorem readInteger_isLiteral (t : Token) : Yields Constant.IsLiteral (readInteger t) := by
  unfold readInteger
  dsimp only
  split
  · exact yields_error
  · split
    · split
      · exact yields_error
      · next h => exact yields_ok.mpr (Nat.not_lt.mp h)
    · split
      · exact yields_error
      · next h => exact yields_ok.mpr (Nat.not_lt.mp h)

theorem readString_isLiteral (t : Token) : Yields Constant.IsLiteral (readString t) := by
  have hquoted : Yields Constant.IsLiteral (readQuoted t.text) := by
    unfold readQuoted
    dsimp only
    refine yields_ite_bind (p := fun _ => True) (fun _ _ => trivial) (fun _ _ => trivial) fun content _ => ?_
    split
    · exact yields_bind_of_forall fun _ => yields_ok.mpr trivial
    · exact yields_ok.mpr trivial
  unfold readString
  split
  · next c hc => exact yields_ok.mpr (hquoted c hc)
  · exact yields_error
  · exact yields_error

/-! ### Nodes -/

variable {pos : Nat} {name : Text} {args : List Expr} {receiver operand e : Expr}

theorem areLiterate_wordNode (pos : Nat) (name : Text) : AreLiterate (wordNode pos name).nodes := by
  unfold wordNode
  split
  · simp [Expr.nodes, Constant.IsLiteral]
  split
  · simp [Expr.nodes, Constant.IsLiteral]
  split
  · simp [Expr.nodes, Constant.IsLiteral]
  · simp [Expr.nodes]

/-- A sign leaves the constant of a literal one. -/
theorem areLiterate_unaryNode (op : UnaryOp) (h : AreLiterate operand.nodes) :
    AreLiterate (unaryNode pos op operand).nodes := by
  have hmeans : SignMeans pos op operand (unaryNode pos op operand) := unaryNode_eq_iff.mp rfl
  generalize unaryNode pos op operand = e at hmeans
  cases hmeans with
  | int n => simpa [Expr.nodes, Constant.IsLiteral] using h
  | double x => simp [Expr.nodes, Constant.IsLiteral]
  | operator => simpa [Expr.nodes] using h

theorem areLiterate_callNode (h : AreLiterate (Expr.nodesAll args)) :
    Yields (fun e => AreLiterate e.nodes) (callNode pos name args) := by
  intro e he
  cases callNode_eq_ok_iff.mp he with
  | has p operand field => simpa [Expr.nodes, Expr.nodesAll] using h
  | function _ args => simpa [Expr.nodes] using h

theorem areLiterate_methodNode (hr : AreLiterate receiver.nodes) (h : AreLiterate (Expr.nodesAll args)) :
    Yields (fun e => AreLiterate e.nodes) (methodNode pos receiver name args) := by
  intro e he
  cases methodNode_eq_ok_iff.mp he with
  | bind => simpa [Expr.nodes, Expr.nodesAll] using h
  | function => simpa [Expr.nodes] using h
  | walk => simpa [Expr.nodes, Expr.nodesAll, hr] using h
  | method => simpa [Expr.nodes, hr] using h

/-! ### The parser -/

/-- What the parser makes with some fuel has no literals but those of tokens. -/
structure MakesLiterals (fuel : Nat) : Prop where
  expr : ∀ i, ParsesLiterate (parseExpr fuel i)
  chain : ∀ level i, ParsesLiterate (parseChain fuel level i)
  links : ∀ level {left} i, AreLiterate left.nodes → ParsesLiterate (parseLinks fuel level left i)
  unary : ∀ i, ParsesLiterate (parseUnary fuel i)
  steps : ∀ {operand} i, AreLiterate operand.nodes → ParsesLiterate (parseSteps fuel operand i)
  primary : ∀ i, ParsesLiterate (parsePrimary fuel i)
  items : ∀ close i, Yields (fun r => AreLiterate (Expr.nodesAll r.1)) (parseItems fuel close i)
  entries : ∀ i, Yields (fun r => AreLiterate (Expr.nodesEntries r.1)) (parseEntries fuel i)

namespace MakesLiterals

variable {fuel : Nat}

theorem expr_succ (ih : MakesLiterals fuel) (i : Input) : ParsesLiterate (parseExpr (fuel + 1) i) := by
  rw [parseExpr]
  refine (ih.chain 0 i).bind fun (condition, j) hc => ?_
  dsimp only
  split
  · refine (ih.chain 0 _).bind fun (yes, k) hy => yields_bind_of_forall fun k => ?_
    refine (ih.expr k).bind fun (no, k) hn => yields_ok.mpr ?_
    simp_all [Expr.nodes]
  · exact yields_ok.mpr hc

theorem chain_succ (ih : MakesLiterals fuel) (level : Nat) (i : Input) :
    ParsesLiterate (parseChain (fuel + 1) level i) := by
  rw [parseChain]
  split
  · exact (ih.chain (level + 1) i).bind fun (left, j) hl => ih.links level j hl
  · exact ih.unary i

theorem links_succ (ih : MakesLiterals fuel) (level : Nat) {left : Expr} (i : Input)
    (hl : AreLiterate left.nodes) : ParsesLiterate (parseLinks (fuel + 1) level left i) := by
  rw [parseLinks]
  split
  · exact yields_ok.mpr hl
  · split
    · refine (ih.chain (level + 1) i.next).bind fun (right, j) hr => ih.links level j ?_
      simp_all [Expr.nodes]
    · exact yields_ok.mpr hl

theorem unary_succ (ih : MakesLiterals fuel) (i : Input) : ParsesLiterate (parseUnary (fuel + 1) i) := by
  rw [parseUnary]
  split
  · next op _ =>
    refine (ih.unary i.next).bind fun (operand, j) ho => yields_ok.mpr ?_
    exact areLiterate_unaryNode op ho
  · exact (ih.primary i).bind fun (operand, j) ho => ih.steps j ho

theorem steps_succ (ih : MakesLiterals fuel) {operand : Expr} (i : Input)
    (ho : AreLiterate operand.nodes) : ParsesLiterate (parseSteps (fuel + 1) operand i) := by
  rw [parseSteps]
  split
  · refine yields_bind_of_forall fun (name, j) => ?_
    dsimp only
    split
    · refine (ih.items ")" j.next).bind fun (args, k) ha => ?_
      exact (areLiterate_methodNode ho ha).bind fun node hn => ih.steps k hn
    · exact ih.steps j (by simpa [Expr.nodes] using ho)
  · split
    · exact yields_bind_of_forall fun (name, j) => ih.steps j (by simpa [Expr.nodes] using ho)
    · split
      · refine (ih.expr i.next).bind fun (key, j) hk => yields_bind_of_forall fun j => ih.steps j ?_
        simp_all [Expr.nodes]
      · exact yields_ok.mpr ho

theorem primary_succ (ih : MakesLiterals fuel) (i : Input) :
    ParsesLiterate (parsePrimary (fuel + 1) i) := by
  rw [parsePrimary]
  split
  · exact yields_error
  · next t _ _ =>
    split
    · exact (readInteger_isLiteral t).bind fun c hc => yields_ok.mpr (by simpa [Expr.nodes] using hc)
    · exact yields_ok.mpr (by simp [Expr.nodes, readFloat, Constant.IsLiteral])
    · exact (readString_isLiteral t).bind fun c hc => yields_ok.mpr (by simpa [Expr.nodes] using hc)
    · split
      · exact yields_error
      · split
        · refine (ih.items ")" _).bind fun (args, j) ha => ?_
          exact (areLiterate_callNode ha).bind fun node hn => yields_ok.mpr hn
        · exact yields_ok.mpr (areLiterate_wordNode _ _)
    · split
      · exact (ih.expr i.next).bind fun (inner, j) hi => yields_bind_of_forall fun j => yields_ok.mpr hi
      · split
        · refine (ih.items "]" i.next).bind fun (elements, j) he => yields_ok.mpr ?_
          simpa [Expr.nodes] using he
        · split
          · refine (ih.entries i.next).bind fun (entries, j) he => yields_ok.mpr ?_
            simpa [Expr.nodes] using he
          · exact yields_error

theorem items_succ (ih : MakesLiterals fuel) (close : String) (i : Input) :
    Yields (fun r => AreLiterate (Expr.nodesAll r.1)) (parseItems (fuel + 1) close i) := by
  rw [parseItems]
  split
  · exact yields_ok.mpr areLiterate_nil
  · refine (ih.expr i).bind fun (item, j) hi => ?_
    dsimp only
    split
    · exact yields_ok.mpr (by simpa [Expr.nodesAll] using hi)
    · refine yields_bind_of_forall fun j => (ih.items close j).bind fun (items, j) his => yields_ok.mpr ?_
      simp_all [Expr.nodesAll]

theorem entries_succ (ih : MakesLiterals fuel) (i : Input) :
    Yields (fun r => AreLiterate (Expr.nodesEntries r.1)) (parseEntries (fuel + 1) i) := by
  rw [parseEntries]
  split
  · exact yields_ok.mpr areLiterate_nil
  · refine (ih.expr i).bind fun (key, j) hk => yields_bind_of_forall fun j => ?_
    refine (ih.expr j).bind fun (content, j) hc => ?_
    dsimp only
    split
    · exact yields_ok.mpr (by simp_all [Expr.nodesEntries])
    · refine yields_bind_of_forall fun j => (ih.entries j).bind fun (entries, j) hes => yields_ok.mpr ?_
      simp_all [Expr.nodesEntries]

end MakesLiterals

/-- **The parser makes literals of their tokens only.** -/
theorem makesLiterals (fuel : Nat) : MakesLiterals fuel := by
  induction fuel with
  | zero => constructor <;> intros <;> exact yields_error
  | succ fuel ih =>
    exact ⟨ih.expr_succ, ih.chain_succ, ih.links_succ, ih.unary_succ, ih.steps_succ, ih.primary_succ,
      ih.items_succ, ih.entries_succ⟩

theorem areLiterate_of_parse {source : Text} (h : parse source = .ok e) : AreLiterate e.nodes := by
  obtain ⟨tokens, -, h⟩ := exists_of_bind_eq_ok h
  dsimp only at h
  split at h
  · cases h
  · obtain ⟨⟨e', rest⟩, hparse, h⟩ := exists_of_bind_eq_ok h
    dsimp only at h
    split at h
    · cases h
      exact (makesLiterals _).expr _ _ hparse
    · cases h

end LogStream.Filter
