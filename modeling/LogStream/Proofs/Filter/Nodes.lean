import Mathlib.Data.List.Basic
import LogStream.Proofs.Filter.Grammar

/-! # Nodes

The nodes that the parser makes are those that the derivations stand for: names (`wordNode_eq_iff`),
calls by name (`callNode_eq_ok_iff`), calls on a receiver (`methodNode_eq_ok_iff`) and signs
(`unaryNode_eq_iff`). -/

namespace LogStream.Filter

variable {pos : Nat} {name : Text} {args : List Expr} {receiver operand e : Expr}

theorem wordNode_eq_iff : wordNode pos name = e ↔ WordMeans pos name e := by
  constructor
  · rintro rfl
    unfold wordNode
    split
    · next h => exact h ▸ .yes
    split
    · next h => exact h ▸ .no
    split
    · next h => exact h ▸ .null
    · next hyes hno hnull =>
      refine .variable ?_
      simp only [isConstantName, Bool.or_eq_false_iff, beq_eq_false_iff_ne]
      exact ⟨⟨hyes, hno⟩, hnull⟩
  · intro h
    cases h with
    | yes => rfl
    | no => rfl
    | null => rfl
    | «variable» h =>
      simp only [isConstantName, Bool.or_eq_false_iff, beq_eq_false_iff_ne] at h
      unfold wordNode
      rw [if_neg h.1.1, if_neg h.1.2, if_neg h.2]

theorem callNode_eq_ok_iff : callNode pos name args = .ok e ↔ CallMeans pos name args e := by
  constructor
  · intro h
    unfold callNode at h
    split at h
    · next hname =>
      subst hname
      split at h
      · cases h
        exact .has _ _ _
      · cases h
    · next hname =>
      cases h
      exact .function hname args
  · intro h
    cases h with
    | has => rfl
    | function h => exact if_neg h

/-- What becomes of the minus before an operand. -/
theorem negated?_cases (pos : Nat) (operand : Expr) :
    (∃ n, operand = .literal (pos + 1) (.int n) ∧
      negated? pos operand = some (.literal pos (.int (-n)))) ∨
    (∃ x, operand = .literal (pos + 1) (.double x) ∧
      negated? pos operand = some (.literal pos (.double x.neg))) ∨
    (¬ IsNumberBehind pos operand ∧ negated? pos operand = none) := by
  unfold negated?
  split
  · next p c =>
    split
    · next hp =>
      subst hp
      split
      · next n => exact .inl ⟨n, rfl, rfl⟩
      · next x => exact .inr (.inl ⟨x, rfl, rfl⟩)
      · next hint hdouble =>
        refine .inr (.inr ⟨fun h => ?_, rfl⟩)
        cases h with
        | int n => exact hint n rfl
        | double x => exact hdouble x rfl
    · next hp =>
      refine .inr (.inr ⟨fun h => ?_, rfl⟩)
      cases h <;> exact hp rfl
  · next hliteral =>
    refine .inr (.inr ⟨fun h => ?_, rfl⟩)
    cases h <;> exact hliteral _ _ rfl

theorem unaryNode_neg :
    unaryNode pos .neg operand = (negated? pos operand).getD (.unary pos .neg operand) := by
  unfold unaryNode
  cases negated? pos operand <;> rfl

theorem unaryNode_eq_iff {op : UnaryOp} :
    unaryNode pos op operand = e ↔ SignMeans pos op operand e := by
  cases op with
  | not =>
    constructor
    · rintro rfl
      exact .operator fun h => by cases h
    · intro h
      cases h
      rfl
  | neg =>
    rw [unaryNode_neg]
    rcases negated?_cases pos operand with ⟨n, rfl, h⟩ | ⟨x, rfl, h⟩ | ⟨hnot, h⟩
    · rw [h, Option.getD_some]
      constructor
      · rintro rfl
        exact .int n
      · intro hs
        cases hs with
        | int => rfl
        | operator hnot => exact absurd (.int n) (hnot rfl)
    · rw [h, Option.getD_some]
      constructor
      · rintro rfl
        exact .double x
      · intro hs
        cases hs with
        | double => rfl
        | operator hnot => exact absurd (.double x) (hnot rfl)
    · rw [h, Option.getD_none]
      constructor
      · rintro rfl
        exact .operator fun _ => hnot
      · intro hs
        cases hs with
        | int n => exact absurd (.int n) hnot
        | double x => exact absurd (.double x) hnot
        | operator => rfl

/-! ### Calls on a receiver -/

theorem Walk.ofName?_eq_some_iff {w : Walk} :
    Walk.ofName? name = some w ↔ Text.lit w.name = name := by
  unfold Walk.ofName?
  constructor
  · exact fun h => beq_iff_eq.mp (List.find?_some (p := fun w : Walk => Text.lit w.name == name) h)
  · rintro rfl
    cases w <;> decide

/-- A call on a receiver that neither binds a name nor names a namespace. -/
def walkNode (pos : Nat) (receiver : Expr) (name : Text) (args : List Expr) :
    Except CompileError Expr :=
  match Walk.ofName? name, args with
  | some w, [var, body] =>
    match var with
    | .ident _ v => .ok (.walk pos w receiver v body)
    | _ => .error (.at pos (.walkVariable name))
  | _, _ => .ok (.method pos name receiver args)

theorem methodNode_ident (p : Nat) (n : Text) :
    methodNode pos (.ident p n) name args =
      if n = Text.lit "cel" ∧ name = Text.lit "bind" then
        match args with
        | [.ident _ var, init, body] => .ok (.bind pos var init body)
        | _ => .error (.at pos .bindArguments)
      else if namespaces.any fun space => Text.lit space == n then
        .ok (.call pos (n ++ Text.lit "." ++ name) args)
      else walkNode pos (.ident p n) name args := rfl

theorem methodNode_of_ne (h : ∀ p n, receiver ≠ .ident p n) :
    methodNode pos receiver name args = walkNode pos receiver name args := by
  unfold methodNode
  dsimp only
  split
  · exact absurd rfl (h _ _)
  · rfl

theorem Expr.not_isNamespace {p : Nat} {n : Text}
    (h : ¬ (namespaces.any fun space => Text.lit space == n) = true) :
    ¬ (Expr.ident p n).IsNamespace := by
  rintro ⟨p', space, hmem, he⟩
  cases he
  exact h (List.any_eq_true.mpr ⟨space, hmem, beq_self_eq_true _⟩)

theorem walkNode_eq_ok_iff (hspace : ¬ receiver.IsNamespace) (hbind : ¬ IsBinding receiver name) :
    walkNode pos receiver name args = .ok e ↔ MethodMeans pos receiver name args e := by
  unfold walkNode
  constructor
  · intro h
    split at h
    · next w var body hw =>
      split at h
      · cases h
        rw [← Walk.ofName?_eq_some_iff.mp hw]
        exact .walk hspace w _ _ _
      · cases h
    · next hother =>
      cases h
      refine .method hspace hbind fun w hw hlength => ?_
      obtain ⟨var, body, hargs⟩ := List.length_eq_two.mp hlength
      exact hother w var body (Walk.ofName?_eq_some_iff.mpr hw) hargs
  · intro h
    cases h with
    | bind p => exact absurd ⟨⟨p, rfl⟩, rfl⟩ hbind
    | function hmem => exact absurd ⟨_, _, hmem, rfl⟩ hspace
    | walk _ w q var body => rw [Walk.ofName?_eq_some_iff.mpr rfl]
    | method _ _ hw =>
      split
      · next w _ _ hname => exact absurd rfl (hw w (Walk.ofName?_eq_some_iff.mp hname))
      · rfl

/-- A call on `cel` can be a binding. -/
theorem methodMeans_bind_iff {p : Nat} :
    MethodMeans pos (.ident p (Text.lit "cel")) (Text.lit "bind") args e ↔
      ∃ q var init body, args = [.ident q var, init, body] ∧ e = .bind pos var init body := by
  constructor
  · intro h
    generalize hr : Expr.ident p (Text.lit "cel") = receiver at h
    generalize hn : Text.lit "bind" = name at h
    cases h with
    | bind p q var init body => exact ⟨q, var, init, body, rfl, rfl⟩
    | function hmem =>
      have hcel : ∀ s ∈ namespaces, Text.lit "cel" ≠ Text.lit s := by decide
      exact absurd (Expr.ident.inj hr).2 (hcel _ hmem)
    | walk _ w =>
      have hbind : Text.lit "bind" ≠ Text.lit w.name := by cases w <;> decide
      exact absurd hn hbind
    | method _ hbind => exact absurd ⟨⟨p, hr.symm⟩, hn.symm⟩ hbind
  · rintro ⟨q, var, init, body, rfl, rfl⟩
    exact .bind _ _ _ _ _

/-- A call on a namespace is a call of a function. -/
theorem methodMeans_function_iff {p : Nat} {space : String} (hspace : space ∈ namespaces) :
    MethodMeans pos (.ident p (Text.lit space)) name args e ↔
      e = .call pos (Text.lit space ++ Text.lit "." ++ name) args := by
  constructor
  · intro h
    generalize hr : Expr.ident p (Text.lit space) = receiver at h
    cases h with
    | bind =>
      have hcel : ∀ s ∈ namespaces, Text.lit s ≠ Text.lit "cel" := by decide
      exact absurd (Expr.ident.inj hr).2 (hcel _ hspace)
    | function hmem => rw [(Expr.ident.inj hr).2]
    | walk h => exact absurd ⟨p, space, hspace, hr.symm⟩ h
    | method h => exact absurd ⟨p, space, hspace, hr.symm⟩ h
  · rintro rfl
    exact .function hspace name args

theorem methodNode_eq_ok_iff :
    methodNode pos receiver name args = .ok e ↔ MethodMeans pos receiver name args e := by
  by_cases hident : ∃ p n, receiver = .ident p n
  · obtain ⟨p, n, rfl⟩ := hident
    rw [methodNode_ident]
    by_cases hbind : n = Text.lit "cel" ∧ name = Text.lit "bind"
    · rw [if_pos hbind]
      obtain ⟨rfl, rfl⟩ := hbind
      rw [methodMeans_bind_iff]
      constructor
      · intro h
        split at h
        · cases h
          exact ⟨_, _, _, _, rfl, rfl⟩
        · cases h
      · rintro ⟨q, var, init, body, rfl, rfl⟩
        rfl
    · rw [if_neg hbind]
      by_cases hspace : (namespaces.any fun space => Text.lit space == n) = true
      · rw [if_pos hspace]
        obtain ⟨space, hmem, hs⟩ := List.any_eq_true.mp hspace
        cases beq_iff_eq.mp hs
        rw [methodMeans_function_iff hmem, Except.ok.injEq]
        exact eq_comm
      · rw [if_neg hspace]
        refine walkNode_eq_ok_iff (Expr.not_isNamespace hspace) ?_
        rintro ⟨⟨p', he⟩, hname⟩
        cases he
        exact hbind ⟨rfl, hname⟩
  · have hne : ∀ p n, receiver ≠ .ident p n := fun p n h => hident ⟨p, n, h⟩
    rw [methodNode_of_ne hne]
    refine walkNode_eq_ok_iff ?_ ?_
    · rintro ⟨p, space, -, rfl⟩
      exact hne _ _ rfl
    · rintro ⟨⟨p, rfl⟩, -⟩
      exact hne _ _ rfl

end LogStream.Filter
