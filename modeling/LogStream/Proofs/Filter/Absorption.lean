import LogStream.Proofs.Outcome
import LogStream.Filter.Program
import Mathlib.Data.Bool.Basic

/-! # Operands of `&&` and `||`

A logical operator joins the truth values of its operands, and of an operand without a truth value
the reason why there is none. To join is associative, and the truth value that does not decide is
its unit (`join_assoc`): a tree of operands of one operator is worth what the list of its operands
is (`truth_expr`), however they are grouped.

An error is absorbed where another operand decides. A fault is not: in front of the operand that
decides it ends the evaluation, behind it it is not met. So the order of the operands tells only
where one of them ends in a fault (`evaluate_operands`). -/

namespace LogStream.Filter

/-! ### Joined truth values -/

/-- An outcome that is neither a value nor an error of the language. -/
def Eval.IsFault {α : Type} (o : Eval α) : Prop := ∃ f, o = .error (.fault f)

/-- The joined truth values of two operands; `decides` is the truth value that decides. -/
def join (decides : Bool) : Eval Bool → Eval Bool → Eval Bool
  | .ok b, right => if b = decides then .ok decides else right
  | .error (.error e), .ok b => if b = decides then .ok decides else .error (.error e)
  | .error (.error _), .error e => .error e
  | .error (.fault f), _ => .error (.fault f)

/-- The joined truth values of operands in a row. -/
def joinAll (decides : Bool) (operands : List (Eval Bool)) : Eval Bool :=
  operands.foldr (join decides) (.ok !decides)

variable {d : Bool}

@[simp] theorem join_decisive (o : Eval Bool) : join d (.ok d) o = .ok d := if_pos rfl

@[simp] theorem join_error_decisive (e : EvalError) :
    join d (.error (.error e)) (.ok d) = .ok d := if_pos rfl

@[simp] theorem join_unit_left (o : Eval Bool) : join d (.ok !d) o = o := by
  cases d <;> rfl

@[simp] theorem join_unit_right (o : Eval Bool) : join d o (.ok !d) = o := by
  rcases o with (e | f) | b
  · cases d <;> rfl
  · rfl
  · cases d <;> cases b <;> rfl

theorem join_assoc (a b c : Eval Bool) : join d (join d a b) c = join d a (join d b c) := by
  rcases a with (e | f) | x
  · rcases b with (e' | f') | y
    · rcases c with (e'' | f'') | z
      · rfl
      · rfl
      · cases d <;> cases z <;> rfl
    · rfl
    · rcases Bool.eq_or_eq_not y d with rfl | rfl
      · rw [join_error_decisive, join_decisive, join_error_decisive]
      · rw [join_unit_right, join_unit_left]
  · rfl
  · rcases Bool.eq_or_eq_not x d with rfl | rfl
    · rw [join_decisive, join_decisive, join_decisive]
    · rw [join_unit_left, join_unit_left]

theorem join_eq_decisive_iff {a b : Eval Bool} :
    join d a b = .ok d ↔ a = .ok d ∨ ¬ a.IsFault ∧ b = .ok d := by
  rcases a with (e | f) | x
  · rcases b with (e' | f') | y
    · simp [join]
    · simp [join]
    · simp [join, Eval.IsFault]
  · simp [join, Eval.IsFault]
  · rcases Bool.eq_or_eq_not x d with rfl | rfl
    · simp
    · simp [Eval.IsFault]

theorem join_eq_unit_iff {a b : Eval Bool} :
    join d a b = .ok (!d) ↔ a = .ok (!d) ∧ b = .ok (!d) := by
  rcases a with (e | f) | x
  · rcases b with (e' | f') | y
    · simp [join]
    · simp [join]
    · rcases Bool.eq_or_eq_not y d with rfl | rfl
      · simp
      · simp
  · simp [join]
  · rcases Bool.eq_or_eq_not x d with rfl | rfl
    · simp
    · simp

theorem eq_of_join_fault {a b : Eval Bool} {f : Fault} (h : join d a b = .error (.fault f)) :
    a = .error (.fault f) ∨ b = .error (.fault f) := by
  rcases a with (e | f') | x
  · rcases b with (e' | f') | y
    · simp [join] at h
    · exact Or.inr h
    · simp only [join] at h
      split at h <;> cases h
  · exact Or.inl h
  · rcases Bool.eq_or_eq_not x d with rfl | rfl
    · rw [join_decisive] at h; cases h
    · rw [join_unit_left] at h; exact Or.inr h

/-! ### Operands in a row -/

@[simp] theorem joinAll_nil : joinAll d [] = .ok (!d) := rfl

@[simp] theorem joinAll_cons (o : Eval Bool) (os : List (Eval Bool)) :
    joinAll d (o :: os) = join d o (joinAll d os) := rfl

theorem joinAll_append (xs ys : List (Eval Bool)) :
    joinAll d (xs ++ ys) = join d (joinAll d xs) (joinAll d ys) := by
  induction xs with
  | nil => exact (join_unit_left _).symm
  | cons x xs ih => rw [List.cons_append, joinAll_cons, ih, joinAll_cons, join_assoc]

/-- **Operands decide just if one of them does and none in front of it ends in a fault.** -/
theorem joinAll_eq_decisive_iff {os : List (Eval Bool)} :
    joinAll d os = .ok d ↔
      ∃ front back, os = front ++ .ok d :: back ∧ ∀ o ∈ front, ¬ o.IsFault := by
  induction os with
  | nil => simp
  | cons o os ih =>
    rw [joinAll_cons, join_eq_decisive_iff, ih]
    constructor
    · rintro (rfl | ⟨ho, front, back, rfl, hfront⟩)
      · exact ⟨[], os, rfl, nofun⟩
      · exact ⟨o :: front, back, rfl, List.forall_mem_cons.mpr ⟨ho, hfront⟩⟩
    · rintro ⟨front, back, hos, hfront⟩
      cases front with
      | nil => exact Or.inl (List.cons.inj hos).1
      | cons x front =>
        obtain ⟨rfl, rfl⟩ := List.cons.inj hos
        obtain ⟨hx, hfront⟩ := List.forall_mem_cons.mp hfront
        exact Or.inr ⟨hx, front, back, rfl, hfront⟩

/-- **Operands do not decide just if each of them has the truth value that does not.** -/
theorem joinAll_eq_unit_iff {os : List (Eval Bool)} :
    joinAll d os = .ok (!d) ↔ ∀ o ∈ os, o = .ok (!d) := by
  induction os with
  | nil => simp
  | cons o os ih => rw [joinAll_cons, join_eq_unit_iff, ih, List.forall_mem_cons]

/-- A fault in operands is the fault of one of them. -/
theorem mem_of_joinAll_fault {os : List (Eval Bool)} {f : Fault}
    (h : joinAll d os = .error (.fault f)) : .error (.fault f) ∈ os := by
  induction os with
  | nil => cases h
  | cons o os ih =>
    rcases eq_of_join_fault h with rfl | h
    · exact List.mem_cons_self
    · exact List.mem_cons_of_mem o (ih h)

/-! ### Trees of operands -/

/-- The logical operator that a truth value decides. -/
def operatorOf : Bool → BinaryOp
  | true => .or
  | false => .and

@[simp] theorem decisive_operatorOf (d : Bool) : decisive (operatorOf d) = d := by
  cases d <;> rfl

/-- How the operands of one operator are grouped. -/
inductive Grouping
  | single (e : Expr)
  | pair (pos : Nat) (left right : Grouping)

namespace Grouping

/-- The operands from left to right. -/
def operands : Grouping → List Expr
  | single e => [e]
  | pair _ left right => left.operands ++ right.operands

/-- The operands with an operator between them. -/
def expr (op : BinaryOp) : Grouping → Expr
  | single e => e
  | pair pos left right => .binary pos op (left.expr op) (right.expr op)

end Grouping

/-- A logical operator joins what it makes of its operands. -/
theorem logical_eq (op : BinaryOp) (left : Eval Dyn) (right : Unit → Eval Dyn) :
    logical op left right =
      (join (decisive op) (left >>= Dyn.truth s!"_{op.symbol}_")
        (right () >>= Dyn.truth s!"_{op.symbol}_")).map Dyn.bool := by
  -- The second operand is asked for its truth value in two places.
  have hsecond (next : Bool → Eval Dyn) : (do next (← (← right ()).truth s!"_{op.symbol}_")) =
      (right () >>= Dyn.truth s!"_{op.symbol}_") >>= next := (bind_assoc ..).symm
  unfold logical
  generalize s!"_{op.symbol}_" = name at hsecond ⊢
  dsimp only
  rcases left >>= Dyn.truth name with (e | f) | x
  · dsimp only
    rw [hsecond]
    rcases right () >>= Dyn.truth name with (e' | f') | y
    · rfl
    · rfl
    · rw [ok_bind]
      rcases Bool.eq_or_eq_not y (decisive op) with rfl | rfl
      · rw [if_pos rfl, join_error_decisive]; rfl
      · rw [if_neg (by simp), join_unit_right]; rfl
  · rfl
  · dsimp only
    rw [hsecond]
    rcases Bool.eq_or_eq_not x (decisive op) with rfl | rfl
    · rw [if_pos rfl, join_decisive]; rfl
    · rw [if_neg (by simp), join_unit_left]; rfl


/-- What the operator that a truth value decides makes of an operand. -/
def operandTruth (d : Bool) (env : Activation) (e : Expr) : Eval Bool :=
  eval env e >>= Dyn.truth s!"_{(operatorOf d).symbol}_"

variable {env : Activation}

namespace Grouping

/-- Two groups are worth what their joined operands are. -/
theorem eval_pair (pos : Nat) (left right : Grouping) :
    eval env ((pair pos left right).expr (operatorOf d)) =
      (join d (operandTruth d env (left.expr (operatorOf d)))
        (operandTruth d env (right.expr (operatorOf d)))).map Dyn.bool := by
  have hl := logical_eq (operatorOf d) (eval env (left.expr (operatorOf d)))
    fun _ => eval env (right.expr (operatorOf d))
  rw [decisive_operatorOf] at hl
  rw [← operandTruth, ← operandTruth] at hl
  rw [← hl]
  cases d <;> rfl

/-- **A tree of operands is worth what the list of its operands is.** -/
theorem truth_expr (g : Grouping) : operandTruth d env (g.expr (operatorOf d)) =
    joinAll d (g.operands.map (operandTruth d env)) := by
  induction g with
  | single e => exact (join_unit_right _).symm
  | pair pos left right ihl ihr =>
    have htruth (o : Eval Bool) (name : String) : o.map Dyn.bool >>= Dyn.truth name = o := by
      cases o <;> rfl
    rw [operandTruth, eval_pair, htruth, ihl, ihr, operands, List.map_append, joinAll_append]

theorem operands_ne_nil : ∀ g : Grouping, g.operands ≠ []
  | single _ => List.cons_ne_nil _ _
  | pair _ left _ => List.append_ne_nil_of_left_ne_nil left.operands_ne_nil _

/-- How operands are grouped does not matter. -/
theorem eval_expr_congr {g h : Grouping} (ho : g.operands = h.operands) :
    eval env (g.expr (operatorOf d)) = eval env (h.expr (operatorOf d)) := by
  have hpair (pos : Nat) (l r : Grouping) : eval env ((pair pos l r).expr (operatorOf d)) =
      (joinAll d ((pair pos l r).operands.map (operandTruth d env))).map Dyn.bool := by
    rw [eval_pair, truth_expr, truth_expr, ← joinAll_append, ← List.map_append, operands]
  have hlength (pos : Nat) (l r : Grouping) : 2 ≤ (pair pos l r).operands.length := by
    have hl := List.length_pos_iff.mpr l.operands_ne_nil
    have hr := List.length_pos_iff.mpr r.operands_ne_nil
    rw [operands, List.length_append]
    omega
  cases g with
  | single e =>
    cases h with
    | single e' => cases ho; rfl
    | pair pos l r => exact absurd (hlength pos l r) (by rw [← ho]; simp [operands])
  | pair pos l r =>
    cases h with
    | single e => exact absurd (hlength pos l r) (by rw [ho]; simp [operands])
    | pair pos' l' r' => rw [hpair, hpair, ho]

end Grouping

/-! ### Programs -/

theorem Dyn.truth_eq_ok_iff {name : String} {v : Dyn} {b : Bool} :
    v.truth name = .ok b ↔ v = .bool b := by
  cases v <;> simp [truth, Eval.noOverload, Eval.fail]

/-- The program of an expression. -/
def Program.ofExpr (e : Expr) : Program := ⟨[], e⟩

/-- A program has a truth value just if a logical operator finds it in its expression. -/
theorem evaluate_ofExpr_eq_ok_iff {e : Expr} {b : Bool} :
    (Program.ofExpr e).evaluate env = .ok b ↔ operandTruth d env e = .ok b := by
  unfold Program.evaluate operandTruth Program.ofExpr
  rcases eval env e with (k | f) | v
  · exact ⟨nofun, nofun⟩
  · exact ⟨nofun, nofun⟩
  · rw [ok_bind, Dyn.truth_eq_ok_iff]
    cases v <;> simp

/-- To ask for a truth value is no fault. -/
theorem operandTruth_eq_fault_iff {e : Expr} {f : Fault} :
    operandTruth d env e = .error (.fault f) ↔ eval env e = .error (.fault f) := by
  unfold operandTruth
  rcases eval env e with k | v
  · change Except.error k = _ ↔ _
    rw [Except.error.injEq, Except.error.injEq]
  · rw [ok_bind]
    cases v <;> exact ⟨nofun, nofun⟩

/-- A program that fails tells why, unless it ends in a fault that it does not turn into an
error. -/
theorem exists_of_evaluate_ofExpr_eq_error {e : Expr} {s : SelectError}
    (h : (Program.ofExpr e).evaluate env = .error s) :
    (∃ k, s = .eval k) ∨ ∃ f, eval env e = .error (.fault f) ∧ escapes f ∧ s = .fault f := by
  unfold Program.evaluate Program.ofExpr at h
  split at h
  · cases h
  · cases h; exact Or.inl ⟨_, rfl⟩
  · cases h; exact Or.inl ⟨_, rfl⟩
  · next f hf =>
    cases h
    by_cases he : escapes f = true
    · exact Or.inr ⟨f, hf, he, if_pos he⟩
    · exact Or.inl ⟨_, if_neg he⟩

namespace Grouping

variable {g h : Grouping}

/-- The truth value of operands with the operator between them that a truth value decides. -/
def evaluate (g : Grouping) (d : Bool) (env : Activation) : Except SelectError Bool :=
  (Program.ofExpr (g.expr (operatorOf d))).evaluate env

/-- **Operands decide just if one of them does and none in front of it ends in a fault.** -/
theorem evaluate_eq_decisive_iff : g.evaluate d env = .ok d ↔
    ∃ front e back, g.operands = front ++ e :: back ∧ (Program.ofExpr e).evaluate env = .ok d ∧
      ∀ x ∈ front, ¬ (eval env x).IsFault := by
  have hfault {x : Expr} : (operandTruth d env x).IsFault ↔ (eval env x).IsFault :=
    exists_congr fun _ => operandTruth_eq_fault_iff
  rw [evaluate, evaluate_ofExpr_eq_ok_iff, truth_expr, joinAll_eq_decisive_iff]
  constructor
  · rintro ⟨front, back, hmap, hfront⟩
    obtain ⟨xs, ys, hxs, rfl, hys⟩ := List.map_eq_append_iff.mp hmap
    obtain ⟨e, zs, rfl, he, rfl⟩ := List.map_eq_cons_iff.mp hys
    refine ⟨xs, e, zs, hxs, evaluate_ofExpr_eq_ok_iff.mpr he, fun x hx h => ?_⟩
    exact hfront _ (List.mem_map_of_mem hx) (hfault.mpr h)
  · rintro ⟨front, e, back, hg, he, hfront⟩
    refine ⟨front.map (operandTruth d env), back.map (operandTruth d env), ?_, fun o ho h => ?_⟩
    · rw [hg, List.map_append, List.map_cons, evaluate_ofExpr_eq_ok_iff.mp he]
    · obtain ⟨x, hx, rfl⟩ := List.mem_map.mp ho
      exact hfront x hx (hfault.mp h)

/-- **Operands have the other truth value just if each of them has it.** -/
theorem evaluate_eq_unit_iff : g.evaluate d env = .ok (!d) ↔
    ∀ e ∈ g.operands, (Program.ofExpr e).evaluate env = .ok (!d) := by
  rw [evaluate, evaluate_ofExpr_eq_ok_iff, truth_expr, joinAll_eq_unit_iff, List.forall_mem_map]
  exact forall₂_congr fun e _ => evaluate_ofExpr_eq_ok_iff.symm

/-- Operands without a truth value tell why, or an operand ends in the fault that they end in. -/
theorem exists_of_evaluate_eq_error {s : SelectError} (hs : g.evaluate d env = .error s) :
    (∃ e, s = .eval e) ∨
      ∃ e ∈ g.operands, (eval env e).IsFault ∧ (Program.ofExpr e).evaluate env = .error s := by
  rcases exists_of_evaluate_ofExpr_eq_error hs with he | ⟨f, hf, hescapes, rfl⟩
  · exact Or.inl he
  · have hjoin : joinAll d (g.operands.map (operandTruth d env)) = .error (.fault f) :=
      truth_expr g ▸ operandTruth_eq_fault_iff.mpr hf
    obtain ⟨e, he, hfault⟩ := List.mem_map.mp (mem_of_joinAll_fault hjoin)
    have hfault := operandTruth_eq_fault_iff.mp hfault
    refine Or.inr ⟨e, he, ⟨f, hfault⟩, ?_⟩
    unfold Program.evaluate Program.ofExpr
    rw [hfault]
    exact congrArg Except.error (if_pos hescapes)

theorem evaluate_congr (ho : h.operands = g.operands) : h.evaluate d env = g.evaluate d env := by
  unfold evaluate Program.evaluate Program.ofExpr
  rw [eval_expr_congr ho]

/-- Without faults an operand decides wherever it stands. -/
theorem evaluate_eq_decisive_iff_of_forall (hg : ∀ e ∈ g.operands, ¬ (eval env e).IsFault) :
    g.evaluate d env = .ok d ↔
      ∃ e ∈ g.operands, (Program.ofExpr e).evaluate env = .ok d := by
  rw [evaluate_eq_decisive_iff]
  constructor
  · rintro ⟨front, e, back, ho, he, -⟩
    exact ⟨e, ho ▸ List.mem_append_right front List.mem_cons_self, he⟩
  · rintro ⟨e, he, hd⟩
    obtain ⟨front, back, ho⟩ := List.append_of_mem he
    refine ⟨front, e, back, ho, hd, fun x hx => hg x ?_⟩
    rw [ho]
    exact List.mem_append_left _ hx

theorem evaluate_eq_ok_iff_of_perm (hg : ∀ e ∈ g.operands, ¬ (eval env e).IsFault)
    (ho : h.operands.Perm g.operands) (b : Bool) :
    h.evaluate d env = .ok b ↔ g.evaluate d env = .ok b := by
  have hh : ∀ e ∈ h.operands, ¬ (eval env e).IsFault := fun e he => hg e (ho.mem_iff.mp he)
  rcases Bool.eq_or_eq_not b d with rfl | rfl
  · rw [evaluate_eq_decisive_iff_of_forall hg, evaluate_eq_decisive_iff_of_forall hh]
    exact exists_congr fun e => and_congr_left' ho.mem_iff
  · rw [evaluate_eq_unit_iff, evaluate_eq_unit_iff]
    exact forall_congr' fun e => imp_congr_left ho.mem_iff

end Grouping

/-- **Errors are absorbed.** Operands of `||` are true just if one of them is and none in front of
it ends in a fault, they are false just if all of them are, and where they are neither the program
tells why, but for a fault that the program of an operand lets through too; the same is so for `&&`
with the truth values exchanged. How the operands are grouped does not matter, and if none of them
ends in a fault, neither does their order. -/
theorem evaluate_operands (d : Bool) (env : Activation) (g : Grouping) :
    let alone e := (Program.ofExpr e).evaluate env
    let joined (g : Grouping) := alone (g.expr (operatorOf d))
    (joined g = .ok d ↔ ∃ front e back, g.operands = front ++ e :: back ∧ alone e = .ok d ∧
      ∀ x ∈ front, ¬ (eval env x).IsFault) ∧
    (joined g = .ok (!d) ↔ ∀ e ∈ g.operands, alone e = .ok (!d)) ∧
    (∀ s, joined g = .error s → (∃ e, s = .eval e) ∨
      ∃ e ∈ g.operands, (eval env e).IsFault ∧ alone e = .error s) ∧
    (∀ h : Grouping, h.operands = g.operands → joined h = joined g) ∧
    ((∀ e ∈ g.operands, ¬ (eval env e).IsFault) →
      (joined g = .ok d ↔ ∃ e ∈ g.operands, alone e = .ok d) ∧
      (∀ s, joined g = .error s → ∃ e, s = .eval e) ∧
      ∀ h : Grouping, h.operands.Perm g.operands → ∀ b, joined h = .ok b ↔ joined g = .ok b) := by
  refine ⟨Grouping.evaluate_eq_decisive_iff, Grouping.evaluate_eq_unit_iff,
    fun s hs => Grouping.exists_of_evaluate_eq_error hs, fun h ho => Grouping.evaluate_congr ho,
    fun hg => ⟨Grouping.evaluate_eq_decisive_iff_of_forall hg, fun s hs => ?_,
      fun h ho b => Grouping.evaluate_eq_ok_iff_of_perm hg ho b⟩⟩
  rcases Grouping.exists_of_evaluate_eq_error hs with he | ⟨e, he, hfault, -⟩
  · exact he
  · exact absurd hfault (hg e he)

/-! ### An error and a fault in front of the operand that decides -/

/-- An operand that ends in an error: a division by zero. -/
def dividing : Expr :=
  .binary 6 .eq (.binary 2 .div (.literal 0 (.int 1)) (.literal 4 (.int 0))) (.literal 9 (.int 1))

/-- An operand that ends in a fault: a time behind the last one. -/
def overflowing : Expr :=
  .binary 31 .eq (.call 9 (Text.lit "timestamp") [.literal 10 (.int int64Max)])
    (.ident 34 (Text.lit "time"))

/-- The variables of a record that holds nothing. -/
def blankRecord : Activation :=
  [(Text.lit "msg", .string []), (Text.lit "level", .string (Text.lit "INFO")),
    (Text.lit "time", .timestamp Time.epoch), (Text.lit "attrs", .map [])]

/-- An error of one operand is absorbed by the operand that decides, which may stand on either
side. -/
theorem evaluate_operands_dividing :
    let yes : Expr := .literal 14 (.bool true)
    let no : Expr := .literal 20 (.bool false)
    let g : Grouping := .pair 25 (.pair 11 (.single dividing) (.single no)) (.single yes)
    let h : Grouping := .pair 11 (.single yes) (.pair 25 (.single no) (.single dividing))
    (∀ e ∈ g.operands, ¬ (eval blankRecord e).IsFault) ∧
      (Program.ofExpr dividing).evaluate blankRecord = .error (.eval .divisionByZero) ∧
      (Program.ofExpr (g.expr .or)).evaluate blankRecord = .ok true ∧
      (Program.ofExpr (h.expr .or)).evaluate blankRecord = .ok true := by
  intro yes no g h
  have hdividing : eval blankRecord dividing = .error (.error .divisionByZero) := by cbv
  have hno : ∀ e ∈ g.operands, ¬ (eval blankRecord e).IsFault := by
    rintro e he ⟨f, hf⟩
    rcases List.mem_cons.mp he with rfl | he
    · rw [hdividing] at hf; cases hf
    rcases List.mem_cons.mp he with rfl | he
    · cases hf
    obtain rfl := List.mem_singleton.mp he
    cases hf
  have hyes : (Program.ofExpr yes).evaluate blankRecord = .ok true := rfl
  obtain ⟨hdecisive, -, hperm⟩ := (evaluate_operands true blankRecord g).2.2.2.2 hno
  have hg := hdecisive.mpr ⟨yes, by simp [g, Grouping.operands], hyes⟩
  exact ⟨hno, by cbv, hg, (hperm h (List.reverse_perm g.operands) true).mpr hg⟩

/-- A fault is not absorbed in front of the operand that decides, though it is behind it: the
checker takes both operands, one of them is true, and what joins them is not. -/
theorem not_absorbed_of_overflowing :
    let yes : Expr := .literal 42 (.bool true)
    let joined : Expr := .binary 39 .or overflowing yes
    let swapped : Expr := .binary 39 .or yes overflowing
    let alone e := (Program.ofExpr e).evaluate blankRecord
    check recordScope joined = .ok .bool ∧ check recordScope swapped = .ok .bool ∧
      alone swapped = .ok true ∧ alone joined = .error (.eval .programFailed) ∧
      ¬ (alone joined = .ok true ↔ alone overflowing = .ok true ∨ alone yes = .ok true) := by
  intro yes joined swapped alone
  have hyes : alone yes = .ok true := rfl
  have hjoined : alone joined = .error (.eval .programFailed) := by cbv
  refine ⟨rfl, rfl, rfl, hjoined, fun h => ?_⟩
  cases hjoined.symm.trans (h.mpr (Or.inr hyes))

end LogStream.Filter
