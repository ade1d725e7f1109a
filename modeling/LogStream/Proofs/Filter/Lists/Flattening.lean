import LogStream.Proofs.Filter.Application
import LogStream.Proofs.Filter.Lists.Sets
import LogStream.Proofs.Filter.Typing.Lists
import LogStream.Proofs.Filter.Walks

/-! # Flattening

Proofs go by induction on the elements of a list and those of the lists among them (`induction_elements`). Opened up
twice, a list is opened up to both depths together (`flatAll_flatAll`). The values in it that are no lists stay, in
their order (`leavesOf_flatAll`), and its nesting is less by the depth (`nestingOf_flatAll`); so nothing but these values
is left at the depth of its nesting, and not earlier. These are the laws of `flatten_laws`. -/

namespace LogStream.Filter

namespace Dyn

variable {v : Dyn} {xs ys : List Dyn}

def isList : Dyn → Bool
  | list _ => true
  | _ => false

/-! ### Leaves and nesting -/

mutual

/-- The values that are no lists in a value, from the left. -/
def leaves : Dyn → List Dyn
  | .list xs => leavesOf xs
  | v => [v]
termination_by structural v => v

def leavesOf : List Dyn → List Dyn
  | [] => []
  | x :: xs => leaves x ++ leavesOf xs
termination_by structural xs => xs

end

mutual

/-- How many lists are one inside the other in a value. -/
def nesting : Dyn → Nat
  | .list xs => nestingOf xs + 1
  | _ => 0
termination_by structural v => v

/-- How many lists are one inside the other among some elements. -/
def nestingOf : List Dyn → Nat
  | [] => 0
  | x :: xs => max (nesting x) (nestingOf xs)
termination_by structural xs => xs

end

/-! ### Induction -/

mutual

theorem induction_element {motive : List Dyn → Prop} (nil : motive [])
    (list : ∀ ys xs, motive ys → motive xs → motive (.list ys :: xs))
    (other : ∀ v xs, v.isList = false → motive xs → motive (v :: xs)) :
    ∀ (v : Dyn) (xs : List Dyn), motive xs → motive (v :: xs)
  | .list ys, xs, h => list ys xs (induction_elements nil list other ys) h
  | .null, xs, h | .bool _, xs, h | .int _, xs, h | .double _, xs, h | .string _, xs, h | .bytes _, xs, h
  | .map _, xs, h | .timestamp _, xs, h | .duration _, xs, h | .optional _, xs, h | .members _, xs, h
  | .foreign _, xs, h => other _ xs rfl h
termination_by structural v => v

/-- Induction on the elements of a list and of the lists among them. -/
theorem induction_elements {motive : List Dyn → Prop} (nil : motive [])
    (list : ∀ ys xs, motive ys → motive xs → motive (.list ys :: xs))
    (other : ∀ v xs, v.isList = false → motive xs → motive (v :: xs)) : ∀ xs : List Dyn, motive xs
  | [] => nil
  | x :: xs => induction_element nil list other x xs (induction_elements nil list other xs)
termination_by structural xs => xs

end

/-! ### Elements that are opened up -/

theorem flatAll_list_succ (depth : Nat) (ys xs : List Dyn) :
    flatAll (depth + 1) (.list ys :: xs) = flatAll depth ys ++ flatAll (depth + 1) xs := rfl

theorem flatAll_of_isList_eq_false (hv : v.isList = false) (depth : Nat) (xs : List Dyn) :
    flatAll depth (v :: xs) = v :: flatAll depth xs := by
  cases v with
  | list => cases hv
  | _ => rfl

theorem leavesOf_of_isList_eq_false (hv : v.isList = false) (xs : List Dyn) :
    leavesOf (v :: xs) = v :: leavesOf xs := by
  cases v with
  | list => cases hv
  | _ => rfl

theorem nestingOf_of_isList_eq_false (hv : v.isList = false) (xs : List Dyn) :
    nestingOf (v :: xs) = nestingOf xs := by
  cases v with
  | list => cases hv
  | _ => exact Nat.zero_max _

theorem flatAll_append (depth : Nat) (xs ys : List Dyn) :
    flatAll depth (xs ++ ys) = flatAll depth xs ++ flatAll depth ys := by
  induction xs with
  | nil => rfl
  | cons x xs ih => rw [List.cons_append, flatAll, flatAll, ih, List.append_assoc]

theorem leavesOf_append (xs ys : List Dyn) : leavesOf (xs ++ ys) = leavesOf xs ++ leavesOf ys := by
  induction xs with
  | nil => rfl
  | cons x xs ih => rw [List.cons_append, leavesOf, leavesOf, ih, List.append_assoc]

theorem nestingOf_append (xs ys : List Dyn) : nestingOf (xs ++ ys) = max (nestingOf xs) (nestingOf ys) := by
  induction xs with
  | nil => exact (Nat.zero_max _).symm
  | cons x xs ih => rw [List.cons_append, nestingOf, nestingOf, ih, Nat.max_assoc]

/-- **Elements opened up twice are opened up to both depths together.** -/
theorem flatAll_flatAll (m n : Nat) (xs : List Dyn) : flatAll n (flatAll m xs) = flatAll (m + n) xs := by
  induction xs using induction_elements generalizing m with
  | nil => rfl
  | list ys xs ihys ihxs =>
    cases m with
    | zero => rw [flatAll_zero, Nat.zero_add]
    | succ m =>
      rw [flatAll_list_succ, flatAll_append, ihys, ihxs, Nat.add_right_comm, flatAll_list_succ]
  | other v xs hv ih =>
    rw [flatAll_of_isList_eq_false hv, flatAll_of_isList_eq_false hv, flatAll_of_isList_eq_false hv, ih]

/-- **What is no list stays, in its order.** -/
theorem leavesOf_flatAll (depth : Nat) (xs : List Dyn) : leavesOf (flatAll depth xs) = leavesOf xs := by
  induction xs using induction_elements generalizing depth with
  | nil => rfl
  | list ys xs ihys ihxs =>
    cases depth with
    | zero => rw [flatAll_zero]
    | succ depth =>
      rw [flatAll_list_succ, leavesOf_append, ihys, ihxs]
      rfl
  | other v xs hv ih =>
    rw [flatAll_of_isList_eq_false hv, leavesOf_of_isList_eq_false hv, leavesOf_of_isList_eq_false hv, ih]

/-- **The nesting is less by the depth.** -/
theorem nestingOf_flatAll (depth : Nat) (xs : List Dyn) : nestingOf (flatAll depth xs) = nestingOf xs - depth := by
  induction xs using induction_elements generalizing depth with
  | nil => exact (Nat.zero_sub _).symm
  | list ys xs ihys ihxs =>
    cases depth with
    | zero => rw [flatAll_zero, Nat.sub_zero]
    | succ depth =>
      rw [flatAll_list_succ, nestingOf_append, ihys, ihxs, nestingOf, nesting]
      omega
  | other v xs hv ih =>
    rw [flatAll_of_isList_eq_false hv, nestingOf_of_isList_eq_false hv, nestingOf_of_isList_eq_false hv, ih]

theorem nestingOf_eq_zero_iff : nestingOf xs = 0 ↔ ∀ x ∈ xs, x.isList = false := by
  have hnesting (v : Dyn) : v.nesting = 0 ↔ v.isList = false := by
    cases v <;> simp [nesting, isList]
  induction xs with
  | nil => simp [nestingOf]
  | cons x xs ih => simp only [nestingOf, Nat.max_eq_zero_iff, hnesting, ih, List.forall_mem_cons]

/-- Without lists among them elements are their own leaves. -/
theorem leavesOf_eq_self (h : ∀ x ∈ xs, x.isList = false) : leavesOf xs = xs := by
  induction xs with
  | nil => rfl
  | cons x xs ih =>
    obtain ⟨hx, hxs⟩ := List.forall_mem_cons.mp h
    rw [leavesOf_of_isList_eq_false hx, ih hxs]

/-- There are no lists left from the nesting on. -/
theorem isList_flatAll_iff {depth : Nat} :
    (∀ x ∈ flatAll depth xs, x.isList = false) ↔ nestingOf xs ≤ depth := by
  rw [← nestingOf_eq_zero_iff, nestingOf_flatAll, Nat.sub_eq_zero_iff_le]

/-- **From the nesting on only the leaves are left.** -/
theorem flatAll_eq_leavesOf {depth : Nat} (h : nestingOf xs ≤ depth) : flatAll depth xs = leavesOf xs := by
  rw [← leavesOf_flatAll depth xs, leavesOf_eq_self (isList_flatAll_iff.mpr h)]

/-- Elements of comparable lists are comparable. -/
theorem IsComparable.elements (h : (Dyn.list xs).IsComparable) : AreComparable xs := fun x hx =>
  ⟨h.proper.items x hx, anyHoldsNaN_eq_false_iff.mp h.noNaN x hx⟩

theorem areComparable_flatAll (depth : Nat) (h : AreComparable xs) : AreComparable (flatAll depth xs) := by
  induction xs using induction_elements generalizing depth with
  | nil => exact h
  | list ys xs ihys ihxs =>
    obtain ⟨hys, hxs⟩ := List.forall_mem_cons.mp h
    cases depth with
    | zero => rwa [flatAll_zero]
    | succ depth => exact List.forall_mem_append.mpr ⟨ihys depth hys.elements, ihxs (depth + 1) hxs⟩
  | other v xs hv ih =>
    obtain ⟨hx, hxs⟩ := List.forall_mem_cons.mp h
    rw [flatAll_of_isList_eq_false hv]
    exact List.forall_mem_cons.mpr ⟨hx, ih depth hxs⟩

end Dyn

/-! ### Expressions -/

open Dyn (AreComparable leavesOf nestingOf flatAll)

variable {env : Activation} {e d : Expr} {xs : List Dyn} {n : Int}

/-- The call of `flatten` with a depth. -/
def flattenCall (pos : Nat) (e d : Expr) : Expr := .method pos (Text.lit "flatten") e [d]

theorem eval_flattenCall (he : eval env e = .ok (.list xs)) (hd : eval env d = .ok (.int n)) (hn : 0 ≤ n)
    (pos : Nat) : eval env (flattenCall pos e d) = .ok (.list (flatAll n.toNat xs)) := by
  have hname : Builtin.member? (Text.lit "flatten") = some .flatten := by decide
  have hvalue : Dyn.flatten (.list xs) (.int n) = .ok (.list (flatAll n.toNat xs)) := if_neg (Int.not_lt.mpr hn)
  rw [flattenCall, eval_method hname he (evalAll_cons hd evalAll_nil)]
  exact congrArg (called _) hvalue

/-- The laws of flattening a list of values. -/
structure FlattenLaws (env : Activation) (e : Expr) (xs : List Dyn) : Prop where
  flatten_flatten {a b c : Expr} {m n : Int} (ha : eval env a = .ok (.int m)) (hm : 0 ≤ m)
    (hb : eval env b = .ok (.int n)) (hn : 0 ≤ n) (hc : eval env c = .ok (.int (m + n))) (i j k : Nat) :
    SameValue env (flattenCall i (flattenCall j e a) b) (flattenCall k e c)
  /-- Values that are compared are equal to themselves, so both are also equal in the language. -/
  equal {a b c : Expr} {m n : Int} (ha : eval env a = .ok (.int m)) (hm : 0 ≤ m)
    (hb : eval env b = .ok (.int n)) (hn : 0 ≤ n) (hc : eval env c = .ok (.int (m + n))) (i j k l : Nat)
    (hxs : AreComparable xs) :
    eval env (.binary l .eq (flattenCall i (flattenCall j e a) b) (flattenCall k e c)) = .ok (.bool true)
  /-- What is no list stays, in its order, and no list is left just from the nesting on. -/
  leaves {d : Expr} {n : Int} (hd : eval env d = .ok (.int n)) (hn : 0 ≤ n) (i : Nat) :
    ∃ ys, eval env (flattenCall i e d) = .ok (.list ys) ∧ leavesOf ys = leavesOf xs ∧
      ((∀ y ∈ ys, y.isList = false) ↔ nestingOf xs ≤ n)
  /-- From there on the depth makes no difference. -/
  deep {c d : Expr} {m n : Int} (hc : eval env c = .ok (.int m)) (hd : eval env d = .ok (.int n))
    (hm : nestingOf xs ≤ m) (hmn : m ≤ n) (i j : Nat) : SameValue env (flattenCall i e c) (flattenCall j e d)

/-- **Flattening obeys its laws** on every list of values. -/
theorem flatten_laws (he : eval env e = .ok (.list xs)) : FlattenLaws env e xs where
  flatten_flatten {a b c m n} ha hm hb hn hc i j k := by
    refine ⟨_, eval_flattenCall (eval_flattenCall he ha hm j) hb hn i, ?_⟩
    rw [eval_flattenCall he hc (Int.add_nonneg hm hn), Dyn.flatAll_flatAll, Int.toNat_add hm hn]
  equal {a b c m n} ha hm hb hn hc i j k l hxs := by
    have hleft := eval_flattenCall (eval_flattenCall he ha hm j) hb hn i
    have hright := eval_flattenCall he hc (Int.add_nonneg hm hn) k
    rw [Dyn.flatAll_flatAll, ← Int.toNat_add hm hn] at hleft
    have hys := Dyn.areComparable_flatAll (m + n).toNat hxs
    have hself : (Dyn.list (flatAll (m + n).toNat xs)).equals (.list (flatAll (m + n).toNat xs)) = true :=
      Dyn.equals_self (.list fun y hy => (hys y hy).proper)
        (Dyn.anyHoldsNaN_eq_false_iff.mpr fun y hy => (hys y hy).noNaN)
    rw [eval_operate (by decide) hleft hright]
    exact congrArg (fun b => Except.ok (Dyn.bool b)) hself
  leaves {d n} hd hn i := by
    refine ⟨_, eval_flattenCall he hd hn i, Dyn.leavesOf_flatAll _ xs, ?_⟩
    rw [Dyn.isList_flatAll_iff]
    omega
  deep {c d m n} hc hd hm hmn i j := by
    have hm0 : 0 ≤ m := by omega
    refine ⟨_, eval_flattenCall he hc hm0 i, ?_⟩
    rw [eval_flattenCall he hd (hm0.trans hmn), Dyn.flatAll_eq_leavesOf (by omega), Dyn.flatAll_eq_leavesOf (by omega)]

/-- A list of a number, a list that ends in an empty one, and a list inside another one. -/
def unevenList : Expr := .list 0 [.literal 0 (.int 1),
  .list 0 [.literal 0 (.string (Text.lit "a")), .list 0 []], .list 0 [.list 0 [.literal 0 (.int 2)]]]

/-- It is opened up step by step as at once, and two steps leave no list. -/
theorem flatten_laws_unevenList :
    SameValue [] (flattenCall 0 (flattenCall 0 unevenList (.literal 0 (.int 1))) (.literal 0 (.int 1)))
      (flattenCall 0 unevenList (.literal 0 (.int 2))) ∧
    ∃ ys, eval [] (flattenCall 0 unevenList (.literal 0 (.int 2))) = .ok (.list ys) ∧
      leavesOf ys = [.int 1, .string (Text.lit "a"), .int 2] ∧ ∀ y ∈ ys, y.isList = false := by
  have hlaws : FlattenLaws [] unevenList [.int 1, .list [.string (Text.lit "a"), .list []], .list [.list [.int 2]]] :=
    flatten_laws rfl
  obtain ⟨ys, hys, hleaves, hlists⟩ := hlaws.leaves (d := .literal 0 (.int 2)) rfl (by decide) 0
  exact ⟨hlaws.flatten_flatten rfl (by decide) rfl (by decide) rfl 0 0 0, ys, hys, hleaves, hlists.mpr (by decide)⟩

end LogStream.Filter
