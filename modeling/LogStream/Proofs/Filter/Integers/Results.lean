import Mathlib
import LogStream.Proofs.Filter.Integers.Bits
import LogStream.Proofs.Filter.Visits

/-! # Results of computations with integers

The exact results of operators and functions that compute integers (`BinaryOp.exactInt?`,
`Builtin.exactInt?`). An expression gives the exact result or fails with an error (`Computes.isExact`). The
calls that may give an integer which does not fit in 64 bits are told apart by their arguments
(`Builtin.Oversteps`): all others give integers that fit for such ones (`fitsIn64_of_isUnchecked`), and these
do not (`Builtin.Oversteps.not_fitsIn64`). -/

namespace LogStream.Filter

/-! ### Exact results -/

/-- The exact result of an operator on two integers; over zero there is none. -/
def BinaryOp.exactInt? : BinaryOp → Int → Int → Option Int
  | .add, a, b => some (a + b)
  | .sub, a, b => some (a - b)
  | .mul, a, b => some (a * b)
  | .div, a, b => if b = 0 then none else some (a.tdiv b)
  | .mod, a, b => if b = 0 then none else some (a.tmod b)
  | _, _, _ => none

/-- The integer that a value is, or that stands in it alone. -/
def Dyn.loneInt? : Dyn → Option Int
  | .int n => some n
  | .list [.int n] => some n
  | _ => none

/-- The exact result of a function that computes an integer. Bits are those of two's complements without an
end; shifts move patterns of 64 bits. -/
def Builtin.exactInt? : Builtin → List Dyn → Option Int
  | .abs, [v] => v.loneInt?.map fun n => (n.natAbs : Int)
  | .sign, [v] => v.loneInt?.map Int.sign
  | .toInt, [v] => v.wholeNumber.toOption
  | .toUint, [v] => v.wholeNumber.toOption
  | .bitAnd, [.int m, .int n] => some (Int.land m n)
  | .bitOr, [.int m, .int n] => some (Int.lor m n)
  | .bitXor, [.int m, .int n] => some (Int.xor m n)
  | .bitNot, [.int n] => some (Int.lnot n)
  | .bitShiftLeft, [.int n, .int k] =>
    if 0 ≤ k then some (BitVec.ofInt 64 n <<< k.toNat).toInt else none
  | .bitShiftRight, [.int n, .int k] =>
    if 0 ≤ k then some (BitVec.ofInt 64 n >>> k.toNat).toInt else none
  | _, _ => none

/-- The expression computes an integer, of which this is the exact result. -/
inductive Computes (env : Activation) : Expr → Int → Prop
  | negate {operand : Expr} {a : Int} (h : eval env operand = .ok (.int a)) (pos : Nat) :
      Computes env (.unary pos .neg operand) (-a)
  | operate {op : BinaryOp} {left right : Expr} {a b n : Int} (hl : eval env left = .ok (.int a))
      (hr : eval env right = .ok (.int b)) (hn : op.exactInt? a b = some n) (pos : Nat) :
      Computes env (.binary pos op left right) n
  | apply {e : Expr} {f : Builtin} {es : List Expr} {args : List Dyn} {n : Int}
      (hcall : e.call? = some (f, es)) (hargs : evalAll env es = .ok args)
      (hn : f.exactInt? args = some n) : Computes env e n

namespace Eval

/-- The evaluation gives the integer, or fails with an error. -/
def IsExact (n : Int) (x : Eval Dyn) : Prop := x = .ok (.int n) ∨ ∃ e, x = .error (.error e)

variable {n : Int} {x : Eval Dyn}

theorem isExact_ok (n : Int) : IsExact n (.ok (.int n)) := .inl rfl

theorem isExact_fail (n : Int) (e : EvalError) : IsExact n (fail e) := .inr ⟨e, rfl⟩

theorem isExact_checked (n : Int) : IsExact n (Dyn.checked n) := by
  unfold Dyn.checked
  split
  · exact isExact_ok n
  · exact isExact_fail n _

theorem IsExact.called (h : IsExact n x) (function : Text) : IsExact n (called function x) := by
  rcases h with rfl | ⟨e, rfl⟩
  · exact isExact_ok n
  · exact isExact_fail n e

end Eval

open Eval (Gives IsExact isExact_ok isExact_fail isExact_checked)

theorem isExact_operate {op : BinaryOp} {a b n : Int} (h : op.exactInt? a b = some n) :
    IsExact n (Dyn.operate op (.int a) (.int b)) := by
  unfold BinaryOp.exactInt? at h
  split at h
  · cases h
    exact isExact_checked _
  · cases h
    exact isExact_checked _
  · cases h
    exact isExact_checked _
  · split at h
    · cases h
    · next hb =>
      cases h
      change IsExact _ (if b = 0 then _ else _)
      rw [if_neg hb]
      exact isExact_checked _
  · split at h
    · cases h
    · next hb =>
      cases h
      change IsExact _ (if b = 0 then _ else _)
      rw [if_neg hb]
      exact isExact_checked _
  · cases h

theorem number_of_loneInt? {v : Dyn} {n : Int} (h : v.loneInt? = some n) (name : String) :
    Dyn.number name v = .ok (.int n) := by
  unfold Dyn.loneInt? at h
  split at h
  · cases h
    rfl
  · cases h
    rfl
  · cases h

theorem signed_cases {v : Dyn} {n : Int} (h : v.wholeNumber = .ok n) :
    v.signed = .ok n ∨ ∃ e, v.signed = .error (.error e) := by
  rw [Dyn.signed, h, ok_bind]
  split
  · exact .inl rfl
  · exact .inr ⟨_, rfl⟩

theorem unsigned_cases {v : Dyn} {n : Int} (h : v.wholeNumber = .ok n) :
    v.unsigned = .ok n ∨ ∃ e, v.unsigned = .error (.error e) := by
  unfold Dyn.unsigned
  split
  · exact .inr ⟨_, rfl⟩
  · split
    · exact .inl h
    · exact signed_cases h
  · exact signed_cases h

theorem isExact_toInt {v : Dyn} {n : Int} (h : v.wholeNumber = .ok n) : IsExact n v.toInt := by
  rcases signed_cases h with hs | ⟨e, hs⟩
  · rw [Dyn.toInt, hs]
    exact isExact_ok n
  · rw [Dyn.toInt, hs]
    exact isExact_fail n e

theorem isExact_toUint {v : Dyn} {n : Int} (h : v.wholeNumber = .ok n) : IsExact n v.toUint := by
  rcases unsigned_cases h with hu | ⟨e, hu⟩
  · rw [Dyn.toUint, hu, ok_bind]
    split
    · exact isExact_ok n
    · exact isExact_fail n _
  · rw [Dyn.toUint, hu]
    exact isExact_fail n e

/-- A shift by any number of places is the one by less than 64 of them, or nothing is left. -/
theorem isExact_shift {f : Int → Nat → Int} {n k : Int} (hk : 0 ≤ k)
    (hzero : 64 ≤ k.toNat → f n k.toNat = 0) (name : String) :
    IsExact (f n k.toNat) (Dyn.shift name f (.int n) (.int k)) := by
  change IsExact _ (if k < 0 then _ else if 64 ≤ k then _ else _)
  rw [if_neg (Int.not_lt.mpr hk)]
  split
  · next h64 =>
    rw [hzero (by omega)]
    exact isExact_ok 0
  · exact isExact_ok _

theorem isExact_bitShiftLeft (n : Int) {k : Int} (hk : 0 ≤ k) :
    IsExact (BitVec.ofInt 64 n <<< k.toNat).toInt (Dyn.bitShiftLeft (.int n) (.int k)) := by
  have hshift := Dyn.shiftLeft_eq n k.toNat
  rw [← hshift]
  refine isExact_shift (f := fun n k => Dyn.ofPattern (Dyn.pattern64 (n * (Nat.pow 2 k : Nat)))) hk
    (fun h64 => ?_) _
  rw [hshift, BitVec.shiftLeft_eq_zero h64, BitVec.toInt_zero]

theorem isExact_bitShiftRight (n : Int) {k : Int} (hk : 0 ≤ k) :
    IsExact (BitVec.ofInt 64 n >>> k.toNat).toInt (Dyn.bitShiftRight (.int n) (.int k)) := by
  have hshift := Dyn.shiftRight_eq n k.toNat
  rw [← hshift]
  refine isExact_shift (f := fun n k => Dyn.ofPattern (Dyn.pattern64 n / Nat.pow 2 k)) hk
    (fun h64 => ?_) _
  rw [hshift, BitVec.ushiftRight_eq_zero h64, BitVec.toInt_zero]

/-- **A function gives the exact result or fails with an error.** -/
theorem isExact_apply {f : Builtin} {args : List Dyn} {n : Int} (h : f.exactInt? args = some n) :
    IsExact n (f.apply args) := by
  unfold Builtin.exactInt? at h
  split at h
  · next v =>
    obtain ⟨a, ha, rfl⟩ := Option.map_eq_some_iff.mp h
    change IsExact _ v.abs
    rw [Dyn.abs, number_of_loneInt? ha]
    exact isExact_checked _
  · next v =>
    obtain ⟨a, ha, rfl⟩ := Option.map_eq_some_iff.mp h
    change IsExact _ v.sign
    rw [Dyn.sign, number_of_loneInt? ha]
    exact isExact_ok _
  · exact isExact_toInt (eq_ok_of_toOption h)
  · exact isExact_toUint (eq_ok_of_toOption h)
  · cases h
    rw [← Dyn.landInt_eq]
    exact isExact_ok _
  · cases h
    rw [← Dyn.lorInt_eq]
    exact isExact_ok _
  · cases h
    rw [← Dyn.xorInt_eq]
    exact isExact_ok _
  · cases h
    rw [← Dyn.notInt_eq]
    exact isExact_ok _
  · next m k =>
    split at h
    · next hk =>
      cases h
      exact isExact_bitShiftLeft m hk
    · cases h
  · next m k =>
    split at h
    · next hk =>
      cases h
      exact isExact_bitShiftRight m hk
    · cases h
  · cases h

/-! ### Expressions -/

/-- A call applies its function to the values of the arguments. -/
theorem eval_call {env : Activation} {e : Expr} {f : Builtin} {es : List Expr} {args : List Dyn}
    (hcall : e.call? = some (f, es)) (hargs : evalAll env es = .ok args) :
    ∃ name, eval env e = called name (f.apply args) := by
  cases e with
  | call _ name as =>
    obtain ⟨g, hg, heq⟩ := Option.map_eq_some_iff.mp hcall
    cases heq
    exact ⟨name, by rw [eval, hargs, ok_bind, hg]; rfl⟩
  | method _ name receiver as =>
    obtain ⟨g, hg, heq⟩ := Option.map_eq_some_iff.mp hcall
    cases heq
    obtain ⟨v, hv, hrest⟩ := exists_of_bind_eq_ok hargs
    obtain ⟨vs, hvs, hcons⟩ := exists_of_bind_eq_ok hrest
    cases hcons
    exact ⟨name, by rw [eval, hv, ok_bind, hvs, ok_bind, hg]; rfl⟩
  | _ => cases hcall

theorem BinaryOp.asksBoth_of_exactInt? {op : BinaryOp} {a b n : Int} (hn : op.exactInt? a b = some n) :
    op ∉ [.or, .and, .mem] := by
  cases op with
  | or | and | mem => cases hn
  | _ => decide

/-- **An expression that computes an integer gives the exact one or fails with an error.** -/
theorem Computes.isExact {env : Activation} {e : Expr} {n : Int} (h : Computes env e n) :
    IsExact n (eval env e) := by
  cases h with
  | negate h pos =>
    rw [eval, h, ok_bind]
    exact isExact_checked _
  | operate hl hr hn pos =>
    rw [eval_operate (BinaryOp.asksBoth_of_exactInt? hn) hl hr]
    exact isExact_operate hn
  | apply hcall hargs hn =>
    obtain ⟨name, he⟩ := eval_call hcall hargs
    rw [he]
    exact (isExact_apply hn).called name

/-! ### Calls that overstep -/

/-- A call gives an integer that does not fit in 64 bits, since nothing checks it. -/
inductive Builtin.Oversteps : Builtin → List Dyn → Prop
  /-- The complement of an integer above the signed ones. -/
  | complement {n : Int} (h : int64Max < n) : Oversteps .bitNot [.int n]
  /-- The exclusive disjunction of a negative integer and one above the signed ones. -/
  | exclusive {m n : Int} (h : m < 0 ∧ int64Max < n ∨ int64Max < m ∧ n < 0) :
      Oversteps .bitXor [.int m, .int n]
  /-- The size of what no memory holds, or a place in it. -/
  | measure {f : Builtin} {args : List Dyn} {n : Int} (hf : f ∈ [.size, .indexOf, .lastIndexOf])
      (hn : f.apply args = .ok (.int n)) (h : uint64Max < n) : Oversteps f args

/-- The expression is a call that oversteps for the values of its arguments. -/
def Expr.Oversteps (env : Activation) (e : Expr) : Prop :=
  ∃ f es args, e.call? = some (f, es) ∧ evalAll env es = .ok args ∧ f.Oversteps args

/-- **A call that oversteps gives an integer that does not fit**, for arguments that do. -/
theorem Builtin.Oversteps.not_fitsIn64 {f : Builtin} {args : List Dyn} (h : f.Oversteps args)
    (hargs : ∀ n, .int n ∈ args → FitsIn64 n) : ∃ n, f.apply args = .ok (.int n) ∧ ¬ FitsIn64 n := by
  cases h with
  | @complement n h =>
    refine ⟨Dyn.notInt n, rfl, fun hfits => ?_⟩
    rw [Dyn.notInt_eq, fitsIn64_lnot_iff (hargs n (by simp))] at hfits
    exact absurd h (Int.not_lt.mpr hfits)
  | @exclusive m n h =>
    refine ⟨Dyn.xorInt m n, rfl, fun hfits => ?_⟩
    rw [Dyn.xorInt_eq, fitsIn64_xor_iff (hargs m (by simp)) (hargs n (by simp))] at hfits
    exact hfits h
  | measure _ hn h => exact ⟨_, hn, fun hfits => absurd h (Int.not_lt.mpr hfits.2)⟩

theorem integer_eq_ok {name : String} {v : Dyn} {n : Int} (h : Dyn.integer name v = .ok n) : v = .int n := by
  cases v with
  | int m =>
    cases h
    rfl
  | _ => cases h

theorem bitwise_eq_ok {name : String} {f : Int → Int → Int} {v w : Dyn} {n : Int}
    (h : Dyn.bitwise name f v w = .ok (.int n)) : ∃ a b, v = .int a ∧ w = .int b ∧ n = f a b := by
  obtain ⟨a, ha, h⟩ := exists_of_bind_eq_ok h
  obtain ⟨b, hb, h⟩ := exists_of_bind_eq_ok h
  cases h
  exact ⟨a, b, integer_eq_ok ha, integer_eq_ok hb, rfl⟩

theorem fitsIn64_of_measure {f : Builtin} {args : List Dyn} {n : Int}
    (hf : f ∈ [.size, .indexOf, .lastIndexOf]) (hn : f.apply args = .ok (.int n))
    (h : ¬ f.Oversteps args) : FitsIn64 n := by
  obtain ⟨m, hm, heq⟩ := Hereditary.gives_measure hf args _ hn
  cases heq
  exact ⟨Int.le_trans (by decide) hm, Int.not_lt.mp fun hlt => h (.measure hf hn hlt)⟩

/-- **A call whose integers nothing checks gives one that fits unless it oversteps**, for arguments that fit. -/
theorem fitsIn64_of_isUnchecked {f : Builtin} {args : List Dyn} {n : Int} (hf : f.isUnchecked = true)
    (hargs : ∀ m, .int m ∈ args → FitsIn64 m) (hn : f.apply args = .ok (.int n))
    (h : ¬ f.Oversteps args) : FitsIn64 n := by
  cases f with
  | size | indexOf | lastIndexOf => exact fitsIn64_of_measure (by decide) hn h
  | bitAnd =>
    match args with
    | [v, w] =>
      obtain ⟨a, b, rfl, rfl, rfl⟩ := bitwise_eq_ok hn
      rw [Dyn.landInt_eq]
      exact (hargs a (by simp)).land (hargs b (by simp))
  | bitOr =>
    match args with
    | [v, w] =>
      obtain ⟨a, b, rfl, rfl, rfl⟩ := bitwise_eq_ok hn
      rw [Dyn.lorInt_eq]
      exact (hargs a (by simp)).lor (hargs b (by simp))
  | bitXor =>
    match args with
    | [v, w] =>
      obtain ⟨a, b, rfl, rfl, rfl⟩ := bitwise_eq_ok hn
      rw [Dyn.xorInt_eq, fitsIn64_xor_iff (hargs a (by simp)) (hargs b (by simp))]
      exact fun hexclusive => h (.exclusive hexclusive)
  | bitNot =>
    match args with
    | [v] =>
      obtain ⟨a, ha, hn⟩ := exists_of_bind_eq_ok hn
      cases hn
      obtain rfl := integer_eq_ok ha
      rw [Dyn.notInt_eq, fitsIn64_lnot_iff (hargs a (by simp))]
      exact Int.not_lt.mp fun hlt => h (.complement hlt)
  | _ => cases hf

end LogStream.Filter
