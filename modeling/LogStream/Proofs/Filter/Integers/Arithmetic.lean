import Mathlib
import LogStream.Proofs.Filter.Application
import LogStream.Proofs.Filter.Hereditary.Basic
import LogStream.Proofs.Filter.Visits

/-! # Integer arithmetic

Operators on integers give the exact result, or an overflow where it does not fit in 64 bits
(`Eval.IsExactOrOverflow`). The remainder of a division is the only integer that is nearer to zero than the divisor,
has no other sign than the dividend and leaves a multiple of the divisor (`isRemainder_iff`). It lies between zero and
the dividend, so it always fits (`fitsIn64_tmod`), while the quotient need not (`arithmetic_is_exact`). -/

namespace LogStream.Filter

variable {a b r : Int}

/-! ### Remainders -/

/-- What is left of an integer when it is divided by another one toward zero. -/
structure IsRemainder (a b r : Int) : Prop where
  lt : |r| < |b|
  sign : r = 0 ∨ r.sign = a.sign
  dvd : b ∣ a - r

theorem isRemainder_tmod (hb : b ≠ 0) : IsRemainder a b (a.tmod b) where
  lt := by
    rw [Int.abs_eq_natAbs, Int.abs_eq_natAbs, Int.natAbs_tmod]
    exact Int.ofNat_lt.mpr (Nat.mod_lt _ (Int.natAbs_pos.mpr hb))
  sign := by
    rw [← Int.sign_eq_zero_iff_zero, Int.sign_tmod]
    split
    · exact .inl rfl
    · exact .inr rfl
  dvd := Int.dvd_self_sub_tmod

theorem IsRemainder.nonneg (h : IsRemainder a b r) (ha : 0 ≤ a) : 0 ≤ r := by
  rcases h.sign with rfl | hsign
  · exact le_rfl
  · exact Int.sign_nonneg_iff.mp (hsign ▸ Int.sign_nonneg_iff.mpr ha)

theorem IsRemainder.nonpos (h : IsRemainder a b r) (ha : a ≤ 0) : r ≤ 0 := by
  rcases h.sign with rfl | hsign
  · exact le_rfl
  · exact Int.sign_nonpos_iff.mp (hsign ▸ Int.sign_nonpos_iff.mpr ha)

/-- Two remainders are on one side of zero, so they differ by less than the divisor. -/
theorem IsRemainder.eq {s : Int} (hr : IsRemainder a b r) (hs : IsRemainder a b s) : r = s := by
  have hdvd : |b| ∣ r - s := by
    rw [abs_dvd, ← sub_sub_sub_cancel_left s r a]
    exact Int.dvd_sub hs.dvd hr.dvd
  have hlt : |r - s| < |b| := by
    obtain ⟨hrlow, hrhigh⟩ := abs_lt.mp hr.lt
    obtain ⟨hslow, hshigh⟩ := abs_lt.mp hs.lt
    rw [abs_lt]
    rcases Int.le_total 0 a with ha | ha
    · have hrsign := hr.nonneg ha
      have hssign := hs.nonneg ha
      omega
    · have hrsign := hr.nonpos ha
      have hssign := hs.nonpos ha
      omega
  exact sub_eq_zero.mp (Int.eq_zero_of_abs_lt_dvd hdvd hlt)

/-- **There is one remainder.** -/
theorem isRemainder_iff (hb : b ≠ 0) : IsRemainder a b r ↔ r = a.tmod b := by
  constructor
  · intro h
    exact h.eq (isRemainder_tmod hb)
  · rintro rfl
    exact isRemainder_tmod hb

/-- The remainder lies between zero and the dividend. -/
theorem fitsIn64_tmod (ha : FitsIn64 a) (hb : b ≠ 0) : FitsIn64 (a.tmod b) := by
  have hle : (a.tmod b).natAbs ≤ a.natAbs := by
    rw [Int.natAbs_tmod]
    exact Nat.mod_le _ _
  have hnonneg := (isRemainder_tmod (a := a) hb).nonneg
  have hnonpos := (isRemainder_tmod (a := a) hb).nonpos
  simp only [FitsIn64, int64Min, uint64Max] at ha ⊢
  omega

/-! ### Operators -/

/-- The evaluation gives the integer if it fits in 64 bits, and fails with an overflow if it does not. -/
structure Eval.IsExactOrOverflow (n : Int) (x : Eval Dyn) : Prop where
  value : FitsIn64 n → x = .ok (.int n)
  overflow : ¬ FitsIn64 n → x = Eval.fail .integerOverflow

open Eval (IsExactOrOverflow)

theorem isExactOrOverflow_checked (n : Int) : IsExactOrOverflow n (Dyn.checked n) where
  value h := if_pos h
  overflow h := if_neg h

/-- A call leaves an integer and an overflow as they are. -/
theorem Eval.IsExactOrOverflow.called {n : Int} {x : Eval Dyn} (h : IsExactOrOverflow n x) (function : Text) :
    IsExactOrOverflow n (called function x) where
  value hfits := by
    rw [h.value hfits]
    rfl
  overflow hfits := by
    rw [h.overflow hfits]
    rfl

/-- Operators on the integers of two expressions give the exact results where these fit in 64 bits. -/
structure IsExactArithmetic (env : Activation) (e f : Expr) (a b : Int) : Prop where
  add (pos : Nat) : IsExactOrOverflow (a + b) (eval env (.binary pos .add e f))
  sub (pos : Nat) : IsExactOrOverflow (a - b) (eval env (.binary pos .sub e f))
  mul (pos : Nat) : IsExactOrOverflow (a * b) (eval env (.binary pos .mul e f))
  neg (pos : Nat) : IsExactOrOverflow (-a) (eval env (.unary pos .neg e))
  abs (pos : Nat) : IsExactOrOverflow |a| (eval env (.call pos (Text.lit "math.abs") [e]))
  /-- There is one remainder, which always fits; without it the division comes out even. -/
  divide : b ≠ 0 → ∃ r q, (∀ s, IsRemainder a b s ↔ s = r) ∧ q * b = a - r ∧ ∀ pos,
    eval env (.binary pos .mod e f) = .ok (.int r) ∧ IsExactOrOverflow q (eval env (.binary pos .div e f))
  zero (pos : Nat) : b = 0 → eval env (.binary pos .mod e f) = Eval.fail .modulusByZero ∧
    eval env (.binary pos .div e f) = Eval.fail .divisionByZero

/-- **Integer arithmetic is exact or fails.** -/
theorem arithmetic_is_exact {env : Activation} {e f : Expr} (he : eval env e = .ok (.int a))
    (hf : eval env f = .ok (.int b)) (ha : FitsIn64 a) : IsExactArithmetic env e f a b where
  add pos := by
    rw [eval_operate (by decide) he hf]
    exact isExactOrOverflow_checked _
  sub pos := by
    rw [eval_operate (by decide) he hf]
    exact isExactOrOverflow_checked _
  mul pos := by
    rw [eval_operate (by decide) he hf]
    exact isExactOrOverflow_checked _
  neg pos := by
    rw [eval, he, ok_bind]
    exact isExactOrOverflow_checked _
  abs pos := by
    have hname : Builtin.global? (Text.lit "math.abs") = some .abs := by decide
    rw [eval_global hname (evalAll_cons he evalAll_nil), Int.abs_eq_natAbs]
    exact (isExactOrOverflow_checked _).called _
  divide hzero := by
    have hmod : Dyn.operate .mod (.int a) (.int b) = Dyn.checked (a.tmod b) := if_neg hzero
    have hdiv : Dyn.operate .div (.int a) (.int b) = Dyn.checked (a.tdiv b) := if_neg hzero
    refine ⟨a.tmod b, a.tdiv b, fun s => isRemainder_iff hzero, ?_, fun pos => ⟨?_, ?_⟩⟩
    · exact eq_sub_of_add_eq (Int.tdiv_mul_add_tmod a b)
    · rw [eval_operate (by decide) he hf, hmod]
      exact (isExactOrOverflow_checked _).value (fitsIn64_tmod ha hzero)
    · rw [eval_operate (by decide) he hf, hdiv]
      exact isExactOrOverflow_checked _
  zero pos hzero := by
    rw [eval_operate (by decide) he hf, eval_operate (by decide) he hf]
    exact ⟨if_pos hzero, if_pos hzero⟩

/-- The greatest unsigned integer of 64 bits. -/
def greatestUnsigned : Expr := .literal 0 (.uint 0xFFFFFFFFFFFFFFFF)

/-- It has the remainder of a positive integer, also for a negative divisor, and it cannot be divided by minus one. -/
theorem arithmetic_is_exact_atBounds :
    eval [] (.binary 0 .mod greatestUnsigned (.literal 0 (.int (-2)))) = .ok (.int 1) ∧
    eval [] (.binary 0 .div greatestUnsigned (.literal 0 (.int (-1)))) = Eval.fail .integerOverflow := by
  have hgreatest : eval [] greatestUnsigned = .ok (.int 0xFFFFFFFFFFFFFFFF) := rfl
  obtain ⟨r, q, hr, -, hmod⟩ :=
    (arithmetic_is_exact hgreatest (f := .literal 0 (.int (-2))) rfl (by decide)).divide (by decide)
  obtain ⟨s, p, hs, hp, hdiv⟩ :=
    (arithmetic_is_exact hgreatest (f := .literal 0 (.int (-1))) rfl (by decide)).divide (by decide)
  have hone : 1 = r := (hr 1).mp ⟨by decide, .inr rfl, by decide⟩
  have hnone : 0 = s := (hs 0).mp ⟨by decide, .inl rfl, by decide⟩
  refine ⟨hone ▸ (hmod 0).1, (hdiv 0).2.overflow ?_⟩
  simp only [FitsIn64, int64Min, uint64Max]
  omega

end LogStream.Filter
