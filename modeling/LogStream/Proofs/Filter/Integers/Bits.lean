import Mathlib
import LogStream.Proofs.Filter.Hereditary.Functions

/-! # Bits of integers

The logical operators are those on two's complements without an end (`landInt_eq`, `lorInt_eq`, `xorInt_eq`,
`notInt_eq`), and shifts are those of patterns of 64 bits (`shiftLeft_eq`, `shiftRight_eq`). Of integers of 64
bits, conjunction and disjunction give such ones again; the complement does so just below the unsigned ones
(`fitsIn64_lnot_iff`), and the exclusive disjunction unless a negative integer meets an unsigned one
(`fitsIn64_xor_iff`). -/

namespace LogStream.Filter

/-! ### What the operators are -/

namespace Dyn

theorem xor_and_self (m n : Nat) : m ^^^ (m &&& n) = Nat.ldiff m n := by
  refine Nat.eq_of_testBit_eq fun i => ?_
  rw [Nat.testBit_xor, Nat.testBit_and, Nat.testBit_ldiff]
  cases m.testBit i <;> simp

theorem ldiff_or_and (m n : Nat) : Nat.ldiff (m ||| n) (m &&& n) = m ^^^ n := by
  refine Nat.eq_of_testBit_eq fun i => ?_
  rw [Nat.testBit_ldiff, Nat.testBit_or, Nat.testBit_and, Nat.testBit_xor]
  cases m.testBit i <;> cases n.testBit i <;> rfl

theorem ldiff_or_ldiff (m n : Nat) : Nat.ldiff m n ||| Nat.ldiff n m = m ^^^ n := by
  refine Nat.eq_of_testBit_eq fun i => ?_
  rw [Nat.testBit_or, Nat.testBit_ldiff, Nat.testBit_ldiff, Nat.testBit_xor]
  cases m.testBit i <;> cases n.testBit i <;> rfl

theorem notInt_eq (n : Int) : notInt n = Int.lnot n := by
  cases n with
  | ofNat m =>
    change -(m : Int) - 1 = Int.negSucc m
    omega
  | negSucc m =>
    change -Int.negSucc m - 1 = (m : Int)
    omega

theorem landInt_eq (m n : Int) : landInt m n = Int.land m n := by
  cases m <;> cases n <;> simp [landInt, Int.land, xor_and_self]

theorem lorInt_eq (m n : Int) : lorInt m n = Int.lor m n := by
  unfold lorInt
  simp only [landInt_eq, notInt_eq]
  cases m <;> cases n <;> simp [Int.lor, Int.land, Int.lnot]

theorem xorInt_eq (m n : Int) : xorInt m n = Int.xor m n := by
  unfold xorInt
  simp only [landInt_eq, notInt_eq, lorInt_eq]
  cases m <;> cases n <;>
    simp [Int.lor, Int.land, Int.lnot, Int.xor, ldiff_or_and, ldiff_or_ldiff, Nat.xor_comm]

theorem ofPattern_toNat (x : BitVec 64) : ofPattern x.toNat = x.toInt := by
  rw [BitVec.toInt_eq_toNat_cond, ofPattern]
  have := x.isLt
  split <;> split <;> omega

theorem pattern64_eq (n : Int) : pattern64 n = (BitVec.ofInt 64 n).toNat := by
  rw [BitVec.toNat_ofInt]
  rfl

/-- The places on the left of the pattern are lost, and zeros come in on the right. -/
theorem shiftLeft_eq (n : Int) (k : Nat) :
    ofPattern (pattern64 (n * (Nat.pow 2 k : Nat))) = (BitVec.ofInt 64 n <<< k).toInt := by
  rw [pattern64_eq, ofPattern_toNat, BitVec.ofInt_mul, BitVec.shiftLeft_eq_mul_twoPow]
  congr 2
  rw [BitVec.ofInt_natCast]
  exact BitVec.eq_of_toNat_eq (by simp)

/-- Zeros come in on the left of the pattern. -/
theorem shiftRight_eq (n : Int) (k : Nat) :
    ofPattern (pattern64 n / Nat.pow 2 k) = (BitVec.ofInt 64 n >>> k).toInt := by
  rw [pattern64_eq, ← ofPattern_toNat, BitVec.toNat_ushiftRight, Nat.shiftRight_eq_div_pow]
  rfl

end Dyn

/-! ### Integers of 64 bits -/

theorem fitsIn64_ofNat_iff {m : Nat} : FitsIn64 (Int.ofNat m) ↔ m < 2 ^ 64 := by
  simp only [FitsIn64, int64Min, uint64Max, Int.ofNat_eq_natCast]
  omega

theorem fitsIn64_negSucc_iff {m : Nat} : FitsIn64 (Int.negSucc m) ↔ m < 2 ^ 63 := by
  simp only [FitsIn64, int64Min, uint64Max]
  omega

theorem ldiff_le (m n : Nat) : Nat.ldiff m n ≤ m := by
  refine Nat.le_of_testBit fun i hi => ?_
  rw [Nat.testBit_ldiff, Bool.and_eq_true] at hi
  exact hi.1

variable {m n : Int}

theorem FitsIn64.land (hm : FitsIn64 m) (hn : FitsIn64 n) : FitsIn64 (Int.land m n) := by
  cases m with
  | ofNat a =>
    rw [fitsIn64_ofNat_iff] at hm
    cases n with
    | ofNat b => exact fitsIn64_ofNat_iff.mpr (Nat.and_le_left.trans_lt hm)
    | negSucc b => exact fitsIn64_ofNat_iff.mpr ((ldiff_le a b).trans_lt hm)
  | negSucc a =>
    cases n with
    | ofNat b => exact fitsIn64_ofNat_iff.mpr ((ldiff_le b a).trans_lt (fitsIn64_ofNat_iff.mp hn))
    | negSucc b =>
      rw [fitsIn64_negSucc_iff] at hm hn
      exact fitsIn64_negSucc_iff.mpr (Nat.or_lt_two_pow hm hn)

theorem FitsIn64.lor (hm : FitsIn64 m) (hn : FitsIn64 n) : FitsIn64 (Int.lor m n) := by
  cases m with
  | ofNat a =>
    cases n with
    | ofNat b =>
      rw [fitsIn64_ofNat_iff] at hm hn
      exact fitsIn64_ofNat_iff.mpr (Nat.or_lt_two_pow hm hn)
    | negSucc b =>
      exact fitsIn64_negSucc_iff.mpr ((ldiff_le b a).trans_lt (fitsIn64_negSucc_iff.mp hn))
  | negSucc a =>
    rw [fitsIn64_negSucc_iff] at hm
    cases n with
    | ofNat b => exact fitsIn64_negSucc_iff.mpr ((ldiff_le a b).trans_lt hm)
    | negSucc b => exact fitsIn64_negSucc_iff.mpr (Nat.and_le_left.trans_lt hm)

/-- A number with fewer bits does not change whether there are more bits. -/
theorem xor_lt_two_pow_iff {a b k : Nat} (hb : b < 2 ^ k) : a ^^^ b < 2 ^ k ↔ a < 2 ^ k := by
  refine ⟨fun h => ?_, fun h => Nat.xor_lt_two_pow h hb⟩
  have hback : a ^^^ b ^^^ b = a := by rw [Nat.xor_assoc, Nat.xor_self, Nat.xor_zero]
  exact hback ▸ Nat.xor_lt_two_pow h hb

/-- **The complement of an integer of 64 bits is one, unless the integer is none of the signed ones.** -/
theorem fitsIn64_lnot_iff (hn : FitsIn64 n) : FitsIn64 (Int.lnot n) ↔ n ≤ int64Max := by
  rw [← Dyn.notInt_eq]
  simp only [Dyn.notInt, FitsIn64, int64Min, int64Max, uint64Max] at hn ⊢
  omega

/-- **The exclusive disjunction of integers of 64 bits is one, unless one of them is negative and the other
is none of the signed ones.** -/
theorem fitsIn64_xor_iff (hm : FitsIn64 m) (hn : FitsIn64 n) :
    FitsIn64 (Int.xor m n) ↔ ¬ (m < 0 ∧ int64Max < n ∨ int64Max < m ∧ n < 0) := by
  have hgreat (a : Nat) : int64Max < Int.ofNat a ↔ ¬ a < 2 ^ 63 := by
    simp only [int64Max, Int.ofNat_eq_natCast]
    omega
  have hneg (a : Nat) : Int.negSucc a < 0 := Int.negSucc_lt_zero a
  have hsmall (a : Nat) : ¬ int64Max < Int.negSucc a := by
    simp only [int64Max]
    omega
  cases m with
  | ofNat a =>
    cases n with
    | ofNat b =>
      rw [fitsIn64_ofNat_iff] at hm hn
      exact iff_of_true (fitsIn64_ofNat_iff.mpr (Nat.xor_lt_two_pow hm hn)) (by simp)
    | negSucc b =>
      have hx := xor_lt_two_pow_iff (a := a) (fitsIn64_negSucc_iff.mp hn)
      have hiff : FitsIn64 (Int.xor (Int.ofNat a) (Int.negSucc b)) ↔ a < 2 ^ 63 :=
        fitsIn64_negSucc_iff.trans hx
      rw [hiff, hgreat]
      simp [hneg]
  | negSucc a =>
    rw [fitsIn64_negSucc_iff] at hm
    cases n with
    | ofNat b =>
      have hx := xor_lt_two_pow_iff (a := b) hm
      rw [Nat.xor_comm] at hx
      have hiff : FitsIn64 (Int.xor (Int.negSucc a) (Int.ofNat b)) ↔ b < 2 ^ 63 :=
        fitsIn64_negSucc_iff.trans hx
      rw [hiff, hgreat]
      simp [hneg]
    | negSucc b =>
      rw [fitsIn64_negSucc_iff] at hn
      have hlt : a ^^^ b < 2 ^ 64 := (Nat.xor_lt_two_pow hm hn).trans (by decide)
      exact iff_of_true (fitsIn64_ofNat_iff.mpr hlt) (by simp [hsmall])

end LogStream.Filter
