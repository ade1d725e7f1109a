import Mathlib
import LogStream.Proofs.Number.Exact

/-! # Numbers of the other sign

The negative of a double differs from it in the sign alone (`neg_eq`). So the operators that round the distance
from zero commute with it (`neg_ofUnits`, `mul_neg`, `split_neg`), and numbers that are positive stay so under sums and
products (`IsPositive`). -/

namespace LogStream.Double

variable {x y : Double} {s : Bool} {m num den : Nat}

/-! ### Sign and distance from zero -/

theorem toNat_ofBits (h : m < 0x8000000000000000) :
    (ofBits s m).bits.toNat = (if s then 0x8000000000000000 else 0) + m := by
  unfold ofBits
  rw [UInt64.toNat_ofNat']
  split <;> omega

@[simp] theorem magnitude_ofBits (h : m < 0x8000000000000000) : (ofBits s m).magnitude = m := by
  unfold magnitude
  rw [toNat_ofBits h]
  split <;> omega

@[simp] theorem isNegative_ofBits (h : m < 0x8000000000000000) : (ofBits s m).isNegative = s := by
  unfold isNegative
  rw [toNat_ofBits h]
  cases s with
  | true => simp
  | false => simpa using h

theorem magnitude_lt (x : Double) : x.magnitude < 0x8000000000000000 := Nat.mod_lt _ (by decide)

theorem toNat_bits (x : Double) :
    x.bits.toNat = (if x.isNegative then 0x8000000000000000 else 0) + x.magnitude := by
  have hlt := x.bits.toNat_lt
  unfold isNegative magnitude
  split
  · next h =>
    rw [decide_eq_true_eq] at h
    omega
  · next h =>
    rw [decide_eq_true_eq] at h
    omega

/-- A double is its sign and its bits without the sign. -/
theorem ofBits_magnitude (x : Double) : ofBits x.isNegative x.magnitude = x := by
  obtain ⟨b⟩ := x
  have hbits := toNat_bits ⟨b⟩
  rw [← toNat_ofBits (magnitude_lt _)] at hbits
  exact congrArg Double.mk (UInt64.toNat_inj.mp hbits.symm)

/-- The sign bit is turned over. -/
theorem xor_sign {n : Nat} (h : n < 0x10000000000000000) : n ^^^ 0x8000000000000000 =
    if 0x8000000000000000 ≤ n then n - 0x8000000000000000 else n + 0x8000000000000000 := by
  have hlow : (n ^^^ 2 ^ 63) % 2 ^ 63 = n % 2 ^ 63 := by
    rw [Nat.xor_mod_two_pow, Nat.mod_self, Nat.xor_zero]
  have hhigh : (n ^^^ 2 ^ 63) / 2 ^ 63 = n / 2 ^ 63 ^^^ 1 := by
    rw [Nat.xor_div_two_pow, Nat.div_self (by decide)]
  have hbit : n / 2 ^ 63 = 0 ∧ n / 2 ^ 63 ^^^ 1 = 1 ∨ n / 2 ^ 63 = 1 ∧ n / 2 ^ 63 ^^^ 1 = 0 := by
    rcases (show n / 2 ^ 63 = 0 ∨ n / 2 ^ 63 = 1 by omega) with h0 | h1
    · exact .inl ⟨h0, by rw [h0]; rfl⟩
    · exact .inr ⟨h1, by rw [h1]; rfl⟩
  change n ^^^ 2 ^ 63 = _
  split <;> omega

/-- **The negative of a number differs from it in the sign alone.** -/
theorem neg_eq (x : Double) : x.neg = ofBits (!x.isNegative) x.magnitude := by
  have hlt := x.bits.toNat_lt
  have hbits : x.neg.bits.toNat = (ofBits (!x.isNegative) x.magnitude).bits.toNat := by
    change x.bits.toNat ^^^ 0x8000000000000000 = _
    rw [xor_sign hlt, toNat_ofBits (magnitude_lt x)]
    have hx := toNat_bits x
    have hm := magnitude_lt x
    cases h : x.isNegative with
    | true =>
      rw [h, if_pos rfl] at hx
      rw [if_pos (by omega), Bool.not_true, if_neg Bool.false_ne_true]
      omega
    | false =>
      rw [h, if_neg Bool.false_ne_true] at hx
      rw [if_neg (by omega), Bool.not_false, if_pos rfl]
      omega
  exact congrArg Double.mk (UInt64.toNat_inj.mp hbits)

@[simp] theorem magnitude_neg (x : Double) : x.neg.magnitude = x.magnitude := by
  rw [neg_eq, magnitude_ofBits (magnitude_lt x)]

@[simp] theorem isNegative_neg (x : Double) : x.neg.isNegative = !x.isNegative := by
  rw [neg_eq, isNegative_ofBits (magnitude_lt x)]

theorem neg_ofBits (h : m < 0x8000000000000000) : (ofBits s m).neg = ofBits (!s) m := by
  rw [neg_eq, magnitude_ofBits h, isNegative_ofBits h]

@[simp] theorem isNaN_neg (x : Double) : x.neg.isNaN = x.isNaN := by
  unfold isNaN
  rw [magnitude_neg]

@[simp] theorem isInfinite_neg (x : Double) : x.neg.isInfinite = x.isInfinite := by
  unfold isInfinite
  rw [magnitude_neg]

@[simp] theorem isFinite_neg (x : Double) : x.neg.isFinite = x.isFinite := by
  unfold isFinite
  rw [magnitude_neg]

@[simp] theorem isZero_neg (x : Double) : x.neg.isZero = x.isZero := by
  unfold isZero
  rw [magnitude_neg]

@[simp] theorem absUnits_neg (x : Double) : x.neg.absUnits = x.absUnits := by
  unfold absUnits
  rw [magnitude_neg]

@[simp] theorem units_neg (x : Double) : x.neg.units = -x.units := by
  unfold units
  rw [isNegative_neg, absUnits_neg]
  cases x.isNegative <;> simp

@[simp] theorem truncate_neg (x : Double) : x.neg.truncate = -x.truncate := by
  unfold truncate
  rw [isNegative_neg, absUnits_neg]
  generalize x.absUnits / one = q
  cases x.isNegative <;> simp

/-! ### Rounding -/

theorem infiniteBits_lt : infiniteBits < 0x8000000000000000 := by decide

/-- What is rounded is finite or infinite. -/
theorem exists_ofUnits (num den : Nat) : ∃ m ≤ infiniteBits, ∀ s, ofUnits s num den = ofBits s m := by
  by_cases h : infiniteBits ≤ (Nat.log2 (num / den) - 52) * 0x10000000000000 +
      divHalfEven num (den * Nat.pow 2 (Nat.log2 (num / den) - 52))
  · exact ⟨infiniteBits, Nat.le_refl _, fun s => if_pos h⟩
  · exact ⟨_, Nat.le_of_lt (Nat.lt_of_not_le h), fun s => if_neg h⟩

theorem neg_ofUnits (s : Bool) (num den : Nat) : (ofUnits s num den).neg = ofUnits (!s) num den := by
  obtain ⟨m, hm, hofBits⟩ := exists_ofUnits num den
  have hlt := infiniteBits_lt
  rw [hofBits, hofBits, neg_ofBits (by omega)]

@[simp] theorem isNaN_ofUnits (s : Bool) (num den : Nat) : (ofUnits s num den).isNaN = false := by
  obtain ⟨m, hm, hofBits⟩ := exists_ofUnits num den
  have hlt := infiniteBits_lt
  rw [hofBits, isNaN, magnitude_ofBits (by omega)]
  exact decide_eq_false (by omega)

@[simp] theorem isNegative_ofUnits (s : Bool) (num den : Nat) : (ofUnits s num den).isNegative = s := by
  obtain ⟨m, hm, hofBits⟩ := exists_ofUnits num den
  have hlt := infiniteBits_lt
  rw [hofBits, isNegative_ofBits (by omega)]

/-- The whole part and the rest have the sign of the number. -/
theorem split_neg (x : Double) : x.neg.split = (x.split.1.neg, x.split.2.neg) := by
  unfold split
  rw [isNegative_neg, absUnits_neg, neg_ofUnits, neg_ofUnits]

/-- A product with a finite number that is not zero is rounded once. -/
theorem exists_mul (hx : x.isFinite = true) (hzero : x.isZero = false) (hy : y.isNaN = false) :
    ∃ m ≤ infiniteBits, x.mul y = ofBits (x.isNegative != y.isNegative) m ∧
      x.mul y.neg = ofBits (x.isNegative != !y.isNegative) m := by
  have hnan : x.isNaN = false := decide_eq_false (Nat.not_lt.mpr (Nat.le_of_lt (of_decide_eq_true hx)))
  have hinf : x.isInfinite = false := beq_false_of_ne (Nat.ne_of_lt (of_decide_eq_true hx))
  unfold mul
  simp only [isNegative_neg, isNaN_neg, isInfinite_neg, isZero_neg, absUnits_neg, hnan, hinf, hzero, hy,
    Bool.false_or, Bool.false_eq_true, if_false]
  by_cases hyinf : y.isInfinite = true
  · have hyzero : y.isZero = false := beq_false_of_ne (by rw [beq_iff_eq.mp hyinf]; decide)
    rw [hyinf, hyzero]
    exact ⟨infiniteBits, Nat.le_refl _, rfl, rfl⟩
  · rw [if_neg hyinf, if_neg hyinf]
    by_cases hyzero : y.isZero = true
    · rw [if_pos hyzero, if_pos hyzero]
      exact ⟨0, Nat.zero_le _, rfl, rfl⟩
    · rw [if_neg hyzero, if_neg hyzero]
      obtain ⟨m, hm, hofBits⟩ := exists_ofUnits (x.absUnits * y.absUnits) one
      exact ⟨m, hm, hofBits _, hofBits _⟩

/-- A product with a number of the other sign has the other sign. -/
theorem mul_neg (hx : x.isFinite = true) (hzero : x.isZero = false) (hy : y.isNaN = false) :
    x.mul y.neg = (x.mul y).neg := by
  obtain ⟨m, hm, hmul, hneg⟩ := exists_mul hx hzero hy
  have hlt := infiniteBits_lt
  rw [hmul, hneg, neg_ofBits (by omega)]
  cases x.isNegative <;> cases y.isNegative <;> rfl

theorem isNegative_mul (hx : x.isFinite = true) (hzero : x.isZero = false) (hy : y.isNaN = false) :
    (x.mul y).isNegative = (x.isNegative != y.isNegative) := by
  obtain ⟨m, hm, hmul, -⟩ := exists_mul hx hzero hy
  have hlt := infiniteBits_lt
  rw [hmul, isNegative_ofBits (by omega)]

/-! ### Numbers that are not negative -/

/-- A number that is not negative, be it infinite. -/
structure IsPositive (x : Double) : Prop where
  isNaN : x.isNaN = false
  isNegative : x.isNegative = false

theorem isPositive_ofUnits (num den : Nat) : IsPositive (ofUnits false num den) := ⟨by simp, by simp⟩

theorem isPositive_ofBits (h : m ≤ infiniteBits) : IsPositive (ofBits false m) := by
  have hlt := infiniteBits_lt
  refine ⟨?_, isNegative_ofBits (by omega)⟩
  rw [Double.isNaN, magnitude_ofBits (by omega)]
  exact decide_eq_false (by omega)

/-- Sums of numbers that are not negative are none. -/
theorem IsPositive.add (hx : IsPositive x) (hy : IsPositive y) : IsPositive (x.add y) := by
  have hxunits : 0 ≤ x.units := by simp [units, hx.isNegative]
  have hyunits : 0 ≤ y.units := by simp [units, hy.isNegative]
  unfold Double.add
  simp only [hx.isNaN, hy.isNaN, hx.isNegative, hy.isNegative, bne_self_eq_false, Bool.and_false,
    Bool.and_self, Bool.false_eq_true, if_false]
  split
  · exact hx
  · split
    · exact hy
    · unfold ofUnitSum
      split
      · exact isPositive_ofBits (Nat.zero_le _)
      · rw [decide_eq_false (by omega)]
        exact isPositive_ofUnits _ _

/-- A product with a finite number above zero. -/
theorem IsPositive.mul (hx : IsPositive x) (hy : IsPositive y) (hfinite : y.isInfinite = false)
    (hzero : y.isZero = false) : IsPositive (x.mul y) := by
  have hxzero : x.isInfinite = true → x.isZero = false := fun h =>
    beq_false_of_ne (by rw [beq_iff_eq.mp h]; decide)
  unfold Double.mul
  simp only [hx.isNaN, hy.isNaN, hx.isNegative, hy.isNegative, hfinite, hzero, bne_self_eq_false,
    Bool.or_false, Bool.false_eq_true, if_false]
  split
  · next h =>
    rw [hxzero h]
    exact isPositive_ofBits (Nat.le_refl _)
  · split
    · exact isPositive_ofBits (Nat.zero_le _)
    · exact isPositive_ofUnits _ _

end LogStream.Double
