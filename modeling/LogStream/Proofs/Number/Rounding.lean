import Mathlib
import LogStream.Proofs.Number.Reading
import LogStream.Proofs.Number.Sign

/-! # Rounding to doubles

A quotient is rounded to a whole number that is at most a half away (`abs_divHalfEven_sub_le`). The nearest double to
a quotient depends on the quotient alone (`ofRatio_eq_ofRatio`); in units it is off by at most one part in `2 ^ 53`
(`abs_unitsAt_nearestBits_sub_le`), and a double is the nearest to itself (`ofUnits_absUnits`). -/

namespace LogStream.Double

variable {x y : Double} {s : Bool} {num den : Nat}

/-! ### Whole numbers -/

theorem divHalfEven_bounds (num : Nat) (hden : 0 < den) :
    2 * (divHalfEven num den * den) ≤ 2 * num + den ∧ 2 * num ≤ 2 * (divHalfEven num den * den) + den := by
  have hdiv := Nat.div_add_mod num den
  have hlt := Nat.mod_lt num hden
  have hsucc : (num / den + 1) * den = den * (num / den) + den := by rw [Nat.add_mul, Nat.one_mul, Nat.mul_comm]
  have hcomm : num / den * den = den * (num / den) := Nat.mul_comm _ _
  unfold divHalfEven
  dsimp only
  split
  · omega
  · split
    · omega
    · rw [Nat.add_mul]
      rcases Nat.mod_two_eq_zero_or_one (num / den) with h | h
      · rw [h, Nat.zero_mul]
        omega
      · rw [h, Nat.one_mul]
        omega

/-- **A quotient is rounded by a half at most.** -/
theorem abs_divHalfEven_sub_le (num : Nat) (hden : 0 < den) : |(divHalfEven num den : ℚ) - num / den| ≤ 1 / 2 := by
  obtain ⟨hle, hge⟩ := divHalfEven_bounds num hden
  have hpos : (0 : ℚ) < den := by exact_mod_cast hden
  have hle' : 2 * ((divHalfEven num den : ℚ) * den) ≤ 2 * num + den := by exact_mod_cast hle
  have hge' : 2 * (num : ℚ) ≤ 2 * (divHalfEven num den * den) + den := by exact_mod_cast hge
  have hcancel : (num : ℚ) / den * den = num := div_mul_cancel₀ _ hpos.ne'
  rw [abs_le]
  constructor
  · refine le_of_mul_le_mul_right ?_ hpos
    linarith
  · refine le_of_mul_le_mul_right ?_ hpos
    linarith

/-- The whole number that is less than a half away. -/
theorem divHalfEven_eq_of_abs_lt {n : Nat} (hden : 0 < den) (h : |(num : ℚ) / den - n| < 1 / 2) :
    divHalfEven num den = n := by
  have hround := abs_divHalfEven_sub_le num hden
  have hclose : |((divHalfEven num den : ℤ) : ℚ) - ((n : ℤ) : ℚ)| < 1 := by
    calc |((divHalfEven num den : ℤ) : ℚ) - ((n : ℤ) : ℚ)|
        = |((divHalfEven num den : ℚ) - num / den) + (num / den - n)| := by push_cast; ring_nf
      _ ≤ |(divHalfEven num den : ℚ) - num / den| + |(num : ℚ) / den - n| := abs_add_le _ _
      _ < 1 := by linarith
  have hint : |(divHalfEven num den : ℤ) - n| < 1 := by exact_mod_cast hclose
  have hzero := Int.abs_lt_one_iff.mp hint
  omega

theorem divHalfEven_mul_right {k : Nat} (hk : 0 < k) : divHalfEven (num * k) (den * k) = divHalfEven num den := by
  have hlow : 2 * (num % den * k) < den * k ↔ 2 * (num % den) < den := by
    rw [← Nat.mul_assoc]
    exact Nat.mul_lt_mul_right hk
  have hhigh : den * k < 2 * (num % den * k) ↔ den < 2 * (num % den) := by
    rw [← Nat.mul_assoc]
    exact Nat.mul_lt_mul_right hk
  unfold divHalfEven
  rw [Nat.mul_div_mul_right _ _ hk, Nat.mul_mod_mul_right]
  simp only [hlow, hhigh]

/-- A whole quotient is left as it is. -/
theorem divHalfEven_mul_self (n : Nat) (hden : 0 < den) : divHalfEven (n * den) den = n := by
  refine divHalfEven_eq_of_abs_lt hden ?_
  have hpos : (den : ℚ) ≠ 0 := by exact_mod_cast hden.ne'
  rw [Nat.cast_mul, mul_div_assoc, div_self hpos, mul_one, sub_self, abs_zero]
  norm_num

/-! ### The nearest double -/

/-- The exponent of the lowest digit that the nearest double to a quotient keeps. -/
def scale (num den : Nat) : Nat := Nat.log2 (num / den) - 52

/-- The bits without the sign of the nearest double to a quotient, as if there were no greatest double. -/
def nearestBits (num den : Nat) : Nat :=
  scale num den * 0x10000000000000 + divHalfEven num (den * 2 ^ scale num den)

theorem ofUnits_eq (s : Bool) (num den : Nat) : ofUnits s num den =
    if infiniteBits ≤ nearestBits num den then infinity s else ofBits s (nearestBits num den) := rfl

theorem nearestBits_mul_right {k : Nat} (hk : 0 < k) : nearestBits (num * k) (den * k) = nearestBits num den := by
  have hscale : scale (num * k) (den * k) = scale num den := by
    unfold scale
    rw [Nat.mul_div_mul_right _ _ hk]
  unfold nearestBits
  rw [hscale, Nat.mul_right_comm, divHalfEven_mul_right hk]

theorem ofUnits_mul_right (s : Bool) (num den : Nat) {k : Nat} (hk : 0 < k) :
    ofUnits s (num * k) (den * k) = ofUnits s num den := by
  rw [ofUnits_eq, ofUnits_eq, nearestBits_mul_right hk]

/-- **The nearest double to a quotient depends on the quotient alone.** -/
theorem ofRatio_eq_ofRatio {num' den' : Nat} (hden : 0 < den) (hden' : 0 < den') (h : num * den' = num' * den) :
    ofRatio s num den = ofRatio s num' den' := by
  unfold ofRatio
  rw [← ofUnits_mul_right s (num * one) den hden', ← ofUnits_mul_right s (num' * one) den' hden,
    Nat.mul_right_comm, h, Nat.mul_right_comm, Nat.mul_comm den]

/-- The range of the quotient at a scale. -/
theorem scale_bounds (num den : Nat) : num / den < 2 ^ (53 + scale num den) ∧
    (scale num den = 0 ∨ 2 ^ (52 + scale num den) ≤ num / den) := by
  have hlt := Nat.lt_log2_self (n := num / den)
  unfold scale
  by_cases h : Nat.log2 (num / den) ≤ 52
  · rw [Nat.sub_eq_zero_of_le h]
    exact ⟨Nat.lt_of_lt_of_le hlt (Nat.pow_le_pow_right (by decide) (by omega)), .inl rfl⟩
  · have hne : num / den ≠ 0 := fun hzero => h (by rw [hzero]; decide)
    refine ⟨by rwa [show 53 + (Nat.log2 (num / den) - 52) = Nat.log2 (num / den) + 1 by omega], .inr ?_⟩
    rw [Nat.add_sub_cancel' (by omega)]
    exact Nat.log2_self_le hne

/-- The digits that the nearest double keeps. -/
theorem divHalfEven_scale_bounds (num : Nat) (hden : 0 < den) :
    divHalfEven num (den * 2 ^ scale num den) ≤ 2 ^ 53 ∧
      (scale num den = 0 ∨ 2 ^ 52 ≤ divHalfEven num (den * 2 ^ scale num den)) := by
  obtain ⟨hhigh, hlow⟩ := scale_bounds num den
  generalize scale num den = k at hhigh hlow ⊢
  have hpos : 0 < den * 2 ^ k := Nat.mul_pos hden (Nat.two_pow_pos k)
  have hle (n : Nat) : n ≤ num / (den * 2 ^ k) ↔ n * 2 ^ k ≤ num / den := by
    rw [← Nat.div_div_eq_div_mul, Nat.le_div_iff_mul_le (Nat.two_pow_pos k)]
  have hround : num / (den * 2 ^ k) ≤ divHalfEven num (den * 2 ^ k) ∧
      divHalfEven num (den * 2 ^ k) ≤ num / (den * 2 ^ k) + 1 := by
    unfold divHalfEven
    dsimp only
    split
    · omega
    · split <;> omega
  constructor
  · have hlt : num / (den * 2 ^ k) < 2 ^ 53 := by
      rw [← Nat.not_le, hle, ← Nat.pow_add]
      omega
    omega
  · refine hlow.imp_right fun h => Nat.le_trans ?_ hround.1
    rwa [hle, ← Nat.pow_add]

/-- The units of bits that are put together from an exponent and digits. -/
theorem unitsAt_add {k r : Nat} (hr : r ≤ 2 ^ 53) (h : k = 0 ∨ 2 ^ 52 ≤ r) :
    unitsAt (k * 0x10000000000000 + r) = r * 2 ^ k := by
  unfold unitsAt
  by_cases hlow : r < 2 ^ 52
  · obtain rfl : k = 0 := h.resolve_right (by omega)
    rw [if_pos (by omega)]
    omega
  · by_cases hfull : r = 2 ^ 53
    · have hexponent : (k * 0x10000000000000 + r) / 0x10000000000000 = k + 2 := by omega
      have hfraction : (k * 0x10000000000000 + r) % 0x10000000000000 = 0 := by omega
      rw [hexponent, hfraction, if_neg (by omega), hfull, show k + 2 - 1 = k + 1 by omega, Nat.pow_succ]
      omega
    · have hexponent : (k * 0x10000000000000 + r) / 0x10000000000000 = k + 1 := by omega
      have hfraction : (k * 0x10000000000000 + r) % 0x10000000000000 = r - 0x10000000000000 := by omega
      rw [hexponent, hfraction, if_neg (by omega), Nat.add_sub_cancel, Nat.add_sub_cancel' (by omega)]

theorem unitsAt_nearestBits (hden : 0 < den) : unitsAt (nearestBits num den) =
    divHalfEven num (den * 2 ^ scale num den) * 2 ^ scale num den := by
  obtain ⟨hr, h⟩ := divHalfEven_scale_bounds num hden
  exact unitsAt_add hr h

/-- **The nearest double is off by at most one part in `2 ^ 53`**, if it keeps all its digits. -/
theorem abs_unitsAt_nearestBits_sub_le (hden : 0 < den) (h : 2 ^ 52 ≤ num / den) :
    |(unitsAt (nearestBits num den) : ℚ) - num / den| ≤ num / den / 2 ^ 53 := by
  have hlow : 2 ^ (52 + scale num den) ≤ num / den := by
    rcases (scale_bounds num den).2 with hzero | hlow
    · rwa [hzero]
    · exact hlow
  have hround := abs_divHalfEven_sub_le num (Nat.mul_pos hden (Nat.two_pow_pos (scale num den)))
  rw [unitsAt_nearestBits hden]
  generalize scale num den = k at hlow hround ⊢
  generalize divHalfEven num (den * 2 ^ k) = r at hround ⊢
  have hpow : (0 : ℚ) < 2 ^ k := by positivity
  have hlow' : (2 : ℚ) ^ 52 * 2 ^ k ≤ num / den := by
    rw [← pow_add, le_div_iff₀ (by exact_mod_cast hden)]
    exact_mod_cast (Nat.le_div_iff_mul_le hden).mp hlow
  have hsplit : ((r * 2 ^ k : ℕ) : ℚ) - num / den = (r - num / (den * 2 ^ k : ℕ)) * 2 ^ k := by
    push_cast
    field_simp
  rw [hsplit, abs_mul, abs_of_pos hpow]
  calc |(r : ℚ) - num / (den * 2 ^ k : ℕ)| * 2 ^ k ≤ 1 / 2 * 2 ^ k :=
        mul_le_mul_of_nonneg_right hround hpow.le
    _ ≤ num / den / 2 ^ 53 := by
        rw [le_div_iff₀ (by positivity)]
        linarith

/-! ### Doubles that are their own nearest -/

/-- A number of units with up to 53 binary digits in front of zeros. -/
def IsScaled (n : Nat) : Prop := ∃ f < 2 ^ 53, ∃ k, n = f * 2 ^ k

/-- Up to 53 binary digits are kept. -/
theorem IsScaled.unitsAt_nearestBits {n : Nat} (h : IsScaled n) : unitsAt (nearestBits n 1) = n := by
  obtain ⟨f, hf, k, rfl⟩ := h
  have hscale : scale (f * 2 ^ k) 1 ≤ k := by
    rcases (scale_bounds (f * 2 ^ k) 1).2 with hzero | hlow
    · omega
    · rw [Nat.div_one] at hlow
      have hlt : 2 ^ (52 + scale (f * 2 ^ k) 1) < 2 ^ (53 + k) := by
        refine Nat.lt_of_le_of_lt hlow ?_
        rw [Nat.pow_add]
        exact Nat.mul_lt_mul_of_pos_right hf (Nat.two_pow_pos k)
      have hexponent := (Nat.pow_lt_pow_iff_right (by decide)).mp hlt
      omega
  rw [Double.unitsAt_nearestBits Nat.one_pos]
  generalize scale (f * 2 ^ k) 1 = j at hscale ⊢
  have hsplit : f * 2 ^ k = f * 2 ^ (k - j) * 2 ^ j := by
    rw [Nat.mul_assoc, ← Nat.pow_add, Nat.sub_add_cancel hscale]
  rw [hsplit, Nat.one_mul, divHalfEven_mul_self _ (Nat.two_pow_pos j)]

theorem isScaled_unitsAt (m : Nat) : IsScaled (unitsAt m) := by
  unfold unitsAt
  split
  · exact ⟨m % 0x10000000000000, by omega, 0, by rw [Nat.pow_zero, Nat.mul_one]⟩
  · exact ⟨_, by omega, _, rfl⟩

theorem unitsAt_strictMono : StrictMono unitsAt := strictMono_nat_of_lt_succ unitsAt_lt_succ

@[simp] theorem nearestBits_unitsAt (m : Nat) : nearestBits (unitsAt m) 1 = m :=
  unitsAt_strictMono.injective (isScaled_unitsAt m).unitsAt_nearestBits

theorem magnitude_lt_of_isFinite (h : x.isFinite = true) : x.magnitude < infiniteBits := of_decide_eq_true h

/-- **A double is the nearest to itself.** -/
theorem ofUnits_absUnits (h : x.isFinite = true) : ofUnits s x.absUnits 1 = ofBits s x.magnitude := by
  have hbits : nearestBits x.absUnits 1 = x.magnitude := nearestBits_unitsAt x.magnitude
  have hlt := magnitude_lt_of_isFinite h
  rw [ofUnits_eq, hbits, if_neg (by omega)]

/-- What is rounded is finite if it is not too great. -/
theorem finite_ofUnits (h : nearestBits num den < infiniteBits) :
    (ofUnits s num den).isFinite = true ∧ (ofUnits s num den).absUnits = unitsAt (nearestBits num den) := by
  have hlt := infiniteBits_lt
  have hmagnitude : (ofUnits s num den).magnitude = nearestBits num den := by
    rw [ofUnits_eq, if_neg (by omega), magnitude_ofBits (by omega)]
  constructor
  · exact decide_eq_true (hmagnitude ▸ h)
  · exact congrArg unitsAt hmagnitude

theorem nearestBits_lt (hden : 0 < den) (h : num / den < 2 ^ 2097) : nearestBits num den < infiniteBits := by
  have hscale : scale num den < 2045 := by
    rcases (scale_bounds num den).2 with hzero | hlow
    · omega
    · have hexponent := (Nat.pow_lt_pow_iff_right (by decide)).mp (Nat.lt_of_le_of_lt hlow h)
      omega
  have hdigits := (divHalfEven_scale_bounds num hden).1
  unfold nearestBits infiniteBits
  omega

/-- A number of units that is not greater than that of a double is kept if it has no more digits. -/
theorem absUnits_ofUnits_of_le {n : Nat} (h : IsScaled n) (hx : x.isFinite = true) (hle : n ≤ x.absUnits) :
    (ofUnits s n 1).isFinite = true ∧ (ofUnits s n 1).absUnits = n := by
  have hunits := h.unitsAt_nearestBits
  have hbits : nearestBits n 1 ≤ x.magnitude := by
    refine unitsAt_strictMono.le_iff_le.mp ?_
    rw [hunits]
    exact hle
  have hlt := magnitude_lt_of_isFinite hx
  obtain ⟨hfinite, habs⟩ := finite_ofUnits (s := s) (Nat.lt_of_le_of_lt hbits hlt)
  exact ⟨hfinite, habs.trans hunits⟩

/-! ### Whole part and rest -/

theorem IsScaled.mod {n : Nat} (h : IsScaled n) (p : Nat) : IsScaled (n % 2 ^ p) := by
  obtain ⟨f, hf, k, rfl⟩ := h
  by_cases hk : p ≤ k
  · have hdvd : 2 ^ p ∣ f * 2 ^ k := Dvd.dvd.mul_left (Nat.pow_dvd_pow 2 hk) f
    exact ⟨0, by decide, 0, by rw [Nat.mod_eq_zero_of_dvd hdvd, Nat.zero_mul]⟩
  · have hsplit : 2 ^ p = 2 ^ (p - k) * 2 ^ k := by rw [← Nat.pow_add, Nat.sub_add_cancel (by omega)]
    refine ⟨f % 2 ^ (p - k), Nat.lt_of_le_of_lt (Nat.mod_le _ _) hf, k, ?_⟩
    rw [hsplit, Nat.mul_mod_mul_right]

theorem IsScaled.div_mul {n : Nat} (h : IsScaled n) (p : Nat) : IsScaled (n / 2 ^ p * 2 ^ p) := by
  obtain ⟨f, hf, k, rfl⟩ := h
  by_cases hk : p ≤ k
  · have hdvd : 2 ^ p ∣ f * 2 ^ k := Dvd.dvd.mul_left (Nat.pow_dvd_pow 2 hk) f
    exact ⟨f, hf, k, Nat.div_mul_cancel hdvd⟩
  · have hsplit : 2 ^ p = 2 ^ (p - k) * 2 ^ k := by rw [← Nat.pow_add, Nat.sub_add_cancel (by omega)]
    refine ⟨f / 2 ^ (p - k), Nat.lt_of_le_of_lt (Nat.div_le_self _ _) hf, p, ?_⟩
    rw [hsplit, Nat.mul_div_mul_right _ _ (Nat.two_pow_pos k)]

theorem exists_one_eq : ∃ p, one = 2 ^ p := by
  unfold one
  generalize 1074 = p
  exact ⟨p, rfl⟩

/-- **The whole part and the rest of a finite double are exact.** -/
theorem absUnits_split (h : x.isFinite = true) : x.split.1.absUnits = x.absUnits / one * one ∧
    x.split.2.isFinite = true ∧ x.split.2.absUnits = x.absUnits % one := by
  obtain ⟨p, hp⟩ := exists_one_eq
  have hscaled : IsScaled x.absUnits := isScaled_unitsAt x.magnitude
  have hwhole := absUnits_ofUnits_of_le (s := x.isNegative) (hscaled.div_mul p) h (Nat.div_mul_le_self _ _)
  have hrest := absUnits_ofUnits_of_le (s := x.isNegative) (hscaled.mod p) h (Nat.mod_le _ _)
  unfold split
  rw [hp]
  dsimp only
  exact ⟨hwhole.2, hrest⟩

/-! ### Sums and products that are exact -/

theorem absUnits_ofInt_one : (ofInt 1).isFinite = true ∧ (ofInt 1).absUnits = one ∧
    (ofInt 1).isNegative = false := by decide +kernel

theorem not_of_isFinite (h : x.isFinite = true) : x.isNaN = false ∧ x.isInfinite = false := by
  have hlt := magnitude_lt_of_isFinite h
  exact ⟨decide_eq_false (by omega), beq_false_of_ne (by omega)⟩

/-- A product of finite numbers is rounded once. -/
theorem mul_eq (hx : x.isFinite = true) (hy : y.isFinite = true) :
    x.mul y = ofUnits (x.isNegative != y.isNegative) (x.absUnits * y.absUnits) one := by
  obtain ⟨hxnan, hxinfinite⟩ := not_of_isFinite hx
  obtain ⟨hynan, hyinfinite⟩ := not_of_isFinite hy
  have hzero {z : Double} (hz : z.isZero = true) : z.absUnits = 0 := absUnits_eq_zero_iff.mpr (beq_iff_eq.mp hz)
  unfold mul
  simp only [hxnan, hxinfinite, hynan, hyinfinite, Bool.or_self, Bool.false_eq_true, if_false]
  split
  · next h =>
    rcases Bool.or_eq_true_iff.mp h with h | h
    · rw [hzero h, Nat.zero_mul, ofUnits_zero]
    · rw [hzero h, Nat.mul_zero, ofUnits_zero]
  · rfl

/-- A product with one. -/
theorem mul_ofInt_one (h : x.isFinite = true) : x.mul (ofInt 1) = x := by
  obtain ⟨hfinite, hone, hnegative⟩ := absUnits_ofInt_one
  have hcancel := ofUnits_mul_right x.isNegative x.absUnits 1 one_pos
  rw [Nat.one_mul] at hcancel
  rw [mul_eq h hfinite, hone, hnegative, Bool.bne_false, hcancel, ofUnits_absUnits h, ofBits_magnitude]

/-- A sum with zero. -/
theorem zero_add (h : x.isFinite = true) (hx : x.isNegative = false) : (zero false).add x = x := by
  obtain ⟨hxnan, hxinfinite⟩ := not_of_isFinite h
  have hzero : (zero false).isNaN = false ∧ (zero false).isInfinite = false ∧ (zero false).isNegative = false ∧
      (zero false).units = 0 := by decide +kernel
  obtain ⟨hnan, hinfinite, hnegative, hunits⟩ := hzero
  have hxunits : x.units = x.absUnits := by rw [units, hx, if_neg Bool.false_ne_true]
  have hbits := ofBits_magnitude x
  rw [hx] at hbits
  unfold add ofUnitSum
  simp only [hnan, hinfinite, hnegative, hunits, hxnan, hxinfinite, hxunits, Bool.false_and, Bool.false_eq_true,
    if_false, Int.zero_add]
  split
  · next hxzero =>
    have hmagnitude := absUnits_eq_zero_iff.mp (Int.natCast_eq_zero.mp hxzero)
    rw [zero, ← hmagnitude, hbits]
  · rw [decide_eq_false (by omega), Int.natAbs_natCast, ofUnits_absUnits h, hbits]

/-! ### Distances from zero -/

/-- The distance from zero of a finite double. -/
def absValue (x : Double) : ℚ := x.absUnits / one

/-- A whole number of units is off by at most one part in `2 ^ 53`. -/
theorem abs_unitsAt_nearestBits_one_sub_le (n : Nat) : |(unitsAt (nearestBits n 1) : ℚ) - n| ≤ n / 2 ^ 53 := by
  by_cases h : n < 2 ^ 52
  · have hscaled : IsScaled n := ⟨n, by omega, 0, by rw [Nat.pow_zero, Nat.mul_one]⟩
    rw [hscaled.unitsAt_nearestBits, sub_self, abs_zero]
    positivity
  · have hround := abs_unitsAt_nearestBits_sub_le Nat.one_pos (show 2 ^ 52 ≤ n / 1 by omega)
    rwa [Nat.cast_one, div_one] at hround

/-- **The nearest double to a quotient is off by at most one part in `2 ^ 53`**, if the quotient is neither too small nor
too great. -/
theorem abs_absValue_ofRatio_sub_le (hden : 0 < den) (hlow : 2 ^ 52 * den ≤ num * one)
    (hhigh : num * one < 2 ^ 2097 * den) :
    (ofRatio s num den).isFinite = true ∧ |(ofRatio s num den).absValue - num / den| ≤ num / den / 2 ^ 53 := by
  obtain ⟨hfinite, hunits⟩ := finite_ofUnits (s := s) (nearestBits_lt hden ((Nat.div_lt_iff_lt_mul hden).mpr hhigh))
  have hround := abs_unitsAt_nearestBits_sub_le hden ((Nat.le_div_iff_mul_le hden).mpr hlow)
  have hone : (0 : ℚ) < one := by exact_mod_cast one_pos
  refine ⟨hfinite, ?_⟩
  unfold absValue ofRatio
  rw [hunits]
  generalize unitsAt (nearestBits (num * one) den) = u at hround ⊢
  push_cast at hround
  have hscaled := div_le_div_of_nonneg_right hround hone.le
  rw [← abs_of_pos hone, ← abs_div, abs_of_pos hone, sub_div, mul_div_right_comm, mul_div_cancel_right₀ _ hone.ne',
    div_right_comm, mul_div_cancel_right₀ _ hone.ne'] at hscaled
  exact hscaled

end LogStream.Double
