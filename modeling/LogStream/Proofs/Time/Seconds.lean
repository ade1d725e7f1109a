import Mathlib
import LogStream.Proofs.Number.Rounding
import LogStream.Time.Basic

/-! # Microseconds of a number of seconds

The microseconds of a negative number of seconds are those of the positive one with the other sign
(`microsOfSeconds_neg`), and so is the duration, unless it is out of range (`ofSeconds?_neg_eq_some_iff`). A number of
seconds that is the nearest to a whole number of microseconds is rounded to it (`microsOfSeconds_of_close`). -/

namespace LogStream.Duration

open Double (IsPositive)

variable {x : Double} {d : Duration}

theorem roundHalfEven_neg (num : Int) (den : Nat) : roundHalfEven (-num) den = -roundHalfEven num den := by
  unfold roundHalfEven
  rw [Int.natAbs_neg]
  rcases lt_trichotomy num 0 with h | rfl | h
  · simp only [if_neg (show ¬ -num < 0 by omega), if_pos h, Int.neg_neg]
  · simp
  · simp only [if_pos (show -num < 0 by omega), if_neg (show ¬ num < 0 by omega)]

theorem roundHalfEven_nonneg {num : Int} (h : 0 ≤ num) (den : Nat) : 0 ≤ roundHalfEven num den := by
  unfold roundHalfEven
  dsimp only
  rw [if_neg (by omega)]
  exact Int.natCast_nonneg _

theorem ofInt_microsPerSecond : (Double.ofInt microsPerSecond).isFinite = true ∧
    (Double.ofInt microsPerSecond).isZero = false ∧ (Double.ofInt microsPerSecond).isNegative = false := by
  decide +kernel

/-- **Rounding to microseconds does not depend on the sign.** -/
theorem microsOfSeconds_neg (x : Double) : microsOfSeconds x.neg = -microsOfSeconds x := by
  obtain ⟨hfinite, hzero, -⟩ := ofInt_microsPerSecond
  have hmul := Double.mul_neg hfinite hzero (y := x.split.2) (by simp [Double.split])
  unfold microsOfSeconds
  rw [Double.split_neg]
  dsimp only
  rw [hmul, Double.units_neg, Double.truncate_neg, ← roundHalfEven_neg, Int.neg_mul, Int.neg_mul, ← Int.neg_add]

/-- A number of seconds that is not negative has no negative microseconds. -/
theorem microsOfSeconds_nonneg (h : x.isNegative = false) : 0 ≤ microsOfSeconds x := by
  obtain ⟨hfinite, hzero, hpositive⟩ := ofInt_microsPerSecond
  have hwhole : 0 ≤ x.split.1.truncate := by
    unfold Double.truncate
    rw [Double.split, Double.isNegative_ofUnits, h, if_neg Bool.false_ne_true]
    exact Int.natCast_nonneg _
  have hscaled : 0 ≤ ((Double.ofInt microsPerSecond).mul x.split.2).units := by
    unfold Double.units
    rw [Double.isNegative_mul hfinite hzero (by simp [Double.split]), hpositive, Double.split,
      Double.isNegative_ofUnits, h, bne_self_eq_false, if_neg Bool.false_ne_true]
    exact Int.natCast_nonneg _
  unfold microsOfSeconds
  dsimp only
  refine roundHalfEven_nonneg ?_ _
  exact Int.add_nonneg (Int.mul_nonneg (Int.mul_nonneg hwhole (Int.natCast_nonneg _)) (Int.natCast_nonneg _)) hscaled

/-- The negative of a duration that is not negative is in range just if the duration is. -/
theorem ofMicros?_neg_eq_some_iff {m : Int} (h : 0 ≤ m) :
    ofMicros? (-m) = some d ↔ ∃ d', ofMicros? m = some d' ∧ d'.neg? = some d := by
  have hday : (microsPerDay : Int) = 86400000000 := rfl
  constructor
  · intro hd
    have hrange : -999999999 * (microsPerDay : Int) ≤ m ∧ m < 1000000000 * (microsPerDay : Int) := by
      unfold ofMicros? at hd
      split at hd
      · omega
      · cases hd
    exact ⟨⟨m, hrange⟩, dif_pos hrange, hd⟩
  · rintro ⟨d', hd', hneg⟩
    unfold ofMicros? at hd'
    split at hd'
    · cases hd'
      exact hneg
    · cases hd'

/-- **The duration of the negative number is the negative duration**, where both are in range. -/
theorem ofSeconds?_neg_eq_some_iff (h : x.isNegative = false) :
    ofSeconds? x.neg = some d ↔ ∃ d', ofSeconds? x = some d' ∧ d'.neg? = some d := by
  unfold ofSeconds?
  rw [Double.isFinite_neg, microsOfSeconds_neg]
  split
  · exact ofMicros?_neg_eq_some_iff (microsOfSeconds_nonneg h)
  · simp

/-! ### Rounding to microseconds -/

theorem cast_microsPerSecond : (microsPerSecond : ℚ) = 1000000 := by norm_num [microsPerSecond]

theorem absUnits_ofInt_microsPerSecond :
    (Double.ofInt microsPerSecond).absUnits = microsPerSecond * Double.one ∧
      microsPerSecond * Double.one < 2 ^ 2097 := by decide +kernel

/-- The part of a second that is scaled to microseconds is off by at most one part in `2 ^ 53`. -/
theorem abs_units_scaled_sub_le (hx : x.isFinite = true) (hpos : x.isNegative = false) :
    |(((Double.ofInt microsPerSecond).mul x.split.2).units : ℚ) -
      (microsPerSecond * (x.absUnits % Double.one) : Nat)| ≤
        (microsPerSecond * (x.absUnits % Double.one) : Nat) / 2 ^ 53 := by
  obtain ⟨hfinite, -, hnegative⟩ := ofInt_microsPerSecond
  obtain ⟨hunits, hlimit⟩ := absUnits_ofInt_microsPerSecond
  obtain ⟨-, hrestFinite, hrest⟩ := Double.absUnits_split hx
  have hsign : x.split.2.isNegative = false := by rw [Double.split, Double.isNegative_ofUnits, hpos]
  have hle : microsPerSecond * (x.absUnits % Double.one) ≤ microsPerSecond * Double.one :=
    Nat.mul_le_mul_left _ (Nat.mod_lt _ Double.one_pos).le
  have hbits : Double.nearestBits (microsPerSecond * (x.absUnits % Double.one)) 1 < Double.infiniteBits := by
    refine Double.nearestBits_lt Nat.one_pos ?_
    rw [Nat.div_one]
    exact Nat.lt_of_le_of_lt hle hlimit
  have hmul : (Double.ofInt microsPerSecond).mul x.split.2 =
      Double.ofUnits false (microsPerSecond * (x.absUnits % Double.one)) 1 := by
    have hcancel := Double.ofUnits_mul_right false (microsPerSecond * (x.absUnits % Double.one)) 1 Double.one_pos
    rw [Nat.one_mul] at hcancel
    rw [Double.mul_eq hfinite hrestFinite, hnegative, hsign, hunits, hrest, Nat.mul_right_comm, bne_self_eq_false,
      hcancel]
  rw [hmul, Double.units, Double.isNegative_ofUnits, if_neg Bool.false_ne_true, (Double.finite_ofUnits hbits).2]
  exact Double.abs_unitsAt_nearestBits_one_sub_le _

/-- Whole seconds and a scaled rest that are close to a whole number of microseconds are rounded to it. -/
theorem roundHalfEven_of_close {a u w : Nat} {r : Int} (hu : 0 < u) (hw : w < 2 ^ 51)
    (hclose : |(a : ℚ) / u - w / microsPerSecond| ≤ w / microsPerSecond / 2 ^ 53)
    (hscaled : |(r : ℚ) - (microsPerSecond * (a % u) : Nat)| ≤ (microsPerSecond * (a % u) : Nat) / 2 ^ 53) :
    roundHalfEven ((a / u : Nat) * microsPerSecond * u + r) u = w := by
  have hu' : (0 : ℚ) < u := by exact_mod_cast hu
  have ha : (a : ℚ) = u * (a / u : Nat) + (a % u : Nat) := by exact_mod_cast (Nat.div_add_mod a u).symm
  have ht : ((a % u : Nat) : ℚ) ≤ u := by exact_mod_cast (Nat.mod_lt a hu).le
  have hw' : (w : ℚ) < 2 ^ 51 := by exact_mod_cast hw
  push_cast at hscaled
  rw [cast_microsPerSecond] at hclose hscaled
  generalize a / u = q at ha ⊢
  generalize a % u = t at ha ht hscaled
  have hrest : |((r : ℚ) - 1000000 * t) / u| ≤ 1000000 / 2 ^ 53 := by
    rw [abs_div, abs_of_pos hu', div_le_iff₀ hu']
    linarith
  have hnonneg : 0 ≤ (q : Int) * microsPerSecond * u + r := by
    have hr : (0 : ℚ) ≤ r := by
      rw [abs_le] at hscaled
      have ht' : (0 : ℚ) ≤ t := Nat.cast_nonneg t
      linarith [hscaled.1]
    have hr' : 0 ≤ r := by exact_mod_cast hr
    positivity
  obtain ⟨n, hn⟩ := Int.eq_ofNat_of_zero_le hnonneg
  have hnum : (n : ℚ) = q * 1000000 * u + r := by
    rw [← cast_microsPerSecond]
    exact_mod_cast hn.symm
  unfold roundHalfEven
  rw [hn]
  dsimp only
  rw [if_neg (by omega), Int.natAbs_natCast]
  refine congrArg Nat.cast (Double.divHalfEven_eq_of_abs_lt hu ?_)
  have hsplit : (n : ℚ) / u - w = (r - 1000000 * t) / u + 1000000 * (a / u - w / 1000000) := by
    rw [hnum, ha]
    field_simp
    ring
  rw [hsplit]
  rw [abs_le] at hrest hclose
  rw [abs_lt]
  constructor
  · linarith [hrest.1, hclose.1]
  · linarith [hrest.2, hclose.2]

/-- **A number of seconds that is the nearest to a whole number of microseconds is rounded to this number**, if that has
up to 51 binary digits. -/
theorem microsOfSeconds_of_close {w : Nat} (hx : x.isFinite = true) (hpos : x.isNegative = false) (hw : w < 2 ^ 51)
    (hclose : |x.absValue - w / microsPerSecond| ≤ w / microsPerSecond / 2 ^ 53) : microsOfSeconds x = w := by
  have hwhole : x.split.1.truncate = (x.absUnits / Double.one : Nat) := by
    have hsign : x.split.1.isNegative = false := by rw [Double.split, Double.isNegative_ofUnits, hpos]
    rw [Double.truncate, hsign, if_neg Bool.false_ne_true, (Double.absUnits_split hx).1,
      Nat.mul_div_cancel _ Double.one_pos]
  unfold microsOfSeconds
  dsimp only
  rw [hwhole]
  exact roundHalfEven_of_close Double.one_pos hw hclose (abs_units_scaled_sub_le hx hpos)

end LogStream.Duration
