import Mathlib
import LogStream.Number.Basic

/-! # Exact values of numbers

The exact value of a number is a whole number of units, or lies beyond all of them (`Number.exactValue?`); a
not-a-number has none. The bits of a double without the sign are in the order of its distance from zero
(`Double.absUnits_lt_iff`), so that numbers are compared by their exact values (`Number.compare?_eq`),
and are equal if these are the same (`Number.equal_iff`). -/

namespace LogStream

/-- A whole number of units, or one of the infinities. -/
abbrev ExactValue := WithBot (WithTop Int)

namespace ExactValue

variable {m n : Int}

/-- The exact value of a number of units. -/
def ofUnits (n : Int) : ExactValue := ((n : WithTop Int) : WithBot (WithTop Int))

@[simp] theorem ofUnits_lt_ofUnits : ofUnits m < ofUnits n ↔ m < n :=
  WithBot.coe_lt_coe.trans WithTop.coe_lt_coe

@[simp] theorem ofUnits_lt_top : ofUnits n < ⊤ := WithBot.coe_lt_coe.mpr (WithTop.coe_lt_top n)

@[simp] theorem bot_lt_ofUnits : ⊥ < ofUnits n := WithBot.bot_lt_coe _

end ExactValue

/-- Two pairs that are in the same order compare the same way. -/
theorem compare_eq_compare {α β : Type} [LinearOrder α] [LinearOrder β] {a b : α} {c d : β}
    (hlt : a < b ↔ c < d) (hgt : b < a ↔ d < c) : compare a b = compare c d := by
  rcases lt_trichotomy a b with h | h | h
  · rw [compare_lt_iff_lt.mpr h, compare_lt_iff_lt.mpr (hlt.mp h)]
  · have heq : c = d := le_antisymm (not_lt.mp fun hd => (h ▸ lt_irrefl a : ¬ b < a) (hgt.mpr hd))
      (not_lt.mp fun hc => (h ▸ lt_irrefl a : ¬ a < b) (hlt.mpr hc))
    rw [compare_eq_iff_eq.mpr h, compare_eq_iff_eq.mpr heq]
  · rw [compare_gt_iff_gt.mpr h, compare_gt_iff_gt.mpr (hgt.mp h)]

namespace Double

variable {x y : Double}

/-- The distance from zero, in units, of the double with the given bits without the sign. -/
def unitsAt (m : Nat) : Nat :=
  if m / 0x10000000000000 = 0 then m % 0x10000000000000
  else (0x10000000000000 + m % 0x10000000000000) * 2 ^ (m / 0x10000000000000 - 1)

/-- Greater bits are farther from zero. -/
theorem unitsAt_lt_succ (m : Nat) : unitsAt m < unitsAt (m + 1) := by
  have hfraction := Nat.mod_lt m (show 0 < 0x10000000000000 by decide)
  have hpos := Nat.two_pow_pos (m / 0x10000000000000 - 1)
  unfold unitsAt
  by_cases hlast : m % 0x10000000000000 = 0xFFFFFFFFFFFFF
  · -- The next bits begin the next exponent.
    have hnext : (m + 1) / 0x10000000000000 = m / 0x10000000000000 + 1 := by omega
    have hzero : (m + 1) % 0x10000000000000 = 0 := by omega
    rw [hnext, hzero, if_neg (Nat.succ_ne_zero _), Nat.add_sub_cancel]
    by_cases he : m / 0x10000000000000 = 0
    · rw [if_pos he, he]
      omega
    · have hdouble : 2 ^ (m / 0x10000000000000) = 2 * 2 ^ (m / 0x10000000000000 - 1) := by
        rw [← Nat.pow_succ', Nat.succ_eq_add_one, Nat.sub_add_cancel (by omega)]
      rw [if_neg he, hdouble, hlast]
      omega
  · have hsame : (m + 1) / 0x10000000000000 = m / 0x10000000000000 := by omega
    have hstep : (m + 1) % 0x10000000000000 = m % 0x10000000000000 + 1 := by omega
    rw [hsame, hstep]
    by_cases he : m / 0x10000000000000 = 0
    · rw [if_pos he, if_pos he]
      omega
    · rw [if_neg he, if_neg he]
      exact Nat.mul_lt_mul_of_pos_right (by omega) hpos

theorem absUnits_lt_iff : x.absUnits < y.absUnits ↔ x.magnitude < y.magnitude :=
  (strictMono_nat_of_lt_succ unitsAt_lt_succ).lt_iff_lt

theorem absUnits_eq_zero_iff : x.absUnits = 0 ↔ x.magnitude = 0 :=
  (strictMono_nat_of_lt_succ unitsAt_lt_succ).injective.eq_iff (b := 0)

/-- The bits without the sign, with the sign of the number. -/
def signedBits (x : Double) : Int := if x.isNegative then -(x.magnitude : Int) else x.magnitude

theorem units_lt_iff : x.units < y.units ↔ x.signedBits < y.signedBits := by
  have hlt : x.absUnits < y.absUnits ↔ x.magnitude < y.magnitude := absUnits_lt_iff
  have hgt : y.absUnits < x.absUnits ↔ y.magnitude < x.magnitude := absUnits_lt_iff
  have hx : x.absUnits = 0 ↔ x.magnitude = 0 := absUnits_eq_zero_iff
  have hy : y.absUnits = 0 ↔ y.magnitude = 0 := absUnits_eq_zero_iff
  unfold units signedBits
  by_cases hxneg : x.isNegative <;> by_cases hyneg : y.isNegative <;> simp only [hxneg, hyneg] <;>
    simp <;> omega

theorem one_pos : 0 < one := by
  unfold one
  generalize 1074 = n
  exact Nat.two_pow_pos n

/-- The exact value of a double, if it is a number. -/
def exactValue? (x : Double) : Option ExactValue :=
  if x.isNaN then none
  else if x.isInfinite then some (if x.isNegative then ⊥ else ⊤)
  else some (.ofUnits x.units)

/-- A double that is a number is infinite, or a whole number of units. -/
theorem exactValue?_cases (h : x.isNaN = false) :
    (x.magnitude = infiniteBits ∧ x.exactValue? = some (if x.isNegative then ⊥ else ⊤)) ∨
      (x.magnitude < infiniteBits ∧ x.exactValue? = some (.ofUnits x.units)) := by
  have hle : x.magnitude ≤ infiniteBits := Nat.not_lt.mp (of_decide_eq_false h)
  unfold exactValue?
  rw [if_neg (Bool.eq_false_iff.mp h)]
  by_cases hinf : x.isInfinite = true
  · exact .inl ⟨beq_iff_eq.mp hinf, if_pos hinf⟩
  · have hne : x.magnitude ≠ infiniteBits := fun he => hinf (beq_iff_eq.mpr he)
    exact .inr ⟨Nat.lt_of_le_of_ne hle hne, if_neg hinf⟩

/-- Numbers are in the order of their bits. -/
theorem exactValue?_lt_iff {u v : ExactValue} (hx : x.isNaN = false) (hy : y.isNaN = false)
    (hu : x.exactValue? = some u) (hv : y.exactValue? = some v) :
    u < v ↔ x.signedBits < y.signedBits := by
  have hpos : 0 < infiniteBits := by decide
  rcases exactValue?_cases hx with ⟨hxm, hxe⟩ | ⟨hxm, hxe⟩ <;>
    rcases exactValue?_cases hy with ⟨hym, hye⟩ | ⟨hym, hye⟩ <;>
    obtain rfl := Option.some.inj (hxe.symm.trans hu) <;>
    obtain rfl := Option.some.inj (hye.symm.trans hv)
  case inr.inr => rw [ExactValue.ofUnits_lt_ofUnits, units_lt_iff]
  all_goals
    unfold signedBits
    by_cases hxneg : x.isNegative <;> by_cases hyneg : y.isNegative <;>
      simp [hxneg, hyneg] <;> omega

theorem exists_exactValue? (h : x.isNaN = false) : ∃ u, x.exactValue? = some u := by
  rcases exactValue?_cases h with ⟨-, hu⟩ | ⟨-, hu⟩
  · exact ⟨_, hu⟩
  · exact ⟨_, hu⟩

theorem exactValue?_eq_none (h : x.isNaN = true) : x.exactValue? = none := if_pos h

theorem compare?_eq (x y : Double) :
    compare? x y = (do return Ord.compare (← x.exactValue?) (← y.exactValue?)) := by
  by_cases hx : x.isNaN = true
  · rw [exactValue?_eq_none hx, compare?, hx]
    rfl
  by_cases hy : y.isNaN = true
  · rw [exactValue?_eq_none hy, compare?, hy, Bool.or_true]
    cases x.exactValue? <;> rfl
  rw [Bool.not_eq_true] at hx hy
  obtain ⟨u, hu⟩ := exists_exactValue? hx
  obtain ⟨v, hv⟩ := exists_exactValue? hy
  rw [hu, hv, compare?, hx, hy]
  exact congrArg some
    (compare_eq_compare (exactValue?_lt_iff hx hy hu hv) (exactValue?_lt_iff hy hx hv hu)).symm

theorem compareInt?_eq (n : Int) (y : Double) :
    compareInt? n y =
      y.exactValue?.map fun v => Ord.compare (ExactValue.ofUnits (n * one)) v := by
  by_cases hy : y.isNaN = true
  · rw [exactValue?_eq_none hy, compareInt?, hy]
    rfl
  rw [compareInt?, if_neg hy, exactValue?, if_neg hy]
  by_cases hinf : y.isInfinite = true
  · rw [if_pos hinf, if_pos hinf]
    by_cases hneg : y.isNegative = true
    · rw [if_pos hneg, if_pos hneg]
      exact congrArg some (compare_gt_iff_gt.mpr ExactValue.bot_lt_ofUnits).symm
    · rw [if_neg hneg, if_neg hneg]
      exact congrArg some (compare_lt_iff_lt.mpr ExactValue.ofUnits_lt_top).symm
  · rw [if_neg hinf, if_neg hinf]
    exact congrArg some (compare_eq_compare ExactValue.ofUnits_lt_ofUnits.symm
      ExactValue.ofUnits_lt_ofUnits.symm)

end Double

namespace Number

/-- The exact value of a number, if it is one. -/
def exactValue? : Number → Option ExactValue
  | int n => some (.ofUnits (n * Double.one))
  | double x => x.exactValue?

/-- **Numbers are compared by their exact values.** -/
theorem compare?_eq (a b : Number) :
    compare? a b = (do return Ord.compare (← a.exactValue?) (← b.exactValue?)) := by
  have hone : (0 : Int) < (Double.one : Nat) := Int.natCast_pos.mpr Double.one_pos
  have hunits (m n : Int) :
      m < n ↔ ExactValue.ofUnits (m * Double.one) < .ofUnits (n * Double.one) :=
    (Int.mul_lt_mul_right hone).symm.trans ExactValue.ofUnits_lt_ofUnits.symm
  cases a with
  | int m =>
    cases b with
    | int n => exact congrArg some (compare_eq_compare (hunits m n) (hunits n m))
    | double y =>
      rw [compare?, Double.compareInt?_eq]
      exact (Option.map_eq_bind ..)
  | double x =>
    cases b with
    | int n =>
      have hdouble : (double x).exactValue? = x.exactValue? := rfl
      rw [compare?, Double.compareInt?_eq, exactValue?, hdouble]
      cases x.exactValue? with
      | none => rfl
      | some u => exact congrArg some Std.OrientedOrd.eq_swap.symm
    | double y => exact Double.compare?_eq x y

/-- **Two numbers are equal just if they have the same exact value.** -/
theorem equal_iff {a b : Number} :
    equal a b = true ↔ ∃ u, a.exactValue? = some u ∧ b.exactValue? = some u := by
  rw [equal, compare?_eq, beq_iff_eq]
  cases a.exactValue? with
  | none => simp
  | some u => cases b.exactValue? <;> simp [eq_comm (a := u)]

end Number

end LogStream
