import Mathlib
import LogStream.Proofs.Number.Rounding

/-! # Digits of a number

A positive quotient has its leading digit at the place that is found from the lengths of both numbers in binary
(`lead_eq_log`). Rounded to a number of digits it is off by at most a half of the last place (`round_spec`). The value of
the digits (`Decimal.value`) does not change when zeros behind them are dropped (`value_dropZeros`), and is that of
the number in positional form (`positional_cases`). -/

namespace LogStream.Decimal

open Text (numberOf)

variable {num den : Nat}

/-! ### Powers of ten -/

theorem pow10_pos (e : Int) : 0 < (pow10 e).1 ∧ 0 < (pow10 e).2 := by
  unfold pow10
  split
  · exact ⟨Nat.pow_pos (by decide), Nat.one_pos⟩
  · exact ⟨Nat.one_pos, Nat.pow_pos (by decide)⟩

theorem pow10_div (e : Int) : ((pow10 e).1 : ℚ) / (pow10 e).2 = 10 ^ e := by
  have hpow (n : Nat) : ((Nat.pow 10 n : Nat) : ℚ) = 10 ^ n := Nat.cast_pow 10 n
  unfold pow10
  split
  · next h =>
    rw [hpow, Nat.cast_one, div_one, ← zpow_natCast, Int.toNat_of_nonneg h]
  · next h =>
    rw [hpow, Nat.cast_one, ← zpow_natCast, Int.toNat_of_nonneg (by omega), zpow_neg, one_div, inv_inv]

/-- A quotient below a power of ten, in whole numbers. -/
theorem lt_pow10_iff (num : Nat) (hden : 0 < den) (e : Int) (k : Nat) :
    num * (pow10 e).2 < den * (pow10 e).1 * k ↔ (num : ℚ) / den < 10 ^ e * k := by
  obtain ⟨-, hq⟩ := pow10_pos e
  have hq' : (0 : ℚ) < (pow10 e).2 := by exact_mod_cast hq
  have hden' : (0 : ℚ) < den := by exact_mod_cast hden
  rw [← pow10_div, div_mul_eq_mul_div, div_lt_div_iff₀ hden' hq', mul_comm _ (den : ℚ), ← mul_assoc]
  exact_mod_cast Iff.rfl

/-! ### The leading digit -/

/-- The exponent is found in as many steps as the guess is off. -/
theorem leadFrom_eq (hden : 0 < den) {E : Int} (hlow : (10 : ℚ) ^ E ≤ num / den)
    (hhigh : (num : ℚ) / den < 10 ^ (E + 1)) : ∀ (fuel : Nat) (e : Int), (E - e).natAbs ≤ fuel →
      leadFrom num den fuel e = E
  | 0, e, h => by
    rw [leadFrom]
    omega
  | fuel + 1, e, h => by
    have hten : (1 : ℚ) < 10 := by norm_num
    have hbelow : num * (pow10 e).2 < den * (pow10 e).1 ↔ E < e := by
      have hlt := lt_pow10_iff num hden e 1
      rw [Nat.mul_one, Nat.cast_one, mul_one] at hlt
      rw [hlt]
      constructor
      · exact fun hx => (zpow_lt_zpow_iff_right₀ hten).mp (lt_of_le_of_lt hlow hx)
      · exact fun he => lt_of_lt_of_le hhigh (zpow_le_zpow_right₀ hten.le he)
    have hwithin : num * (pow10 e).2 < den * (pow10 e).1 * 10 ↔ E < e + 1 := by
      rw [lt_pow10_iff num hden e 10, Nat.cast_ofNat, ← zpow_add_one₀ (by norm_num)]
      constructor
      · exact fun hx => (zpow_lt_zpow_iff_right₀ hten).mp (lt_of_le_of_lt hlow hx)
      · exact fun he => lt_of_lt_of_le hhigh (zpow_le_zpow_right₀ hten.le he)
    rw [leadFrom]
    simp only [hbelow, hwithin]
    split
    · exact leadFrom_eq hden hlow hhigh fuel (e - 1) (by omega)
    · split
      · omega
      · exact leadFrom_eq hden hlow hhigh fuel (e + 1) (by omega)

/-- Powers of two numbers are in their order, and in the other one where the exponent is negative. -/
theorem zpow_le_zpow_cases {a b : ℚ} (ha : 0 < a) (h : a ≤ b) (n : Int) :
    (0 ≤ n → a ^ n ≤ b ^ n) ∧ (n ≤ 0 → b ^ n ≤ a ^ n) := by
  refine ⟨fun hn => zpow_le_zpow_left₀ hn ha.le h, fun hn => ?_⟩
  have hle := zpow_le_zpow_left₀ (show 0 ≤ -n by omega) ha.le h
  rw [zpow_neg, zpow_neg] at hle
  exact (inv_le_inv₀ (zpow_pos ha n) (zpow_pos (lt_of_lt_of_le ha h) n)).mp hle

/-- Exponents of two and of ten of one number: three decimal digits take ten binary ones at most, and 28 take 93 at
least. -/
theorem exponent_bounds {x : ℚ} {a E : Int} (hlow : (10 : ℚ) ^ E ≤ x) (hhigh : x < 10 ^ (E + 1))
    (halow : (2 : ℚ) ^ (a - 1) < x) (hahigh : x < 2 ^ (a + 1)) :
    (0 ≤ E → 93 * E < 28 * (a + 1) ∧ 3 * (a - 1) < 10 * (E + 1)) ∧
      (E < 0 → 10 * E < 3 * (a + 1) ∧ 28 * (a - 1) < 93 * (E + 1)) := by
  have hx : 0 ≤ x := le_trans (by positivity) hlow
  have hpow (b : ℚ) (n : Nat) (e : Int) : (b ^ n) ^ e = (b ^ e) ^ n := by
    rw [← zpow_natCast, ← zpow_natCast, ← zpow_mul, ← zpow_mul, mul_comm]
  have htwo {m n : Int} (h : (2 : ℚ) ^ m < 2 ^ n) : m < n := (zpow_lt_zpow_iff_right₀ (by norm_num)).mp h
  have hexponent (n : Nat) (e : Int) : ((2 : ℚ) ^ n) ^ e = 2 ^ (n * e) := by
    rw [← zpow_natCast, ← zpow_mul]
  have habove {n : Nat} (hn : n ≠ 0) : ((10 : ℚ) ^ n) ^ E < (2 : ℚ) ^ (n * (a + 1)) := by
    rw [← hexponent, hpow, hpow]
    exact lt_of_le_of_lt (pow_le_pow_left₀ (by positivity) hlow n) (pow_lt_pow_left₀ hahigh hx hn)
  have hbelow {n : Nat} (hn : n ≠ 0) : (2 : ℚ) ^ (n * (a - 1)) < ((10 : ℚ) ^ n) ^ (E + 1) := by
    rw [← hexponent, hpow, hpow]
    exact lt_trans (pow_lt_pow_left₀ halow (by positivity) hn) (pow_lt_pow_left₀ hhigh hx hn)
  have hfine (e : Int) := zpow_le_zpow_cases (show (0 : ℚ) < 2 ^ 93 by positivity)
    (show (2 : ℚ) ^ 93 ≤ 10 ^ 28 by norm_num) e
  have hcoarse (e : Int) := zpow_le_zpow_cases (show (0 : ℚ) < 10 ^ 3 by positivity)
    (show (10 : ℚ) ^ 3 ≤ 2 ^ 10 by norm_num) e
  simp only [hexponent] at hfine hcoarse
  constructor
  · intro hE
    have hlower := htwo (lt_of_le_of_lt ((hfine E).1 hE) (habove (by decide)))
    have hupper := htwo (lt_of_lt_of_le (hbelow (by decide)) ((hcoarse (E + 1)).1 (by omega)))
    exact ⟨hlower, hupper⟩
  · intro hE
    have hlower := htwo (lt_of_le_of_lt ((hcoarse E).2 (by omega)) (habove (by decide)))
    have hupper := htwo (lt_of_lt_of_le (hbelow (by decide)) ((hfine (E + 1)).2 (by omega)))
    exact ⟨hlower, hupper⟩

/-- The quotient of two numbers, told from their lengths in binary. -/
theorem log2_bounds (hnum : 0 < num) (hden : 0 < den) :
    (2 : ℚ) ^ ((Nat.log2 num : Int) - Nat.log2 den - 1) < num / den ∧
      (num : ℚ) / den < 2 ^ ((Nat.log2 num : Int) - Nat.log2 den + 1) := by
  have hbounds {n : Nat} (hn : 0 < n) : (2 : ℚ) ^ (Nat.log2 n : Int) ≤ n ∧ (n : ℚ) < 2 ^ ((Nat.log2 n : Int) + 1) := by
    constructor
    · exact_mod_cast Nat.log2_self_le hn.ne'
    · exact_mod_cast Nat.lt_log2_self (n := n)
  obtain ⟨hnlow, hnhigh⟩ := hbounds hnum
  obtain ⟨hdlow, hdhigh⟩ := hbounds hden
  have hden' : (0 : ℚ) < den := by exact_mod_cast hden
  have htwo : (2 : ℚ) ≠ 0 := by norm_num
  constructor
  · rw [lt_div_iff₀ hden']
    calc (2 : ℚ) ^ ((Nat.log2 num : Int) - Nat.log2 den - 1) * den
        < 2 ^ ((Nat.log2 num : Int) - Nat.log2 den - 1) * 2 ^ ((Nat.log2 den : Int) + 1) :=
          mul_lt_mul_of_pos_left hdhigh (by positivity)
      _ = 2 ^ (Nat.log2 num : Int) := by
          rw [← zpow_add₀ htwo]
          congr 1
          omega
      _ ≤ num := hnlow
  · rw [div_lt_iff₀ hden']
    calc (num : ℚ) < 2 ^ ((Nat.log2 num : Int) + 1) := hnhigh
      _ = 2 ^ ((Nat.log2 num : Int) - Nat.log2 den + 1) * 2 ^ (Nat.log2 den : Int) := by
          rw [← zpow_add₀ htwo]
          congr 1
          omega
      _ ≤ 2 ^ ((Nat.log2 num : Int) - Nat.log2 den + 1) * den :=
          mul_le_mul_of_nonneg_left hdlow (by positivity)

/-- **The exponent of the leading digit is found**, for all quotients that are doubles. -/
theorem lead_eq (hnum : 0 < num) (hden : 0 < den) {E : Int} (hlow : (10 : ℚ) ^ E ≤ num / den)
    (hhigh : (num : ℚ) / den < 10 ^ (E + 1)) (hE : E.natAbs ≤ 600) : lead num den = E := by
  obtain ⟨halow, hahigh⟩ := log2_bounds hnum hden
  obtain ⟨hpos, hneg⟩ := exponent_bounds hlow hhigh halow hahigh
  unfold lead
  refine leadFrom_eq hden hlow hhigh 8 _ ?_
  generalize (Nat.log2 num : Int) - Nat.log2 den = a at hpos hneg ⊢
  by_cases h : 0 ≤ E
  · obtain ⟨h₁, h₂⟩ := hpos h
    omega
  · obtain ⟨h₁, h₂⟩ := hneg (by omega)
    omega

/-! ### The value of digits -/

/-- The number that the digits and the exponent stand for. -/
def value (d : Decimal) : ℚ := numberOf 10 d.digits * 10 ^ (d.exponent + 1 - d.digits.length)

/-- There are digits, and each of them is a decimal one. -/
structure IsProper (d : Decimal) : Prop where
  ne_nil : d.digits ≠ []
  lt : ∀ n ∈ d.digits, n < 10

section

variable {d : Decimal}

/-- The digits without the zeros behind them. -/
theorem exists_zeros (ds : List Nat) :
    ∃ z, ds = (ds.reverse.dropWhile (· == 0)).reverse ++ List.replicate z 0 := by
  refine ⟨(ds.reverse.takeWhile (· == 0)).length, ?_⟩
  have hzeros : ds.reverse.takeWhile (· == 0) = List.replicate (ds.reverse.takeWhile (· == 0)).length 0 :=
    List.eq_replicate_of_mem fun n hn =>
      beq_iff_eq.mp (List.mem_takeWhile_imp (p := (· == 0)) hn)
  have hsplit := congrArg List.reverse (List.takeWhile_append_dropWhile (p := (· == 0)) (l := ds.reverse))
  rw [List.reverse_append, List.reverse_reverse, hzeros, List.reverse_replicate] at hsplit
  exact hsplit.symm

/-- **Zeros behind the other digits can be dropped.** -/
theorem value_dropZeros (h : d.IsProper) :
    d.dropZeros.IsProper ∧ d.dropZeros.value = d.value ∧ d.dropZeros.exponent = d.exponent := by
  obtain ⟨z, hz⟩ := exists_zeros d.digits
  have hvalue (ds : List Nat) (hds : d.digits = ds ++ List.replicate z 0) :
      d.value = numberOf 10 ds * 10 ^ (d.exponent + 1 - ds.length) := by
    unfold value
    rw [hds, Text.numberOf_append_replicate, List.length_append, List.length_replicate]
    push_cast
    rw [mul_assoc, ← zpow_natCast, ← zpow_add₀ (by norm_num)]
    congr 2
    omega
  unfold dropZeros
  split
  · next hnil =>
    rw [hnil, List.nil_append] at hz
    refine ⟨⟨by simp, by simp⟩, ?_, rfl⟩
    rw [hvalue [] hz]
    simp [value, numberOf]
  · next hne =>
    refine ⟨⟨hne, fun n hn => h.lt n ?_⟩, (hvalue _ hz).symm, rfl⟩
    rw [hz]
    exact List.mem_append_left _ hn

/-! ### Positional form -/

theorem lt_of_mem_replicate {k n : Nat} (hn : n ∈ List.replicate k 0) : n < 10 := by
  rw [List.eq_of_mem_replicate hn]
  decide

/-- Below one, the digits stand behind the point. -/
theorem positional_of_neg (h : d.IsProper) (hneg : d.exponent < 0) :
    d.positional 0 = digitText [0] ++
        CodePoint.ofChar '.' :: digitText (List.replicate ((-d.exponent).toNat - 1) 0 ++ d.digits) ∧
      (numberOf 10 ([0] ++ (List.replicate ((-d.exponent).toNat - 1) 0 ++ d.digits)) : ℚ) /
        10 ^ (List.replicate ((-d.exponent).toNat - 1) 0 ++ d.digits).length = d.value := by
  constructor
  · unfold positional
    dsimp only
    rw [if_pos hneg, if_pos hneg, Nat.zero_sub, List.replicate_zero, List.append_nil,
      if_neg (List.append_ne_nil_of_right_ne_nil _ h.ne_nil)]
  · unfold value
    rw [← List.append_assoc, ← List.replicate_one, List.replicate_append_replicate,
      Text.numberOf_replicate_append, List.length_append, List.length_replicate, ← zpow_natCast, div_eq_mul_inv,
      ← zpow_neg]
    congr 2
    omega

theorem positional_of_exponent {k : Nat} (hk : d.exponent = k) :
    d.positional 0 = digitText ((d.digits ++ List.replicate (k + 1) 0).take (k + 1)) ++
      if d.digits.drop (k + 1) = [] then [] else CodePoint.ofChar '.' :: digitText (d.digits.drop (k + 1)) := by
  have hneg : ¬ d.exponent < 0 := by omega
  have htoNat : d.exponent.toNat = k := by omega
  unfold positional
  dsimp only
  rw [if_neg hneg, if_neg hneg, Nat.zero_sub, List.replicate_zero, List.append_nil, htoNat]

/-- With no more digits than places, zeros stand behind them and no point. -/
theorem positional_of_length_le {k : Nat} (hk : d.exponent = k) (hlength : d.digits.length ≤ k + 1) :
    d.positional 0 = digitText (d.digits ++ List.replicate (k + 1 - d.digits.length) 0) ∧
      (numberOf 10 (d.digits ++ List.replicate (k + 1 - d.digits.length) 0) : ℚ) = d.value := by
  have htake : (d.digits ++ List.replicate (k + 1) 0).take (k + 1) =
      d.digits ++ List.replicate (k + 1 - d.digits.length) 0 := by
    rw [List.take_append, List.take_of_length_le hlength, List.take_replicate]
    congr 2
    omega
  constructor
  · rw [positional_of_exponent hk, List.drop_of_length_le hlength, if_pos rfl, List.append_nil, htake]
  · unfold value
    rw [Text.numberOf_append_replicate]
    push_cast
    rw [← zpow_natCast]
    congr 2
    omega

/-- With more digits than places, the point stands among them. -/
theorem positional_of_lt_length {k : Nat} (hk : d.exponent = k) (hlength : k + 1 < d.digits.length) :
    d.positional 0 = digitText (d.digits.take (k + 1)) ++ CodePoint.ofChar '.' :: digitText (d.digits.drop (k + 1)) ∧
      (numberOf 10 (d.digits.take (k + 1) ++ d.digits.drop (k + 1)) : ℚ) / 10 ^ (d.digits.drop (k + 1)).length =
        d.value := by
  have hdrop : d.digits.drop (k + 1) ≠ [] := by
    rw [ne_eq, List.drop_eq_nil_iff]
    omega
  constructor
  · rw [positional_of_exponent hk, if_neg hdrop, List.take_append_of_le_length (by omega)]
  · unfold value
    rw [List.take_append_drop, List.length_drop, ← zpow_natCast, div_eq_mul_inv, ← zpow_neg]
    congr 2
    omega

/-- **The positional form of digits is their number**, with a point among its digits or without one. -/
theorem positional_cases (h : d.IsProper) :
    (∃ ds, ds ≠ [] ∧ (∀ n ∈ ds, n < 10) ∧ d.positional 0 = digitText ds ∧ (numberOf 10 ds : ℚ) = d.value) ∨
      ∃ ds es, ds ≠ [] ∧ (∀ n ∈ ds, n < 10) ∧ (∀ n ∈ es, n < 10) ∧
        d.positional 0 = digitText ds ++ CodePoint.ofChar '.' :: digitText es ∧
        (numberOf 10 (ds ++ es) : ℚ) / 10 ^ es.length = d.value := by
  have hzeros (k : Nat) : ∀ n ∈ List.replicate k 0, n < 10 := fun _ => lt_of_mem_replicate
  by_cases hneg : d.exponent < 0
  · exact .inr ⟨[0], _, by simp, by simp, List.forall_mem_append.mpr ⟨hzeros _, h.lt⟩, positional_of_neg h hneg⟩
  obtain ⟨k, hk⟩ := Int.eq_ofNat_of_zero_le (Int.not_lt.mp hneg)
  by_cases hlength : d.digits.length ≤ k + 1
  · exact .inl ⟨_, List.append_ne_nil_of_left_ne_nil h.ne_nil _,
      List.forall_mem_append.mpr ⟨h.lt, hzeros _⟩, positional_of_length_le hk hlength⟩
  · have htake : d.digits.take (k + 1) ≠ [] := by
      rw [ne_eq, List.take_eq_nil_iff]
      exact fun hnil => hnil.elim (Nat.succ_ne_zero k) h.ne_nil
    exact .inr ⟨_, _, htake, fun n hn => h.lt n (List.mem_of_mem_take hn),
      fun n hn => h.lt n (List.mem_of_mem_drop hn), positional_of_lt_length hk (Nat.lt_of_not_le hlength)⟩

end

/-! ### Rounding to a number of digits -/

theorem length_digitsOf {n k : Nat} (hlow : 10 ^ k ≤ n) (hhigh : n < 10 ^ (k + 1)) :
    (digitsOf n).length = k + 1 := by
  have hle := (length_digitsOf_le_iff (Nat.succ_pos k)).mpr hhigh
  have hpos := List.length_pos_iff.mpr (digitsOf_ne_nil n)
  rcases Nat.eq_zero_or_pos k with rfl | hk
  · omega
  · have hgt : ¬ (digitsOf n).length ≤ k := fun h => Nat.not_lt.mpr hlow ((length_digitsOf_le_iff hk).mp h)
    omega

/-- A whole number of last places that has one digit too many ends in zeros. -/
def ofPlaces (n k : Nat) (E : Int) : Decimal :=
  if n = 10 ^ (k + 1) then ⟨1 :: List.replicate k 0, E + 1⟩ else ⟨digitsOf n, E⟩

/-- Powers of ten, told in last places. -/
theorem zpow_lastPlace (E : Int) (k : Nat) :
    (10 : ℚ) ^ E = 10 ^ k * 10 ^ (E - k) ∧ (10 : ℚ) ^ (E + 1) = 10 ^ (k + 1) * 10 ^ (E - k) := by
  have hten : (10 : ℚ) ≠ 0 := by norm_num
  have hlowest : (10 : ℚ) ^ E = 10 ^ k * 10 ^ (E - k) := by
    rw [← zpow_natCast, ← zpow_add₀ hten]
    congr 1
    omega
  refine ⟨hlowest, ?_⟩
  rw [zpow_add_one₀ hten, hlowest]
  ring

theorem value_one_zeros (k : Nat) (e : Int) : (⟨1 :: List.replicate k 0, e⟩ : Decimal).value = 10 ^ e := by
  have hten : (10 : ℚ) ≠ 0 := by norm_num
  unfold value
  rw [Text.numberOf_cons, Text.numberOf_replicate, List.length_cons, List.length_replicate]
  push_cast
  rw [add_zero, one_mul, ← zpow_natCast, ← zpow_add₀ hten]
  congr 1
  ring

theorem value_digitsOf {n k : Nat} (E : Int) (hlow : 10 ^ k ≤ n) (hhigh : n < 10 ^ (k + 1)) :
    (⟨digitsOf n, E⟩ : Decimal).value = n * 10 ^ (E - k) := by
  unfold value
  rw [numberOf_digitsOf, length_digitsOf hlow hhigh]
  congr 2
  push_cast
  ring

/-- A whole number of last places with its leading digit. -/
theorem value_ofPlaces {n k : Nat} (E : Int) (hlow : 10 ^ k ≤ n) (hhigh : n ≤ 10 ^ (k + 1)) :
    (ofPlaces n k E).IsProper ∧ (ofPlaces n k E).value = n * 10 ^ (E - k) ∧
      (10 : ℚ) ^ (ofPlaces n k E).exponent ≤ (ofPlaces n k E).value ∧
      (ofPlaces n k E).value < 10 ^ ((ofPlaces n k E).exponent + 1) := by
  obtain ⟨hlowest, hhighest⟩ := zpow_lastPlace E k
  have hunit : (0 : ℚ) < 10 ^ (E - k) := by positivity
  unfold ofPlaces
  split
  · next hfull =>
    refine ⟨⟨by simp, List.forall_mem_cons.mpr ⟨by decide, fun _ => lt_of_mem_replicate⟩⟩, ?_, ?_, ?_⟩
    · rw [value_one_zeros, hhighest, hfull, Nat.cast_pow, Nat.cast_ofNat]
    · rw [value_one_zeros]
    · rw [value_one_zeros]
      exact zpow_lt_zpow_right₀ (by norm_num) (Int.lt_succ (E + 1))
  · next hne =>
    have hlt : n < 10 ^ (k + 1) := Nat.lt_of_le_of_ne hhigh hne
    refine ⟨⟨digitsOf_ne_nil n, fun m => digitsOf_lt⟩, value_digitsOf E hlow hlt, ?_, ?_⟩
    · rw [value_digitsOf E hlow hlt, hlowest]
      exact mul_le_mul_of_nonneg_right (by exact_mod_cast hlow) hunit.le
    · rw [value_digitsOf E hlow hlt, hhighest]
      exact mul_lt_mul_of_pos_right (by exact_mod_cast hlt) hunit

/-- A quotient is rounded to a whole number of the last places that its leading digit leaves. -/
theorem exists_round (hnum : 0 < num) (hden : 0 < den) (k : Nat) {E : Int} (hlow : (10 : ℚ) ^ E ≤ num / den)
    (hhigh : (num : ℚ) / den < 10 ^ (E + 1)) (hE : E.natAbs ≤ 600) :
    ∃ n : Nat, round num den (k + 1) = ofPlaces n k E ∧ |(n : ℚ) - num / den / 10 ^ (E - k)| ≤ 1 / 2 := by
  obtain ⟨hp, hq⟩ := pow10_pos (E - k)
  have hquotient : ((num * (pow10 (E - k)).2 : Nat) : ℚ) / (den * (pow10 (E - k)).1 : Nat) =
      num / den / 10 ^ (E - k) := by
    rw [← pow10_div]
    push_cast
    rw [div_div_eq_mul_div, div_mul_eq_mul_div, div_div]
  refine ⟨Double.divHalfEven (num * (pow10 (E - k)).2) (den * (pow10 (E - k)).1), ?_, ?_⟩
  · unfold round
    rw [lead_eq hnum hden hlow hhigh hE]
    rfl
  · rw [← hquotient]
    exact Double.abs_divHalfEven_sub_le _ (Nat.mul_pos hden hp)

/-- **A quotient that is rounded to a number of digits** is a whole number of last places, off by at most a half of one.
Its digits have a leading one that is not zero. -/
theorem round_spec (hnum : 0 < num) (hden : 0 < den) (k : Nat) {E : Int} (hlow : (10 : ℚ) ^ E ≤ num / den)
    (hhigh : (num : ℚ) / den < 10 ^ (E + 1)) (hE : E.natAbs ≤ 600) :
    ∃ n : Nat, n ≤ 10 ^ (k + 1) ∧ (round num den (k + 1)).value = n * 10 ^ (E - k) ∧
      |(num : ℚ) / den - n * 10 ^ (E - k)| ≤ 10 ^ (E - k) / 2 ∧ (round num den (k + 1)).IsProper ∧
      (10 : ℚ) ^ (round num den (k + 1)).exponent ≤ (round num den (k + 1)).value ∧
      (round num den (k + 1)).value < 10 ^ ((round num den (k + 1)).exponent + 1) := by
  obtain ⟨hlowest, hhighest⟩ := zpow_lastPlace E k
  have hunit : (0 : ℚ) < 10 ^ (E - k) := by positivity
  rw [hlowest] at hlow
  rw [hhighest] at hhigh
  obtain ⟨n, hround, hhalf⟩ := exists_round hnum hden k (hlowest ▸ hlow) (hhighest ▸ hhigh) hE
  rw [← le_div_iff₀ hunit] at hlow
  rw [← div_lt_iff₀ hunit] at hhigh
  rw [abs_le] at hhalf
  -- A whole number that is less than one away from the bounds is within them.
  have hge : 10 ^ k ≤ n := by
    have hlt : ((10 ^ k : Nat) : ℚ) < (n + 1 : Nat) := by
      push_cast
      linarith [hhalf.1]
    have hlt' : 10 ^ k < n + 1 := by exact_mod_cast hlt
    omega
  have hle : n ≤ 10 ^ (k + 1) := by
    have hlt : (n : ℚ) < (10 ^ (k + 1) + 1 : Nat) := by
      push_cast
      linarith [hhalf.2]
    have hlt' : n < 10 ^ (k + 1) + 1 := by exact_mod_cast hlt
    omega
  obtain ⟨hproper, hvalue, hleading⟩ := value_ofPlaces E hge hle
  rw [hround]
  refine ⟨n, hle, hvalue, ?_, hproper, hleading⟩
  have hoff := mul_le_mul_of_nonneg_right (abs_le.mpr hhalf) hunit.le
  rw [← abs_of_pos hunit, ← abs_mul, sub_mul, abs_of_pos hunit, div_mul_cancel₀ _ hunit.ne', abs_sub_comm] at hoff
  linarith

end LogStream.Decimal
