import Mathlib
import LogStream.Proofs.Number.Digits
import LogStream.Proofs.Time.Spelling

/-! # Durations written with six digits

A duration is written as its number of seconds with six digits, and so it is read back only if it has no more of them
(`read_toText_iff`). -/

namespace LogStream.Duration

open Double (IsNumeric)
open Text (numberOf)

variable {d : Duration} {x : Double}

/-! ### Texts of numbers -/

/-- The positional form of digits is a number with their value. -/
theorem exists_isNumber_positional {r : Decimal} (h : r.IsProper) : ∃ num den, 0 < den ∧
    IsNumber (r.positional 0) (Double.ofRatio false num den) ∧ (num : ℚ) / den = r.value := by
  rcases Decimal.positional_cases h with ⟨ds, hne, hds, htext, hvalue⟩ | ⟨ds, es, hne, hds, hes, htext, hvalue⟩
  · refine ⟨numberOf 10 ds, 1, Nat.one_pos, ?_, by rw [Nat.cast_one, div_one, hvalue]⟩
    rw [htext]
    exact .digits (Decimal.mapM_decimal?_digitText hds) (by simpa [Decimal.digitText] using hne)
  · refine ⟨numberOf 10 (ds ++ es), 10 ^ es.length, Nat.pow_pos (by decide), ?_, ?_⟩
    · rw [htext]
      exact .pointed (Decimal.mapM_decimal?_digitText hds) (Decimal.mapM_decimal?_digitText hes)
        (.inl (by simpa [Decimal.digitText] using hne))
    · rw [← hvalue]
      push_cast
      rfl

/-- A number of microseconds in seconds is close to the nearest double. -/
theorem ofRatio_micros {s : Bool} {m : Nat} (hpos : 0 < m) (hlt : m < 10 ^ 20) :
    (Double.ofRatio s m microsPerSecond).isFinite = true ∧
      |(Double.ofRatio s m microsPerSecond).absValue - m / microsPerSecond| ≤ m / microsPerSecond / 2 ^ 53 := by
  have hone : 2 ^ 52 * microsPerSecond ≤ Double.one ∧ 10 ^ 20 * Double.one < 2 ^ 2097 * microsPerSecond := by
    decide +kernel
  refine Double.abs_absValue_ofRatio_sub_le (by decide) ?_ ?_
  · exact Nat.le_trans hone.1 (Nat.le_mul_of_pos_left _ hpos)
  · exact Nat.lt_of_le_of_lt (Nat.mul_le_mul_right _ hlt.le) hone.2

/-- **A number of microseconds below `2 ^ 51` is read from its seconds**, however these are written. -/
theorem microsOfSeconds_ofRatio {w : Nat} (hw : w < 2 ^ 51) :
    (Double.ofRatio false w microsPerSecond).isFinite = true ∧
      microsOfSeconds (Double.ofRatio false w microsPerSecond) = w := by
  rcases Nat.eq_zero_or_pos w with rfl | hpos
  · decide +kernel
  · obtain ⟨hfinite, hclose⟩ := ofRatio_micros (s := false) hpos (by omega)
    exact ⟨hfinite, microsOfSeconds_of_close hfinite (Double.isNegative_ofUnits _ _ _) hw hclose⟩

/-- Seconds in positional form are spelled as a duration. -/
theorem isUnsigned_positional {r : Decimal} {w : Nat} (h : r.IsProper) (hw : w < 2 ^ 51)
    (hvalue : r.value = w / microsPerSecond) :
    IsUnsigned (r.positional 0 ++ Text.lit "s") (Double.ofRatio false w microsPerSecond) := by
  obtain ⟨num, den, hden, hnumber, hratio⟩ := exists_isNumber_positional h
  have hsame : Double.ofRatio false num den = Double.ofRatio false w microsPerSecond := by
    refine Double.ofRatio_eq_ofRatio hden (by decide) ?_
    have hmicros : (microsPerSecond : ℚ) ≠ 0 := by norm_num [cast_microsPerSecond]
    have hcross := (div_eq_div_iff (by exact_mod_cast hden.ne') hmicros).mp (hratio.trans hvalue)
    exact_mod_cast hcross
  rw [hsame] at hnumber
  obtain ⟨hfinite, -⟩ := microsOfSeconds_ofRatio hw
  have hunit : ("s", Double.ofInt 1) ∈ units := by simp [units]
  have hsum : IsSum (Double.zero false) (r.positional 0 ++ (Text.lit "s" ++ [])) _ := .cons hnumber hunit .nil
  dsimp only at hsum
  rw [List.append_nil, Double.mul_ofInt_one hfinite,
    Double.zero_add hfinite (Double.isNegative_ofUnits _ _ _)] at hsum
  exact .sum (by simp [hnumber.ne_nil]) hsum

/-! ### Characters of durations -/

/-- What holds of digits, the point, the letters of units and signs holds of a spelled duration. -/
theorem IsSpelling.forall_mem {p : CodePoint → Bool} (hnumeric : ∀ c, IsNumeric c → p c = true)
    (hunits : (units.all fun unit => (Text.lit unit.1).all p) = true)
    (hsigns : ((Text.lit "+-").all p) = true) {signs t : Text} (h : IsSpelling signs t x) : ∀ c ∈ t, p c = true := by
  have hsum {sum : Double} {t : Text} {x : Double} (h : IsSum sum t x) : ∀ c ∈ t, p c = true := by
    induction h with
    | nil => exact List.forall_mem_nil _
    | cons hn hu _ ih =>
      exact List.forall_mem_append.mpr ⟨fun c hc => hnumeric c (hn.isNumeric c hc),
        List.forall_mem_append.mpr ⟨List.all_eq_true.mp (List.all_eq_true.mp hunits _ hu), ih⟩⟩
  obtain ⟨hs, hbody⟩ := h
  refine List.forall_mem_append.mpr ⟨fun c hc => ?_, ?_⟩
  · obtain ⟨ch, hch, hc⟩ := List.any_eq_true.mp (hs c hc)
    rw [CodePoint.eq_ofChar hc]
    exact List.all_eq_true.mp hsigns _ (List.mem_map_of_mem hch)
  · cases hbody with
    | zero => exact List.forall_mem_singleton.mpr (hnumeric _ (.inl ⟨0, by decide⟩))
    | sum _ h => exact hsum h

/-- No text with an exponent is spelled as a duration. -/
theorem not_isSpelling_of_mem {t : Text} {c : CodePoint} (hc : c ∈ t) (he : c.is 'e' = true) :
    ¬ ∃ signs x, IsSpelling signs (Text.strip t) x := by
  rintro ⟨signs, x, h⟩
  have hspace : c.isSpace = false := by
    rw [CodePoint.eq_ofChar he]
    decide
  have hnot := h.forall_mem (p := fun c => !c.is 'e')
    (fun c hc => by rw [Double.is_of_isNumeric hc 'e' (by decide)]; rfl) rfl rfl c (Text.mem_strip hc hspace)
  rw [he] at hnot
  cases hnot

/-- A spelled duration has no white space. -/
theorem IsSpelling.strip_eq {signs t : Text} (h : IsSpelling signs t x) : Text.strip t = t := by
  have hspace := h.forall_mem (p := fun c => !c.isSpace) (fun c hc => by rw [isSpace_of_isNumeric hc]; rfl) rfl rfl
  simp only [Bool.not_eq_true'] at hspace
  exact Text.strip_eq_self (fun c hc => hspace c (List.mem_of_mem_head? hc))
    fun c hc => hspace c (List.mem_of_mem_getLast? hc)

/-! ### Reading what is written -/

/-- The sign that is written in front of a duration. -/
def signText (d : Duration) : Text := if d.micros < 0 then [CodePoint.ofChar '-'] else []

theorem isIn_of_mem_signText : ∀ c ∈ d.signText, c.isIn "+-" = true := by
  unfold signText
  split
  · exact List.forall_mem_singleton.mpr (by decide)
  · exact List.forall_mem_nil _

theorem signed_signText (d : Duration) (x : Double) : signed d.signText x = if d.micros < 0 then x.neg else x := by
  unfold signText signed
  split
  · exact if_pos rfl
  · exact if_neg Bool.false_ne_true

/-- **Seconds in positional form are read as their microseconds**, with the sign in front. -/
theorem read_positional {r : Decimal} {w : Nat} (h : r.IsProper) (hw : w < 2 ^ 51)
    (hvalue : r.value = w / microsPerSecond) {d' : Duration} :
    read (d.signText ++ (r.positional 0 ++ Text.lit "s")) = .ok d' ↔
      d'.micros = if d.micros < 0 then -(w : Int) else w := by
  have hday : (microsPerDay : Int) = 86400000000 := rfl
  obtain ⟨hfinite, hmicros⟩ := microsOfSeconds_ofRatio hw
  have hspelling := IsSpelling.mk d.isIn_of_mem_signText (isUnsigned_positional h hw hvalue)
  have hseconds : ofSeconds? (signed d.signText (Double.ofRatio false w microsPerSecond)) =
      ofMicros? (if d.micros < 0 then -(w : Int) else w) := by
    rw [signed_signText, ofSeconds?]
    by_cases hneg : d.micros < 0
    · rw [if_pos hneg, if_pos hneg, Double.isFinite_neg, microsOfSeconds_neg, hfinite, hmicros, if_pos rfl]
    · rw [if_neg hneg, if_neg hneg, hfinite, hmicros, if_pos rfl]
  have hread := read_of_isSpelling (t := d.signText ++ (r.positional 0 ++ Text.lit "s"))
    (by rw [hspelling.strip_eq]; exact hspelling)
  rw [hread, hseconds]
  unfold ofMicros?
  rw [dif_pos (by split <;> omega)]
  constructor
  · intro hd
    cases hd
    rfl
  · intro hd
    refine congrArg Except.ok ?_
    cases d'
    simp only [mk.injEq]
    exact hd.symm

/-! ### Six digits -/

/-- The seconds of a duration that is not zero, rounded to six digits. -/
structure IsRounded (d : Duration) (E : Int) (n : Nat) : Prop where
  low : (10 : ℚ) ^ E ≤ d.seconds.absValue
  high : d.seconds.absValue < 10 ^ (E + 1)
  close : |d.seconds.absValue - d.micros.natAbs / microsPerSecond| ≤ d.micros.natAbs / microsPerSecond / 2 ^ 53
  le : n ≤ 10 ^ 6
  value : (d.seconds.rounded 6).value = n * 10 ^ (E - 5)
  off : |d.seconds.absValue - n * 10 ^ (E - 5)| ≤ 10 ^ (E - 5) / 2
  isProper : (d.seconds.rounded 6).IsProper
  exponent_le : (10 : ℚ) ^ (d.seconds.rounded 6).exponent ≤ (d.seconds.rounded 6).value
  lt_exponent : (d.seconds.rounded 6).value < 10 ^ ((d.seconds.rounded 6).exponent + 1)

theorem natAbs_micros_lt (d : Duration) : d.micros.natAbs < 10 ^ 20 := by
  have hrange := d.inRange
  have hday : (microsPerDay : Int) = 86400000000 := rfl
  omega

/-- The double of the seconds is close to them. -/
theorem abs_absValue_seconds_sub_le (h : d.micros ≠ 0) :
    |d.seconds.absValue - d.micros.natAbs / microsPerSecond| ≤ d.micros.natAbs / microsPerSecond / 2 ^ 53 :=
  (ofRatio_micros (s := decide (d.micros < 0)) (Int.natAbs_pos.mpr h) d.natAbs_micros_lt).2

/-- Coarse bounds, from the microsecond to the longest duration. -/
theorem absValue_seconds_bounds (h : d.micros ≠ 0) :
    (10 : ℚ) ^ (-7 : Int) < d.seconds.absValue ∧ d.seconds.absValue < 10 ^ (20 : Int) := by
  have hone : (1 : ℚ) ≤ d.micros.natAbs := by exact_mod_cast Int.natAbs_pos.mpr h
  have hlimit : (d.micros.natAbs : ℚ) < 10 ^ 20 := by exact_mod_cast d.natAbs_micros_lt
  have hclose := abs_le.mp (abs_absValue_seconds_sub_le h)
  rw [cast_microsPerSecond] at hclose
  rw [show (10 : ℚ) ^ (-7 : Int) = 1 / 10000000 by norm_num, show (10 : ℚ) ^ (20 : Int) = 10 ^ 20 by norm_num]
  constructor
  · linarith [hclose.1]
  · linarith [hclose.2]

theorem exists_isRounded (h : d.micros ≠ 0) : ∃ E n, IsRounded d E n := by
  obtain ⟨hlow, hhigh⟩ := absValue_seconds_bounds h
  have hten : (1 : ℚ) < 10 := by norm_num
  have hx : 0 < d.seconds.absValue := lt_trans (by positivity) hlow
  obtain ⟨E, hE, hE'⟩ := exists_mem_Ico_zpow hx hten
  have hupper := (zpow_lt_zpow_iff_right₀ hten).mp (lt_of_le_of_lt hE hhigh)
  have hlower := (zpow_lt_zpow_iff_right₀ hten).mp (lt_trans hlow hE')
  have hunits : 0 < d.seconds.absUnits := by
    refine Nat.pos_of_ne_zero fun hzero => ?_
    rw [Double.absValue, hzero, Nat.cast_zero, zero_div] at hx
    exact lt_irrefl _ hx
  have hrounded : d.seconds.rounded 6 = Decimal.round d.seconds.absUnits Double.one 6 := by
    unfold Double.rounded
    refine if_neg fun hzero => hunits.ne' ?_
    exact Double.absUnits_eq_zero_iff.mpr (beq_iff_eq.mp hzero)
  obtain ⟨n, hn, hvalue, hoff, hproper, hleading⟩ :=
    Decimal.round_spec hunits Double.one_pos 5 hE hE' (by omega)
  rw [← hrounded] at hvalue hproper hleading
  exact ⟨E, n, hE, hE', abs_absValue_seconds_sub_le h, hn, hvalue, hoff, hproper, hleading.1, hleading.2⟩

section

variable {E : Int} {n : Nat}

/-- Powers of ten next to the last of six places. -/
theorem zpow_places (E : Int) : (10 : ℚ) ^ E = 100000 * 10 ^ (E - 5) ∧ (10 : ℚ) ^ (E + 1) = 1000000 * 10 ^ (E - 5) ∧
    (10 : ℚ) ^ (E - 6) = 10 ^ (E - 5) / 10 := by
  have hten : (10 : ℚ) ≠ 0 := by norm_num
  refine ⟨?_, ?_, ?_⟩
  · rw [zpow_sub₀ hten]
    ring
  · rw [zpow_sub₀ hten, zpow_add_one₀ hten]
    ring
  · rw [zpow_sub₀ hten, zpow_sub₀ hten]
    ring

/-- Two whole numbers of places are the same if one number is close to both. -/
theorem eq_of_close {n c : Nat} {u x : ℚ} (hu : 0 < u) (hn : |x - n * u| ≤ u / 2) (hc : |x - c * u| < u / 2) :
    n = c := by
  have hbelow : ((n : ℚ) - c) * u < 1 * u := by linarith [(abs_le.mp hn).1, (abs_lt.mp hc).2]
  have habove : ((c : ℚ) - n) * u < 1 * u := by linarith [(abs_le.mp hn).2, (abs_lt.mp hc).1]
  have hnc : (n : ℚ) < (c + 1 : Nat) := by
    push_cast
    linarith [lt_of_mul_lt_mul_right hbelow hu.le]
  have hcn : (c : ℚ) < (n + 1 : Nat) := by
    push_cast
    linarith [lt_of_mul_lt_mul_right habove hu.le]
  have hnc' : n < c + 1 := by exact_mod_cast hnc
  have hcn' : c < n + 1 := by exact_mod_cast hcn
  omega

/-- Six digits in front of zeros are a whole number of the last of the six places. -/
theorem IsRounded.exists_places (h : IsRounded d E n) {k j : Nat} (hk : k < 10 ^ 6)
    (hm : d.micros.natAbs = k * 10 ^ j) :
    ∃ c : Nat, (d.micros.natAbs : ℚ) / microsPerSecond = c * 10 ^ (E - 5) := by
  obtain ⟨hE, -, hlower⟩ := zpow_places E
  have hten : (10 : ℚ) ≠ 0 := by norm_num
  have hu : (0 : ℚ) < 10 ^ (E - 5) := by positivity
  have hlow := h.low
  have hclose := abs_le.mp h.close
  have hseconds : (d.micros.natAbs : ℚ) / microsPerSecond = k * 10 ^ ((j : Int) - 6) := by
    rw [hm, cast_microsPerSecond, zpow_sub₀ hten]
    push_cast
    rw [zpow_natCast]
    ring
  rw [hseconds] at hclose ⊢
  have hk' : (k : ℚ) ≤ 999999 := by exact_mod_cast Nat.le_of_lt_succ hk
  -- The last of the six places is not above the last digit that is not zero.
  have hj : E + 1 ≤ j := by
    by_contra hlt
    have hle : (10 : ℚ) ^ ((j : Int) - 6) ≤ 10 ^ (E - 6) := zpow_le_zpow_right₀ (by norm_num) (by omega)
    have hsmall : (k : ℚ) * 10 ^ ((j : Int) - 6) ≤ 999999 * 10 ^ (E - 6) :=
      mul_le_mul hk' hle (by positivity) (by norm_num)
    linarith [hclose.2]
  obtain ⟨i, hi⟩ := Int.eq_ofNat_of_zero_le (show 0 ≤ (j : Int) - (E + 1) by omega)
  refine ⟨k * 10 ^ i, ?_⟩
  push_cast
  rw [mul_assoc, ← zpow_natCast, ← zpow_add₀ hten]
  congr 2
  omega

/-- **Microseconds with six digits in front of zeros are not rounded.** -/
theorem IsRounded.value_eq (h : IsRounded d E n) {k j : Nat} (hk : k < 10 ^ 6) (hm : d.micros.natAbs = k * 10 ^ j) :
    (d.seconds.rounded 6).value = d.micros.natAbs / microsPerSecond := by
  obtain ⟨-, hE', -⟩ := zpow_places E
  have hu : (0 : ℚ) < 10 ^ (E - 5) := by positivity
  obtain ⟨c, hplaces⟩ := h.exists_places hk hm
  have hhigh := h.high
  have hclose := h.close
  rw [hplaces] at hclose
  have hc : (c : ℚ) * 10 ^ (E - 5) < 2000000 * 10 ^ (E - 5) := by linarith [(abs_le.mp hclose).1]
  have hsame : n = c := eq_of_close hu h.off (lt_of_le_of_lt hclose (by linarith))
  rw [h.value, hplaces, hsame]

/-- A duration that is written in positional form lasts at least a hundred microseconds. -/
theorem IsRounded.le_micros (h : IsRounded d E n) (hexponent : -4 ≤ (d.seconds.rounded 6).exponent) :
    100 ≤ d.micros.natAbs := by
  obtain ⟨hE, -, -⟩ := zpow_places E
  have hle : (10 : ℚ) ^ (-4 : Int) ≤ 10 ^ (d.seconds.rounded 6).exponent := zpow_le_zpow_right₀ (by norm_num) hexponent
  rw [show (10 : ℚ) ^ (-4 : Int) = 1 / 10000 by norm_num] at hle
  have hvalue := h.exponent_le
  rw [h.value] at hvalue
  have hlow := h.low
  have hclose := (abs_le.mp h.close).2
  have hoff := (abs_le.mp h.off).1
  rw [cast_microsPerSecond] at hclose
  by_contra hlt
  have hsmall : (d.micros.natAbs : ℚ) ≤ 99 := by exact_mod_cast Nat.le_of_lt_succ (Nat.not_le.mp hlt)
  linarith

/-- From one second on, six digits are a whole number of microseconds. -/
theorem IsRounded.exists_value_eq (h : IsRounded d E n) (hlong : 10 ^ 6 ≤ d.micros.natAbs) :
    ∃ k < 10 ^ 6, ∃ j : Nat, (d.seconds.rounded 6).value = (k * 10 ^ j : Nat) / microsPerSecond := by
  have hten : (10 : ℚ) ≠ 0 := by norm_num
  have hlong' : (10 : ℚ) ^ 6 ≤ d.micros.natAbs := by exact_mod_cast hlong
  have hclose := (abs_le.mp h.close).1
  rw [cast_microsPerSecond] at hclose
  have htenth : (10 : ℚ) ^ (-1 : Int) < 10 ^ (E + 1) := by
    refine lt_trans ?_ h.high
    rw [show (10 : ℚ) ^ (-1 : Int) = 1 / 10 by norm_num]
    linarith
  have hE := (zpow_lt_zpow_iff_right₀ (show (1 : ℚ) < 10 by norm_num)).mp htenth
  obtain ⟨i, hi⟩ := Int.eq_ofNat_of_zero_le (show 0 ≤ E + 1 by omega)
  have hvalue : (d.seconds.rounded 6).value = (n * 10 ^ i : Nat) / microsPerSecond := by
    rw [h.value, cast_microsPerSecond, show E - 5 = (i : Int) - 6 by omega, zpow_sub₀ hten]
    push_cast
    rw [zpow_natCast]
    ring
  rcases Nat.lt_or_eq_of_le h.le with hn | rfl
  · exact ⟨n, hn, i, hvalue⟩
  · have hpower : 10 ^ 6 * 10 ^ i = 1 * 10 ^ (i + 6) := by rw [Nat.one_mul, Nat.pow_add, Nat.mul_comm]
    exact ⟨1, by decide, i + 6, hpower ▸ hvalue⟩

end

/-! ### What is read back -/

/-- The number of microseconds is zero, or has six digits in front of zeros and is written without an exponent. -/
def IsWritten (m : Nat) : Prop := m = 0 ∨ 100 ≤ m ∧ m < 10 ^ 12 ∧ ∃ k < 10 ^ 6, ∃ j, m = k * 10 ^ j

theorem toText_eq (d : Duration) : d.toText = d.signText ++
    ((if -4 ≤ (d.seconds.rounded 6).exponent ∧ (d.seconds.rounded 6).exponent < 6 then
      (d.seconds.rounded 6).dropZeros.positional 0
    else (d.seconds.rounded 6).dropZeros.scientific) ++ Text.lit "s") := by
  have hsign : d.seconds.isNegative = decide (d.micros < 0) := by
    rw [seconds, Double.ofRatio, Double.isNegative_ofUnits]
  unfold toText Double.toGeneral Double.signed signText
  dsimp only
  rw [hsign, Nat.cast_ofNat]
  by_cases h : d.micros < 0
  · rw [decide_eq_true h, if_pos rfl, if_pos h, List.cons_append, List.singleton_append]
  · rw [decide_eq_false h, if_neg Bool.false_ne_true, if_neg h, List.nil_append]

/-- A number with an exponent has its letter. -/
theorem exists_mem_scientific (r : Decimal) : ∃ c ∈ r.scientific, c.is 'e' = true := by
  refine ⟨CodePoint.ofChar 'e', List.mem_append_right _ (List.mem_append_left _ ?_), CodePoint.is_ofChar 'e'⟩
  split
  · exact List.mem_cons_self
  · exact List.mem_cons_self

theorem read_toText_zero : read zero.toText = .ok zero := by
  have hrounded : zero.seconds.rounded 6 = ⟨List.replicate 6 0, 0⟩ := by decide +kernel
  have hzeros : (⟨List.replicate 6 0, 0⟩ : Decimal).IsProper := ⟨by decide, by decide⟩
  obtain ⟨hproper, hvalue, -⟩ := Decimal.value_dropZeros hzeros
  rw [toText_eq, hrounded, if_pos (by decide)]
  refine (read_positional (w := 0) hproper (by decide) ?_).mpr rfl
  rw [hvalue, Decimal.value, Text.numberOf_replicate]
  simp

/-- In the range of the positional form, the exponent is that of the positional form. -/
theorem IsRounded.exponent_bounds {E : Int} {n : Nat} (h : IsRounded d E n)
    (hvalue : (d.seconds.rounded 6).value = d.micros.natAbs / microsPerSecond) (hlow : 100 ≤ d.micros.natAbs)
    (hhigh : d.micros.natAbs < 10 ^ 12) :
    -4 ≤ (d.seconds.rounded 6).exponent ∧ (d.seconds.rounded 6).exponent < 6 := by
  have hten : (1 : ℚ) < 10 := by norm_num
  have hlow' : (100 : ℚ) ≤ d.micros.natAbs := by exact_mod_cast hlow
  have hhigh' : (d.micros.natAbs : ℚ) < 10 ^ 12 := by exact_mod_cast hhigh
  have hle := h.exponent_le
  have hlt := h.lt_exponent
  rw [hvalue, cast_microsPerSecond] at hle hlt
  have hupper : (10 : ℚ) ^ (d.seconds.rounded 6).exponent < 10 ^ (6 : Int) := by
    rw [show (10 : ℚ) ^ (6 : Int) = 1000000 by norm_num]
    linarith
  have hlower : (10 : ℚ) ^ (-4 : Int) < 10 ^ ((d.seconds.rounded 6).exponent + 1) := by
    rw [show (10 : ℚ) ^ (-4 : Int) = 1 / 10000 by norm_num]
    linarith
  have hupper' := (zpow_lt_zpow_iff_right₀ hten).mp hupper
  have hlower' := (zpow_lt_zpow_iff_right₀ hten).mp hlower
  omega

/-- Seconds in positional form that are read as the duration are those of a written one. -/
theorem IsRounded.isWritten {E : Int} {n : Nat} (h : IsRounded d E n)
    (hform : -4 ≤ (d.seconds.rounded 6).exponent ∧ (d.seconds.rounded 6).exponent < 6)
    (hread : read (d.signText ++ ((d.seconds.rounded 6).dropZeros.positional 0 ++ Text.lit "s")) = .ok d) :
    IsWritten d.micros.natAbs := by
  obtain ⟨hproper, hvalue, -⟩ := Decimal.value_dropZeros h.isProper
  have hlow := h.le_micros hform.1
  by_cases hshort : d.micros.natAbs < 10 ^ 6
  · exact .inr ⟨hlow, by omega, _, hshort, 0, by rw [Nat.pow_zero, Nat.mul_one]⟩
  · obtain ⟨k, hk, j, hplaces⟩ := h.exists_value_eq (by omega)
    have hlimit : k * 10 ^ j < 10 ^ 12 := by
      have hsix : (10 : ℚ) ^ ((d.seconds.rounded 6).exponent + 1) ≤ 10 ^ (6 : Int) :=
        zpow_le_zpow_right₀ (by norm_num) (by omega)
      have hlt := lt_of_lt_of_le h.lt_exponent hsix
      rw [hplaces, cast_microsPerSecond, div_lt_iff₀ (by norm_num),
        show (10 : ℚ) ^ (6 : Int) * 1000000 = (10 ^ 12 : Nat) by norm_num] at hlt
      exact_mod_cast hlt
    have hmicros := (read_positional hproper (by omega) (hvalue.trans hplaces)).mp hread
    exact .inr ⟨hlow, by omega, k, hk, j, by omega⟩

/-- **The text of a duration is read as the duration just if six digits are enough for it.** -/
theorem read_toText_iff (d : Duration) : read d.toText = .ok d ↔ IsWritten d.micros.natAbs := by
  by_cases hzero : d.micros = 0
  · obtain rfl : d = zero := by
      cases d
      simp only [zero, mk.injEq]
      exact hzero
    exact ⟨fun _ => .inl rfl, fun _ => read_toText_zero⟩
  obtain ⟨E, n, hr⟩ := exists_isRounded hzero
  rw [toText_eq]
  constructor
  · intro hread
    by_cases hform : -4 ≤ (d.seconds.rounded 6).exponent ∧ (d.seconds.rounded 6).exponent < 6
    · rw [if_pos hform] at hread
      exact hr.isWritten hform hread
    · -- The letter of the exponent is none of a spelled duration.
      obtain ⟨c, hc, he⟩ := exists_mem_scientific (d.seconds.rounded 6).dropZeros
      rw [if_neg hform, read_of_not_isSpelling
        (not_isSpelling_of_mem (List.mem_append_right _ (List.mem_append_left _ hc)) he)] at hread
      cases hread
  · rintro (hm | ⟨hlow, hhigh, k, hk, j, hm⟩)
    · omega
    · obtain ⟨hproper, hvalue, -⟩ := Decimal.value_dropZeros hr.isProper
      have hexact := hr.value_eq hk hm
      rw [if_pos (hr.exponent_bounds hexact hlow hhigh)]
      refine (read_positional hproper (by omega) (hvalue.trans hexact)).mpr ?_
      omega

end LogStream.Duration
