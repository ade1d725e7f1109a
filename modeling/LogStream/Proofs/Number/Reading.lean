import Mathlib
import LogStream.Proofs.Text.Runs
import LogStream.Proofs.Text.Numeral

/-! # Decimal numbers read

A text of decimal digits of any script, with a point among them or none, is read as the double nearest to the number
(`read?_digits`, `read?_pointed`). -/

namespace LogStream.Double

open Text (numberOf)

/-! ### Rounding -/

@[simp] theorem divHalfEven_zero (den : Nat) : divHalfEven 0 den = 0 := by
  unfold divHalfEven
  rw [Nat.zero_div, Nat.zero_mod]
  exact (ite_eq_left_iff.mpr fun _ => if_neg (by omega))

@[simp] theorem ofUnits_zero (s : Bool) (den : Nat) : ofUnits s 0 den = zero s := by
  unfold ofUnits
  simp only [Nat.zero_div, divHalfEven_zero]
  exact if_neg (by decide)

theorem ofRatio_zero (s : Bool) (den : Nat) : ofRatio s 0 den = zero s := by
  unfold ofRatio
  rw [Nat.zero_mul, ofUnits_zero]

/-- A number with a fraction is rounded once. -/
theorem ofDecimal_neg (s : Bool) {n count k : Nat} (h : k ≤ count) :
    ofDecimal s n count (-(k : Int)) = ofRatio s n (10 ^ k) := by
  have hpow : Decimal.pow10 (-(k : Int)) = (1, 10 ^ k) := by
    unfold Decimal.pow10
    cases k with
    | zero => rfl
    | succ k =>
      rw [if_neg (by omega), Int.neg_neg, Int.toNat_natCast]
      rfl
  unfold ofDecimal
  split
  · next hzero => rw [hzero, ofRatio_zero]
  · rw [if_neg (by omega), if_neg (by omega), hpow]
    dsimp only
    rw [Nat.mul_one]

/-! ### Digits -/

section

variable {t u : Text} {ds es : List Nat}

/-- Digits are taken up to what is no digit. -/
theorem takeDigits?_append {rest : Text} (hrest : ∀ c ∈ rest.head?, c.decimal? = none ∧ c.is '_' = false) :
    ∀ {t : Text} {ds : List Nat}, t.mapM CodePoint.decimal? = some ds →
      ∀ afterDigit, takeDigits? afterDigit (t ++ rest) = some (ds, rest)
  | [], ds, h, b => by
    obtain rfl : [] = ds := Option.some.inj h
    cases rest with
    | nil => rfl
    | cons c r =>
      obtain ⟨hc, hlow⟩ := hrest c rfl
      rw [List.nil_append, takeDigits?.eq_def]
      dsimp only
      rw [hc]
      dsimp only
      rw [hlow, if_neg Bool.false_ne_true]
  | c :: t, ds, h, b => by
    rw [List.mapM_cons] at h
    obtain ⟨d, hd, h⟩ := Option.bind_eq_some_iff.mp h
    obtain ⟨ds', hds, h⟩ := Option.bind_eq_some_iff.mp h
    obtain rfl : d :: ds' = ds := Option.some.inj h
    rw [List.cons_append, takeDigits?.eq_def]
    dsimp only
    rw [hd]
    dsimp only
    rw [takeDigits?_append hrest hds true]
    rfl

theorem takeDigits?_all (h : t.mapM CodePoint.decimal? = some ds) : takeDigits? false t = some (ds, []) := by
  have hnone : ∀ c ∈ ([] : Text).head?, c.decimal? = none ∧ c.is '_' = false := by simp
  have happend := takeDigits?_append hnone h false
  rwa [List.append_nil] at happend

/-- The character is a decimal digit or a point. -/
def IsNumeric (c : CodePoint) : Prop := (∃ d, c.decimal? = some d) ∨ c = CodePoint.ofChar '.'

theorem isNumeralSpace_of_isNumeric {c : CodePoint} (h : IsNumeric c) : Text.isNumeralSpace c = false := by
  rcases h with ⟨d, hd⟩ | rfl
  · exact Text.isNumeralSpace_of_decimal? hd
  · decide

/-- A digit or a point is no sign and no letter. -/
theorem is_of_isNumeric {c : CodePoint} (h : IsNumeric c) (ch : Char)
    (hch : ch.toNat < 46 ∨ 57 < ch.toNat ∧ ch.toNat < 128) : c.is ch = false := by
  rcases h with ⟨d, hd⟩ | rfl
  · exact Text.is_of_decimal? hd (by omega)
  · exact CodePoint.is_eq_false_of_ne (CodePoint.is_ofChar '.') fun he => by
      have hpoint : ('.' : Char).toNat = 46 := rfl
      omega

theorem isAsciiUpper_of_isNumeric {c : CodePoint} (h : IsNumeric c) : c.isAsciiUpper = false := by
  rcases h with ⟨d, hd⟩ | rfl
  · unfold CodePoint.isAsciiUpper
    rw [Bool.and_eq_false_iff, decide_eq_false_iff_not, decide_eq_false_iff_not]
    rcases Text.decimal?_cases hd with hc | ⟨hc, -⟩ <;> omega
  · decide

/-- What starts with a digit or a point is no word. -/
theorem lowerAscii_ne_lit {c : CodePoint} (h : IsNumeric c) (r : Text) {w : String} {ch : Char} {s : List Char}
    (hw : w.toList = ch :: s) (hch : 57 < ch.toNat ∧ ch.toNat < 128) :
    Text.lowerAscii (c :: r) ≠ Text.lit w := by
  intro heq
  have hhead : c = CodePoint.ofChar ch := by
    unfold Text.lowerAscii Text.lit at heq
    rw [List.map_cons, isAsciiUpper_of_isNumeric h, if_neg Bool.false_ne_true, hw, List.map_cons] at heq
    exact (List.cons.inj heq).1
  have hnot := is_of_isNumeric h ch (.inr hch)
  rw [hhead, CodePoint.is_ofChar] at hnot
  exact Bool.noConfusion hnot

/-- Digits and a point are read as a number without a sign. -/
theorem read?_eq_readUnsigned? (h : ∀ c ∈ t, IsNumeric c) (hne : t ≠ []) : read? t = readUnsigned? false t := by
  have hstrip := Text.stripNumeral_eq fun c hc => isNumeralSpace_of_isNumeric (h c hc)
  obtain ⟨c, r, rfl⟩ := List.exists_cons_of_ne_nil hne
  have hhead := h c List.mem_cons_self
  have hsign : Text.takeSign (c :: r) = (false, c :: r) := by
    rw [Text.takeSign, is_of_isNumeric hhead '-' (by decide), is_of_isNumeric hhead '+' (by decide)]
    rfl
  have hinf := lowerAscii_ne_lit hhead r (show "inf".toList = 'i' :: _ from rfl) (by decide)
  have hinfinity := lowerAscii_ne_lit hhead r (show "infinity".toList = 'i' :: _ from rfl) (by decide)
  have hnan := lowerAscii_ne_lit hhead r (show "nan".toList = 'n' :: _ from rfl) (by decide)
  unfold read?
  rw [hstrip, hsign]
  dsimp only
  rw [if_neg (not_or.mpr ⟨hinf, hinfinity⟩), if_neg hnan]

theorem isNumeric_of_mapM (h : t.mapM CodePoint.decimal? = some ds) : ∀ c ∈ t, IsNumeric c :=
  fun c hc => .inl (Text.exists_value_of_mem h c hc)

/-- **Digits are read as the double nearest to their number.** -/
theorem read?_digits (h : t.mapM CodePoint.decimal? = some ds) (hne : t ≠ []) :
    read? t = some (ofRatio false (numberOf 10 ds) 1) := by
  have hds : ds ≠ [] := fun he => hne (List.length_eq_zero_iff.mp (by rw [← Text.length_eq_of_mapM h, he]; rfl))
  rw [read?_eq_readUnsigned? (isNumeric_of_mapM h) hne, readUnsigned?, takeDigits?_all h]
  dsimp only
  rw [if_neg (fun hnil => hds hnil.1)]
  change some (ofDecimal false (numberOf 10 (ds ++ [])) (ds ++ []).length (-((0 : Nat) : Int))) = _
  rw [List.append_nil, ofDecimal_neg false (Nat.zero_le _)]
  rfl

/-- **Digits with a point among them are read as the double nearest to their number.** -/
theorem read?_pointed (ht : t.mapM CodePoint.decimal? = some ds) (hu : u.mapM CodePoint.decimal? = some es)
    (hne : t ≠ [] ∨ u ≠ []) : read? (t ++ CodePoint.ofChar '.' :: u) =
      some (ofRatio false (numberOf 10 (ds ++ es)) (10 ^ es.length)) := by
  have hnil {t : Text} {ds : List Nat} (h : t.mapM CodePoint.decimal? = some ds) (hds : ds = []) : t = [] :=
    List.length_eq_zero_iff.mp (by rw [← Text.length_eq_of_mapM h, hds]; rfl)
  have hnumeric : ∀ c ∈ t ++ CodePoint.ofChar '.' :: u, IsNumeric c :=
    List.forall_mem_append.mpr ⟨isNumeric_of_mapM ht, List.forall_mem_cons.mpr ⟨.inr rfl, isNumeric_of_mapM hu⟩⟩
  have hwhole : takeDigits? false (t ++ CodePoint.ofChar '.' :: u) = some (ds, CodePoint.ofChar '.' :: u) :=
    takeDigits?_append (by simp; decide) ht false
  rw [read?_eq_readUnsigned? hnumeric (by simp), readUnsigned?, hwhole]
  dsimp only
  rw [CodePoint.is_ofChar, if_pos rfl, takeDigits?_all hu]
  dsimp only
  rw [if_neg (fun hnone => hne.elim (fun h => h (hnil ht hnone.1)) fun h => h (hnil hu hnone.2))]
  change some (ofDecimal false _ (ds ++ es).length (0 - (es.length : Int))) = _
  rw [Int.zero_sub, ofDecimal_neg false (by simp)]

end

end LogStream.Double
