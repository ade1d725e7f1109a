import Mathlib
import LogStream.Number.Decimal
import LogStream.Text.Quoted

/-! # Numerals read back

The digits of a number have the number (`exists_toDigits`, `Decimal.numberOf_digitsOf`). A text of decimal digits
of any script is read as their number, unless there are too many (`readInt?_eq`), and so the numeral of an integer
is read as the integer (`readInt?_ofInt`). -/

namespace LogStream

namespace Text

/-! ### Numbers of digits -/

theorem foldl_digits (base : Nat) : ∀ (ds : List Nat) (n : Nat),
    ds.foldl (fun n d => n * base + d) n = n * base ^ ds.length + numberOf base ds
  | [], n => by simp [numberOf]
  | d :: ds, n => by
    unfold numberOf
    rw [List.foldl_cons, List.foldl_cons, foldl_digits base ds, foldl_digits base ds (0 * base + d),
      List.length_cons, Nat.pow_succ', Nat.zero_mul, Nat.zero_add, Nat.add_mul, Nat.mul_assoc, Nat.add_assoc]

theorem numberOf_append (base : Nat) (ds es : List Nat) :
    numberOf base (ds ++ es) = numberOf base ds * base ^ es.length + numberOf base es := by
  rw [← foldl_digits]
  exact List.foldl_append

theorem numberOf_append_singleton (base : Nat) (ds : List Nat) (d : Nat) :
    numberOf base (ds ++ [d]) = numberOf base ds * base + d := by
  simp [numberOf]

theorem numberOf_replicate (base k : Nat) : numberOf base (List.replicate k 0) = 0 := by
  induction k with
  | zero => rfl
  | succ k ih => rw [List.replicate_succ', numberOf_append_singleton, ih, Nat.zero_mul]

theorem numberOf_replicate_append (base k : Nat) (ds : List Nat) :
    numberOf base (List.replicate k 0 ++ ds) = numberOf base ds := by
  rw [numberOf_append, numberOf_replicate, Nat.zero_mul, Nat.zero_add]

theorem numberOf_append_replicate (base k : Nat) (ds : List Nat) :
    numberOf base (ds ++ List.replicate k 0) = numberOf base ds * base ^ k := by
  rw [numberOf_append, numberOf_replicate, List.length_replicate, Nat.add_zero]

theorem numberOf_cons (base d : Nat) (ds : List Nat) :
    numberOf base (d :: ds) = d * base ^ ds.length + numberOf base ds := by
  rw [← List.singleton_append, numberOf_append]
  simp [numberOf]

theorem numberOf_lt {base : Nat} : ∀ {ds : List Nat}, (∀ d ∈ ds, d < base) →
    numberOf base ds < base ^ ds.length
  | [], _ => Nat.one_pos
  | d :: ds, h => by
    obtain ⟨hd, hds⟩ := List.forall_mem_cons.mp h
    have hlt := numberOf_lt hds
    rw [numberOf_cons, List.length_cons, Nat.pow_succ']
    calc d * base ^ ds.length + numberOf base ds
        < (d + 1) * base ^ ds.length := by rw [Nat.succ_mul]; omega
      _ ≤ base * base ^ ds.length := Nat.mul_le_mul_right _ hd

/-- **The digits of a number have the number.** -/
theorem exists_toDigits (base : Nat) (h : 1 < base) (n : Nat) : ∃ ds, (∀ d ∈ ds, d < base) ∧
    Nat.toDigits base n = ds.map Nat.digitChar ∧ numberOf base ds = n := by
  induction n using Nat.strongRecOn with
  | ind n ih =>
    rw [Nat.toDigits_eq_if h]
    split
    · next hlt => exact ⟨[n], by simpa using hlt, rfl, by simp [numberOf]⟩
    · next hle =>
      obtain ⟨ds, hds, hchars, hn⟩ := ih (n / base) (Nat.div_lt_self (by omega) h)
      refine ⟨ds ++ [n % base], ?_, by rw [hchars, List.map_append]; rfl, ?_⟩
      · refine List.forall_mem_append.mpr ⟨hds, List.forall_mem_singleton.mpr (Nat.mod_lt n (by omega))⟩
      · rw [numberOf_append_singleton, hn, Nat.mul_comm]
        exact Nat.div_add_mod n base

/-! ### Hexadecimal digits -/

theorem hexValue?_digitChar : ∀ d < 16, (CodePoint.ofChar (Nat.digitChar d)).hexValue? = some d := by
  decide

/-- The digits of a number are read back as the number. -/
theorem exists_mapM_toDigits (n : Nat) :
    ∃ ds, ((Nat.toDigits 16 n).map CodePoint.ofChar).mapM CodePoint.hexValue? = some ds ∧
      numberOf 16 ds = n := by
  obtain ⟨ds, hds, hchars, hn⟩ := exists_toDigits 16 (by decide) n
  refine ⟨ds, ?_, hn⟩
  rw [hchars]
  clear hchars hn
  induction ds with
  | nil => rfl
  | cons d ds ih =>
    obtain ⟨hd, hds⟩ := List.forall_mem_cons.mp hds
    rw [List.map_cons, List.map_cons, List.mapM_cons, hexValue?_digitChar d hd, ih hds]
    rfl

/-- A number that fits is written with exactly as many digits as asked for. -/
theorem exists_mapM_hex {width n : Nat} (hwidth : 0 < width) (h : n < 16 ^ width) :
    (hex width n).length = width ∧
      ∃ ds, (hex width n).mapM CodePoint.hexValue? = some ds ∧ numberOf 16 ds = n := by
  have hzero : (CodePoint.ofChar '0').hexValue? = some 0 := by decide
  have hlength : (Nat.toDigits 16 n).length ≤ width :=
    (Nat.length_toDigits_le_iff (by decide) hwidth).mpr h
  constructor
  · simp [hex, padLeft]
    omega
  · obtain ⟨ds, hds, hn⟩ := exists_mapM_toDigits n
    have hpad (k : Nat) : (List.replicate k (CodePoint.ofChar '0')).mapM CodePoint.hexValue? =
        some (List.replicate k 0) := by
      induction k with
      | zero => rfl
      | succ k ih => simp [List.replicate_succ, hzero, ih]
    let zeros := width - ((Nat.toDigits 16 n).map CodePoint.ofChar).length
    refine ⟨List.replicate zeros 0 ++ ds, ?_, (numberOf_replicate_append 16 zeros ds).trans hn⟩
    rw [hex, padLeft, List.mapM_append, hpad, hds]
    rfl

end Text

/-! ### Decimal digits -/

namespace Decimal

theorem digitsOf_spec (n : Nat) : (∀ d ∈ digitsOf n, d < 10) ∧
    Nat.toDigits 10 n = (digitsOf n).map Nat.digitChar ∧ Text.numberOf 10 (digitsOf n) = n := by
  obtain ⟨ds, hds, hchars, hn⟩ := Text.exists_toDigits 10 (by decide) n
  have hvalue : ∀ d < 10, (Nat.digitChar d).toNat - 48 = d := by decide
  have heq : digitsOf n = ds := by
    unfold digitsOf
    rw [hchars, List.map_map]
    exact (List.map_congr_left fun d hd => hvalue d (hds d hd)).trans (List.map_id ds)
  rw [heq]
  exact ⟨hds, hchars, hn⟩

theorem digitsOf_lt {n d : Nat} (h : d ∈ digitsOf n) : d < 10 := (digitsOf_spec n).1 d h

@[simp] theorem numberOf_digitsOf (n : Nat) : Text.numberOf 10 (digitsOf n) = n := (digitsOf_spec n).2.2

theorem length_digitsOf_le_iff {n k : Nat} (h : 0 < k) : (digitsOf n).length ≤ k ↔ n < 10 ^ k := by
  unfold digitsOf
  rw [List.length_map]
  exact Nat.length_toDigits_le_iff (by decide) h

theorem digitsOf_ne_nil (n : Nat) : digitsOf n ≠ [] := by
  unfold digitsOf
  rw [ne_eq, List.map_eq_nil_iff]
  exact Nat.toDigits_ne_nil

/-- No zero stands in front of other digits. -/
theorem eq_nil_of_digitsOf {n : Nat} {ds : List Nat} (h : digitsOf n = 0 :: ds) : ds = [] := by
  by_contra hne
  have hlt : ∀ d ∈ ds, d < 10 := fun d hd => digitsOf_lt (h ▸ List.mem_cons_of_mem 0 hd)
  have hn : n < 10 ^ ds.length := by
    rw [← numberOf_digitsOf n, h, Text.numberOf_cons, Nat.zero_mul, Nat.zero_add]
    exact Text.numberOf_lt hlt
  have hlength := (length_digitsOf_le_iff (List.length_pos_iff.mpr hne)).mpr hn
  rw [h, List.length_cons] at hlength
  omega

/-- Digits as text are the numeral of their number. -/
theorem digitText_digitsOf (n : Nat) : digitText (digitsOf n) = Text.ofNat n := by
  have hpoint : ∀ d < 10, CodePoint.ofNat (48 + d) = CodePoint.ofChar (Nat.digitChar d) := by decide
  unfold digitText Text.ofNat Text.ofNatBase
  rw [(digitsOf_spec n).2.1, List.map_map]
  exact List.map_congr_left fun d hd => hpoint d (digitsOf_lt hd)

theorem mapM_decimal?_digitText : ∀ {ds : List Nat}, (∀ d ∈ ds, d < 10) →
    (digitText ds).mapM CodePoint.decimal? = some ds
  | [], _ => rfl
  | d :: ds, h => by
    have hvalue : ∀ d < 10, (CodePoint.ofNat (48 + d)).decimal? = some d := by decide
    obtain ⟨hd, hds⟩ := List.forall_mem_cons.mp h
    have ih := mapM_decimal?_digitText hds
    unfold digitText at ih ⊢
    rw [List.map_cons, List.mapM_cons, hvalue d hd, ih]
    rfl

end Decimal

namespace Text

/-! ### Digits of all scripts -/

theorem digitZeros_apart : ∀ z ∈ digitZeros, ∀ d < 10,
    (CodePoint.ofNat (z + d)).isSpace = false := by decide +kernel

/-- A decimal digit is a digit of ASCII, or beyond ASCII and no white space. -/
theorem decimal?_cases {c : CodePoint} {d : Nat} (h : c.decimal? = some d) :
    48 ≤ c.val ∧ c.val ≤ 57 ∨ 128 ≤ c.val ∧ c.isSpace = false := by
  unfold CodePoint.decimal? at h
  split at h
  · split at h
    · next hd =>
      simp only [CodePoint.isAsciiDigit, Bool.and_eq_true, decide_eq_true_eq] at hd
      exact Or.inl hd
    · cases h
  · next hlow =>
    obtain ⟨z, hz, -⟩ := Option.map_eq_some_iff.mp h
    have hrange := List.find?_some hz
    simp only [Bool.and_eq_true, decide_eq_true_eq] at hrange
    have hspace := digitZeros_apart z (List.mem_of_find?_eq_some hz) (c.val - z) (by omega)
    have hc : CodePoint.ofNat (z + (c.val - z)) = c := by
      refine Fin.ext ?_
      unfold CodePoint.ofNat
      rw [Fin.val_ofNat, Nat.add_sub_cancel' hrange.1, Nat.mod_eq_of_lt c.isLt]
    rw [hc] at hspace
    exact Or.inr ⟨by omega, hspace⟩

theorem isNumeralSpace_of_decimal? {c : CodePoint} {d : Nat} (h : c.decimal? = some d) :
    isNumeralSpace c = false := by
  have hblank : (' ' : Char).toNat = 32 := rfl
  unfold isNumeralSpace CodePoint.isAscii CodePoint.is
  rcases decimal?_cases h with hd | ⟨hd, hs⟩
  · rw [if_pos (by rw [decide_eq_true_eq]; omega), hblank]
    simp only [Bool.or_eq_false_iff, Bool.and_eq_false_iff, decide_eq_false_iff_not,
      beq_eq_false_iff_ne]
    omega
  · rw [if_neg (by rw [decide_eq_true_eq]; omega)]
    exact hs

/-- A decimal digit is none of the other characters of ASCII. -/
theorem is_of_decimal? {c : CodePoint} {d : Nat} (h : c.decimal? = some d) {ch : Char}
    (hch : ch.toNat < 48 ∨ 57 < ch.toNat ∧ ch.toNat < 128) : c.is ch = false := by
  refine beq_false_of_ne fun hval => ?_
  rcases decimal?_cases h with hd | ⟨hd, -⟩
  · omega
  · omega

theorem isIn_of_decimal? {c : CodePoint} {d : Nat} (h : c.decimal? = some d) {s : String}
    (hs : s.toList.all (fun ch => ch.toNat < 48 ∨ 57 < ch.toNat ∧ ch.toNat < 128) = true) :
    c.isIn s = false := by
  unfold CodePoint.isIn
  rw [List.any_eq_false]
  intro ch hch
  rw [is_of_decimal? h (of_decide_eq_true (List.all_eq_true.mp hs ch hch))]
  exact Bool.false_ne_true

theorem exists_value_of_mem {f : CodePoint → Option Nat} : ∀ {t : Text} {ds : List Nat},
    t.mapM f = some ds → ∀ c ∈ t, ∃ d, f c = some d
  | [], _, _ => List.forall_mem_nil _
  | c :: r, ds, h => by
    rw [List.mapM_cons] at h
    obtain ⟨d, hd, h⟩ := Option.bind_eq_some_iff.mp h
    obtain ⟨ds', hds, -⟩ := Option.bind_eq_some_iff.mp h
    exact List.forall_mem_cons.mpr ⟨⟨d, hd⟩, exists_value_of_mem hds⟩

theorem spacedDigits?_eq : ∀ {t : Text} {ds : List Nat}, t.mapM CodePoint.decimal? = some ds →
    ∀ afterDigit, afterDigit = true ∨ t ≠ [] → spacedDigits? afterDigit t = some ds
  | [], ds, h, b, hb => by
    cases h
    rcases hb with rfl | hb
    · rfl
    · exact absurd rfl hb
  | c :: r, ds, h, b, _ => by
    rw [List.mapM_cons] at h
    obtain ⟨d, hd, h⟩ := Option.bind_eq_some_iff.mp h
    obtain ⟨ds', hds, h⟩ := Option.bind_eq_some_iff.mp h
    cases h
    rw [spacedDigits?, hd]
    dsimp only
    rw [spacedDigits?_eq hds true (Or.inl rfl), Option.map_some]

theorem dropWhile_eq_self {p : CodePoint → Bool} {t : Text} (h : ∀ c ∈ t, p c = false) :
    t.dropWhile p = t := by
  cases t with
  | nil => rfl
  | cons c r =>
    rw [List.dropWhile_cons_of_neg]
    rw [h c List.mem_cons_self]
    exact Bool.false_ne_true

theorem stripNumeral_eq {t : Text} (h : ∀ c ∈ t, isNumeralSpace c = false) :
    stripNumeral t = t := by
  have hr : ∀ c ∈ t.reverse, isNumeralSpace c = false :=
    fun c hc => h c (List.mem_reverse.mp hc)
  unfold stripNumeral
  rw [dropWhile_eq_self h, dropWhile_eq_self hr, List.reverse_reverse]

theorem length_eq_of_mapM {f : CodePoint → Option Nat} : ∀ {t : Text} {ds : List Nat},
    t.mapM f = some ds → ds.length = t.length
  | [], ds, h => by
    cases h
    rfl
  | c :: r, ds, h => by
    rw [List.mapM_cons] at h
    obtain ⟨d, -, h⟩ := Option.bind_eq_some_iff.mp h
    obtain ⟨ds', hds, h⟩ := Option.bind_eq_some_iff.mp h
    cases h
    rw [List.length_cons, List.length_cons, length_eq_of_mapM hds]

/-- **A text of decimal digits is read as their number**, if there are not too many. -/
theorem readInt?_eq {t : Text} {ds : List Nat} (h : t.mapM CodePoint.decimal? = some ds)
    (hne : t ≠ []) : readInt? t =
      if maxDigits < t.length then none else some (numberOf 10 ds : Int) := by
  have hvalue := exists_value_of_mem h
  have hstrip : stripNumeral t = t := by
    refine stripNumeral_eq fun c hc => ?_
    obtain ⟨d, hd⟩ := hvalue c hc
    exact isNumeralSpace_of_decimal? hd
  have hsign : takeSign t = (false, t) := by
    cases t with
    | nil => exact absurd rfl hne
    | cons c r =>
      obtain ⟨d, hd⟩ := hvalue c List.mem_cons_self
      rw [takeSign, is_of_decimal? hd (by decide), is_of_decimal? hd (by decide)]
      rfl
  unfold readInt?
  rw [hstrip, hsign]
  dsimp only
  rw [spacedDigits?_eq h false (Or.inr hne)]
  dsimp only
  rw [length_eq_of_mapM h]
  rfl

/-- The digits of a numeral are decimal digits. -/
theorem mapM_decimal?_ofNat (n : Nat) :
    (ofNat n).mapM CodePoint.decimal? = some (Decimal.digitsOf n) := by
  rw [← Decimal.digitText_digitsOf]
  exact Decimal.mapM_decimal?_digitText fun _ => Decimal.digitsOf_lt

theorem ofNat_ne_nil (n : Nat) : ofNat n ≠ [] := by
  unfold ofNat ofNatBase
  rw [ne_eq, List.map_eq_nil_iff]
  exact Nat.toDigits_ne_nil

theorem readInt?_neg {t : Text} {ds : List Nat} (h : t.mapM CodePoint.decimal? = some ds) (hne : t ≠ []) :
    readInt? (CodePoint.ofChar '-' :: t) =
      if maxDigits < t.length then none else some (-(numberOf 10 ds : Int)) := by
  have hvalue := exists_value_of_mem h
  have hstrip : stripNumeral (CodePoint.ofChar '-' :: t) = CodePoint.ofChar '-' :: t := by
    refine stripNumeral_eq (List.forall_mem_cons.mpr ⟨by decide, fun c hc => ?_⟩)
    obtain ⟨d, hd⟩ := hvalue c hc
    exact isNumeralSpace_of_decimal? hd
  have hsign : takeSign (CodePoint.ofChar '-' :: t) = (true, t) := rfl
  unfold readInt?
  rw [hstrip, hsign]
  dsimp only
  rw [spacedDigits?_eq h false (Or.inr hne)]
  dsimp only
  rw [length_eq_of_mapM h]
  rfl

/-- **The numeral of an integer is read as the integer**, if it is not too long. -/
theorem readInt?_ofInt (m : Int) :
    readInt? (ofInt m) = if maxDigits < (ofNat m.natAbs).length then none else some m := by
  have hdigits := mapM_decimal?_ofNat m.natAbs
  have hne := ofNat_ne_nil m.natAbs
  unfold ofInt ofIntBase
  split
  · next hneg =>
    rw [show ofNatBase 10 m.natAbs = ofNat m.natAbs from rfl, readInt?_neg hdigits hne,
      Decimal.numberOf_digitsOf]
    simp only [show -(m.natAbs : Int) = m by omega]
  · next hneg =>
    rw [show ofNatBase 10 m.natAbs = ofNat m.natAbs from rfl, readInt?_eq hdigits hne,
      Decimal.numberOf_digitsOf]
    simp only [show (m.natAbs : Int) = m by omega]

/-- A numeral of up to 4300 digits is not too long. -/
theorem not_maxDigits_lt {n k : Nat} (h : n < 10 ^ k) (hpos : 0 < k) (hk : k ≤ maxDigits) :
    ¬ maxDigits < (ofNat n).length := by
  have hlength : (ofNat n).length ≤ k := by
    unfold ofNat ofNatBase
    rw [List.length_map]
    exact (Nat.length_toDigits_le_iff (by decide) hpos).mpr h
  omega

end Text

end LogStream
