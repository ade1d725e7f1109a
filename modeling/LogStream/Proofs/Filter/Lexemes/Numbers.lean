import Mathlib
import LogStream.Proofs.Filter.Lexemes.Classes

/-! # The lexemes of numbers

Doubles and integers are measured (`measures_float`, `measures_int`), and in front of a blank they are taken
as they are (`IsFloat.length_eq`, `length_of_isInteger`): digits end there, and neither a fraction nor an
exponent nor the mark of an unsigned integer can follow. -/

namespace LogStream.Filter

open Text (exists_value_of_mem)

section

variable {w rest t ds f e : Text} {c : CodePoint} {r : Text}

/-! ### Digits behind a mark -/

/-- The length of a mark and of the run behind it, of which there has to be one. -/
def runBehind (p : CodePoint → Bool) (mark : Nat) (t : Text) : Nat :=
  if runLength p t = 0 then 0 else mark + runLength p t

section RunBehind

variable {p : CodePoint → Bool} {mark : Nat}

theorem runLength_ne_zero (hne : w ≠ []) (hw : ∀ c ∈ w, p c = true) (rest : Text) :
    runLength p (w ++ rest) ≠ 0 := by
  obtain ⟨c, r, rfl⟩ := List.exists_cons_of_ne_nil hne
  have hc := hw c (by simp)
  simp [runLength, hc]

theorem runBehind_append (hne : w ≠ []) (hw : ∀ c ∈ w, p c = true)
    (hrest : ∀ c ∈ rest.head?, p c = false) : runBehind p mark (w ++ rest) = mark + w.length := by
  have hpos := List.length_pos_iff.mpr hne
  rw [runBehind, runLength_append hw hrest, if_neg (by omega)]

theorem runBehind_ne_zero (hne : w ≠ []) (hw : ∀ c ∈ w, p c = true) (rest : Text) :
    runBehind p mark (w ++ rest) ≠ 0 := by
  have hrun := runLength_ne_zero hne hw rest
  rw [runBehind, if_neg hrun]
  omega

theorem exists_of_runBehind (h : runBehind p mark t ≠ 0) : ∃ w rest, t = w ++ rest ∧ w ≠ [] ∧
    (∀ c ∈ w, p c = true) ∧ runBehind p mark t = mark + w.length := by
  unfold runBehind at h ⊢
  split_ifs at h ⊢ with hrun
  · exact absurd rfl h
  · obtain ⟨w, rest, ht, hw, -, hlength⟩ := exists_run p t
    rw [hlength] at hrun ⊢
    exact ⟨w, rest, ht, List.ne_nil_of_length_pos (Nat.pos_of_ne_zero hrun), hw, rfl⟩

end RunBehind

/-! ### Numbers with a fraction or an exponent -/

theorem AreDigits.exists_cons (h : AreDigits ds) : ∃ c r, ds = c :: r ∧ c.isDecimal = true := by
  obtain ⟨c, r, rfl⟩ := List.exists_cons_of_ne_nil h.1
  exact ⟨c, r, rfl, h.2 c (by simp)⟩

theorem fractionLength_cons (hp : c.is '.' = true) (r : Text) :
    fractionLength (c :: r) = runBehind CodePoint.isDecimal 1 r := by
  simp [fractionLength, runBehind, hp]

theorem fractionLength_eq_zero (h : ∀ c ∈ rest.head?, c.is '.' = false) : fractionLength rest = 0 := by
  cases rest with
  | nil => rfl
  | cons c r => simp [fractionLength, h c (by simp)]

theorem IsFraction.length_eq (h : IsFraction f) (hrest : ∀ c ∈ rest.head?, c.isDecimal = false) :
    fractionLength (f ++ rest) = f.length := by
  cases h with
  | digits hp h =>
    rw [List.cons_append, fractionLength_cons hp, runBehind_append h.1 h.2 hrest, List.length_cons,
      Nat.add_comm]

theorem measures_fraction : Measures fractionLength IsFraction where
  found {t} h := by
    cases t with
    | nil => exact absurd rfl h
    | cons c r =>
      by_cases hp : c.is '.' = true
      · rw [fractionLength_cons hp] at h ⊢
        obtain ⟨ds, rest, rfl, hne, hds, hlength⟩ := exists_of_runBehind h
        exact ⟨c :: ds, rest, rfl, .digits hp ⟨hne, hds⟩, by rw [hlength, List.length_cons, Nat.add_comm]⟩
      · exact absurd (fractionLength_eq_zero (by simpa using hp)) h
  meets {w} h rest := by
    cases h with
    | digits hp h =>
      rw [List.cons_append, fractionLength_cons hp]
      exact runBehind_ne_zero h.1 h.2 rest

/-- The digits behind the letter of an exponent and their sign. -/
def signedLength (r : Text) : Nat :=
  let sign := if (r.take 1).any (·.isIn "+-") then 1 else 0
  let digits := runLength CodePoint.isDecimal (r.drop sign)
  if digits = 0 then 0 else 1 + sign + digits

theorem exponentLength_cons (hm : c.isIn "eE" = true) (r : Text) :
    exponentLength (c :: r) = signedLength r := by
  simp [exponentLength, signedLength, hm]

theorem exponentLength_eq_zero (h : ∀ c ∈ rest.head?, c.isIn "eE" = false) :
    exponentLength rest = 0 := by
  cases rest with
  | nil => rfl
  | cons c r => simp [exponentLength, h c (by simp)]

theorem signedLength_sign (hs : c.isIn "+-" = true) (r : Text) :
    signedLength (c :: r) = runBehind CodePoint.isDecimal 2 r := by
  simp [signedLength, runBehind, hs]

theorem signedLength_digit (hs : ∀ c ∈ rest.head?, c.isIn "+-" = false) :
    signedLength rest = runBehind CodePoint.isDecimal 1 rest := by
  cases rest with
  | nil => rfl
  | cons c r => simp [signedLength, runBehind, hs c (by simp)]

theorem AreDigits.not_sign (h : AreDigits ds) (rest : Text) :
    ∀ c ∈ (ds ++ rest).head?, c.isIn "+-" = false := by
  obtain ⟨c, r, rfl, hc⟩ := h.exists_cons
  simpa using isIn_of_isDecimal hc (by decide)

theorem IsExponent.length_eq (h : IsExponent e) (hrest : ∀ c ∈ rest.head?, c.isDecimal = false) :
    exponentLength (e ++ rest) = e.length := by
  cases h with
  | unsigned hm h =>
    rw [List.cons_append, exponentLength_cons hm, signedLength_digit (h.not_sign rest),
      runBehind_append h.1 h.2 hrest, List.length_cons, Nat.add_comm]
  | signed hm hs h =>
    rw [List.cons_append, List.cons_append, exponentLength_cons hm, signedLength_sign hs,
      runBehind_append h.1 h.2 hrest, List.length_cons, List.length_cons, Nat.add_comm]

theorem measures_exponent : Measures exponentLength IsExponent where
  found {t} h := by
    cases t with
    | nil => exact absurd rfl h
    | cons c r =>
      by_cases hm : c.isIn "eE" = true
      · rw [exponentLength_cons hm] at h ⊢
        by_cases hs : ∀ x ∈ r.head?, x.isIn "+-" = false
        · rw [signedLength_digit hs] at h ⊢
          obtain ⟨ds, rest, rfl, hne, hds, hlength⟩ := exists_of_runBehind h
          exact ⟨c :: ds, rest, rfl, .unsigned hm ⟨hne, hds⟩,
            by rw [hlength, List.length_cons, Nat.add_comm]⟩
        · cases r with
          | nil => simp at hs
          | cons sign r =>
            have hsign : sign.isIn "+-" = true := by simpa using hs
            rw [signedLength_sign hsign] at h ⊢
            obtain ⟨ds, rest, rfl, hne, hds, hlength⟩ := exists_of_runBehind h
            exact ⟨c :: sign :: ds, rest, rfl, .signed hm hsign ⟨hne, hds⟩,
              by rw [hlength, List.length_cons, List.length_cons, Nat.add_comm]⟩
      · exact absurd (exponentLength_eq_zero (by simpa using hm)) h
  meets {w} h rest := by
    cases h with
    | unsigned hm h =>
      rw [List.cons_append, exponentLength_cons hm, signedLength_digit (h.not_sign rest)]
      exact runBehind_ne_zero h.1 h.2 rest
    | signed hm hs h =>
      rw [List.cons_append, List.cons_append, exponentLength_cons hm, signedLength_sign hs]
      exact runBehind_ne_zero h.1 h.2 rest

theorem IsFraction.head (h : IsFraction f) (rest : Text) :
    ∀ c ∈ (f ++ rest).head?, c.isDecimal = false := by
  cases h with
  | digits hp _ =>
    obtain rfl := CodePoint.eq_ofChar hp
    simp only [List.cons_append, List.head?_cons, Option.mem_def, Option.some.injEq, forall_eq']
    decide

theorem IsExponent.head (h : IsExponent e) (rest : Text) :
    ∀ c ∈ (e ++ rest).head?, c.isDecimal = false ∧ c.is '.' = false := by
  have hmark {mark : CodePoint} (hm : mark.isIn "eE" = true) :
      mark.isDecimal = false ∧ mark.is '.' = false :=
    ⟨forall_of_isIn hm (p := CodePoint.isDecimal) (by decide),
      forall_of_isIn hm (p := (·.is '.')) (by decide)⟩
  cases h with
  | unsigned hm _ => simpa using hmark hm
  | signed hm _ _ => simpa using hmark hm

/-- Digits are taken with the fraction and the exponent behind them. -/
theorem floatLength_append (h : AreDigits ds) (hrest : ∀ c ∈ rest.head?, c.isDecimal = false) :
    floatLength (ds ++ rest) =
      if fractionLength rest + exponentLength (rest.drop (fractionLength rest)) = 0 then 0
      else ds.length + fractionLength rest + exponentLength (rest.drop (fractionLength rest)) := by
  have hpos := List.length_pos_iff.mpr h.1
  have hdrop (n : Nat) : (ds ++ rest).drop (ds.length + n) = rest.drop n := by simp [List.drop_append]
  unfold floatLength
  dsimp only
  rw [runLength_append h.2 hrest, List.drop_left, hdrop]
  by_cases hzero : fractionLength rest + exponentLength (rest.drop (fractionLength rest)) = 0
  · rw [if_pos (.inr hzero), if_pos hzero]
  · rw [if_neg (by omega), if_neg hzero]

theorem floatLength_eq_zero (h : ∀ c ∈ t.head?, c.isDecimal = false) : floatLength t = 0 := by
  unfold floatLength
  dsimp only
  rw [runLength_eq_zero h, if_pos (.inl rfl)]

/-- A double starts with a digit. -/
theorem IsFloat.exists_cons (h : IsFloat w) : ∃ c r, w = c :: r ∧ c.isDecimal = true := by
  have hfront {ds : Text} (hds : AreDigits ds) (s : Text) : ∃ c r, ds ++ s = c :: r ∧ c.isDecimal = true := by
    obtain ⟨c, r, rfl, hc⟩ := hds.exists_cons
    exact ⟨c, r ++ s, rfl, hc⟩
  cases h with
  | fraction h _ => exact hfront h _
  | exponent h _ => exact hfront h _
  | both h _ _ => exact hfront h _

theorem measures_float : Measures floatLength IsFloat where
  found {t} h := by
    obtain ⟨ds, rest, rfl, hdigits, hrest, hlength⟩ := exists_run CodePoint.isDecimal t
    have hds : AreDigits ds := by
      refine ⟨?_, hdigits⟩
      rintro rfl
      rw [List.length_nil] at hlength
      unfold floatLength at h
      rw [hlength] at h
      exact h (if_pos (.inl rfl))
    rw [floatLength_append hds hrest] at h ⊢
    split_ifs at h ⊢ with hzero
    · exact absurd rfl h
    by_cases hf : fractionLength rest = 0
    · rw [hf, List.drop_zero] at hzero ⊢
      obtain ⟨e, rest, rfl, he, hlength⟩ := measures_exponent.found (t := rest) (by omega)
      exact ⟨ds ++ e, rest, by simp, .exponent hds he, by simp [hlength]⟩
    · obtain ⟨f, rest, rfl, hfraction, hlength⟩ := measures_fraction.found hf
      rw [hlength, List.drop_left] at hzero ⊢
      by_cases he : exponentLength rest = 0
      · exact ⟨ds ++ f, rest, by simp, .fraction hds hfraction, by simp [he]⟩
      · obtain ⟨e, rest, rfl, hexponent, hlength⟩ := measures_exponent.found he
        exact ⟨ds ++ (f ++ e), rest, by simp, .both hds hfraction hexponent,
          by simp [hlength, Nat.add_assoc]⟩
  meets {w} h rest := by
    have hfraction {ds f : Text} (h : AreDigits ds) (hf : IsFraction f) (rest : Text) :
        floatLength (ds ++ (f ++ rest)) ≠ 0 := by
      have hne := measures_fraction.meets hf rest
      rw [floatLength_append h (hf.head rest), if_neg (by omega)]
      omega
    cases h with
    | fraction h hf => rw [List.append_assoc]; exact hfraction h hf rest
    | both h hf he => rw [List.append_assoc, List.append_assoc]; exact hfraction h hf _
    | exponent h he =>
      have hne := measures_exponent.meets he rest
      have hzero := fractionLength_eq_zero fun c hc => (he.head rest c hc).2
      rw [List.append_assoc, floatLength_append h fun c hc => (he.head rest c hc).1, hzero,
        List.drop_zero, if_neg (by omega)]
      omega

/-- A number in front of a blank is taken as it is. -/
theorem IsFloat.length_eq (h : IsFloat w) (hrest : StandsApart rest) :
    floatLength (w ++ rest) = w.length := by
  have hdigit : ∀ c ∈ rest.head?, c.isDecimal = false := hrest.head (by decide)
  have hmark : ∀ c ∈ rest.head?, c.isIn "eE" = false := hrest.head (by decide)
  have hexponent {ds e : Text} (h : AreDigits ds) (he : IsExponent e) :
      exponentLength (e ++ rest) = e.length ∧ e.length ≠ 0 :=
    ⟨he.length_eq hdigit, he.length_eq hdigit ▸ measures_exponent.meets he rest⟩
  have hfraction {f r : Text} (hf : IsFraction f) (hr : ∀ c ∈ r.head?, c.isDecimal = false) :
      fractionLength (f ++ r) = f.length ∧ f.length ≠ 0 :=
    ⟨hf.length_eq hr, hf.length_eq hr ▸ measures_fraction.meets hf r⟩
  cases h with
  | fraction h hf =>
    obtain ⟨hlength, hne⟩ := hfraction hf hdigit
    rw [List.append_assoc, floatLength_append h (hf.head rest), hlength, List.drop_left,
      exponentLength_eq_zero hmark, if_neg (by omega), List.length_append]
    rfl
  | both h hf he =>
    obtain ⟨hlength, hne⟩ := hfraction hf fun c hc => (he.head rest c hc).1
    rw [List.append_assoc, List.append_assoc, floatLength_append h (hf.head _), hlength, List.drop_left,
      he.length_eq hdigit, if_neg (by omega), List.length_append, List.length_append, Nat.add_assoc]
  | exponent h he =>
    obtain ⟨hlength, hne⟩ := hexponent h he
    rw [List.append_assoc, floatLength_append h fun c hc => (he.head rest c hc).1,
      fractionLength_eq_zero fun c hc => (he.head rest c hc).2, List.drop_zero, hlength,
      if_neg (by omega), List.length_append]
    rfl

/-! ### Integers -/

/-- The length of a numeral, in base sixteen if it has the mark of that base. -/
def numeralLength (t : Text) : Nat :=
  if hexLength t = 0 then runLength CodePoint.isDecimal t else hexLength t

theorem intLength_eq (t : Text) : intLength t = if numeralLength t = 0 then 0
    else numeralLength t + unsignedLength (t.drop (numeralLength t)) := rfl

/-- The code point belongs to no number that it stands behind. -/
def endsNumber (c : CodePoint) : Bool :=
  !c.isDecimal && !c.isHexDigit && !c.isIn "xX" && !c.is '.' && !c.isIn "eE"

theorem hexLength_cons {z x : CodePoint} (hz : z.is '0' = true) (hx : x.isIn "xX" = true) (r : Text) :
    hexLength (z :: x :: r) = runBehind CodePoint.isHexDigit 2 r := by
  simp [hexLength, runBehind, hz, hx]

/-- Without the letter of its base a numeral is none in base sixteen. -/
theorem hexLength_eq_zero (hr : ∀ c ∈ r.head?, c.isIn "xX" = false) : hexLength (c :: r) = 0 := by
  cases r with
  | nil => rfl
  | cons x r => simp [hexLength, hr x (by simp)]

theorem hexLength_eq_zero_of_not_digit (hc : c.isDecimal = false) : hexLength (c :: r) = 0 := by
  cases r with
  | nil => rfl
  | cons x r =>
    have hz : c.is '0' = false := by
      cases hz : c.is '0' with
      | false => rfl
      | true =>
        obtain rfl := CodePoint.eq_ofChar hz
        exact absurd hc (by decide)
    simp [hexLength, hz]

theorem areDigits_of_mapM {vs : List Nat} (h : w.mapM CodePoint.decimal? = some vs) (hne : w ≠ []) :
    AreDigits w := by
  refine ⟨hne, fun c hc => ?_⟩
  obtain ⟨d, hd⟩ := exists_value_of_mem h c hc
  simp [CodePoint.isDecimal, hd]

theorem hexDigits_of_mapM {vs : List Nat} (h : w.mapM CodePoint.hexValue? = some vs) :
    ∀ c ∈ w, c.isHexDigit = true := by
  intro c hc
  obtain ⟨d, hd⟩ := exists_value_of_mem h c hc
  simp [CodePoint.isHexDigit, hd]

theorem AreDigits.hexLength_eq_zero (h : AreDigits w) (hrest : ∀ c ∈ rest.head?, c.isIn "xX" = false) :
    hexLength (w ++ rest) = 0 := by
  obtain ⟨c, r, rfl, -⟩ := h.exists_cons
  refine LogStream.Filter.hexLength_eq_zero (r := r ++ rest) ?_
  cases r with
  | nil => exact hrest
  | cons x r => simpa using isIn_of_isDecimal (h.2 x (by simp)) (by decide)

/-- A numeral is taken as it is, in front of what ends a number. -/
theorem IsNumeral.length_eq {n : Nat} (h : IsNumeral w n)
    (hrest : ∀ c ∈ rest.head?, endsNumber c = true) : numeralLength (w ++ rest) = w.length := by
  simp only [endsNumber, Bool.and_eq_true, Bool.not_eq_true'] at hrest
  unfold numeralLength
  cases h with
  | decimal h hne =>
    have hdigits := areDigits_of_mapM h hne
    rw [hdigits.hexLength_eq_zero fun c hc => (hrest c hc).1.1.2, if_pos rfl]
    exact runLength_append hdigits.2 fun c hc => (hrest c hc).1.1.1.1
  | @hex z x r ds hz hx h hne =>
    have hlength : hexLength (z :: x :: (r ++ rest)) = 2 + r.length := by
      rw [hexLength_cons hz hx]
      exact runBehind_append hne (hexDigits_of_mapM h) fun c hc => (hrest c hc).1.1.1.2
    rw [List.cons_append, List.cons_append, hlength, if_neg (by omega), List.length_cons, List.length_cons]
    omega

theorem IsNumeral.numeralLength_ne_zero {n : Nat} (h : IsNumeral w n) (rest : Text) :
    numeralLength (w ++ rest) ≠ 0 := by
  unfold numeralLength
  split_ifs with hzero
  · cases h with
    | decimal h hne => exact runLength_ne_zero hne (areDigits_of_mapM h hne).2 rest
    | hex hz hx h hne =>
      rw [List.cons_append, List.cons_append, hexLength_cons hz hx] at hzero
      exact absurd hzero (runBehind_ne_zero hne (hexDigits_of_mapM h) rest)
  · exact hzero

theorem numeralLength_le (t : Text) : numeralLength t ≤ t.length := by
  have hrun := runLength_le CodePoint.isDecimal t
  unfold numeralLength
  split_ifs with hzero
  · exact hrun
  · match t with
    | [] => simp [hexLength]
    | [_] => simp [hexLength]
    | z :: x :: r =>
      have hle := runLength_le CodePoint.isHexDigit r
      simp only [hexLength, List.length_cons] at hzero ⊢
      split_ifs at hzero ⊢ <;> omega

theorem unsignedLength_le (t : Text) : unsignedLength t ≤ t.length := by
  cases t with
  | nil => rfl
  | cons c r =>
    unfold unsignedLength
    split_ifs <;> simp

theorem intLength_le (t : Text) : intLength t ≤ t.length := by
  have hnumeral := numeralLength_le t
  have hmark := unsignedLength_le (t.drop (numeralLength t))
  rw [List.length_drop] at hmark
  rw [intLength_eq]
  split_ifs <;> omega

theorem measures_int : Measures intLength IsInteger where
  found {t} h := by
    refine ⟨t.take (intLength t), t.drop (intLength t), (List.take_append_drop ..).symm,
      isInteger_take h, ?_⟩
    rw [List.length_take, Nat.min_eq_left (intLength_le t)]
  meets {w} h rest := by
    have hne : numeralLength (w ++ rest) ≠ 0 := by
      obtain ⟨n, h | ⟨ds, mark, rfl, -, h⟩⟩ := h
      · exact h.numeralLength_ne_zero rest
      · rw [List.append_assoc]
        exact h.numeralLength_ne_zero _
    rw [intLength_eq, if_neg hne]
    omega

theorem endsNumber_of_mark (h : c.isIn "uU" = true) : endsNumber c = true :=
  forall_of_isIn h (by decide)

theorem StandsApart.endsNumber (h : StandsApart rest) : ∀ c ∈ rest.head?, endsNumber c = true := by
  intro c hc
  rw [h c hc]
  decide

/-- An integer in front of a blank is taken as it is. -/
theorem length_of_isInteger (h : IsInteger w) (hrest : StandsApart rest) :
    intLength (w ++ rest) = w.length := by
  have hmark : ∀ c ∈ rest.head?, c.isIn "uU" = false := hrest.head (by decide)
  obtain ⟨n, h | ⟨ds, mark, rfl, hu, h⟩⟩ := h
  · have hlength := h.length_eq hrest.endsNumber
    have hne := h.numeralLength_ne_zero rest
    have hnone : unsignedLength rest = 0 := by
      cases rest with
      | nil => rfl
      | cons c r => simp [unsignedLength, hmark c (by simp)]
    rw [intLength_eq, if_neg hne, hlength, List.drop_left, hnone, Nat.add_zero]
  · have hends : ∀ c ∈ (mark :: rest).head?, endsNumber c = true := by simpa using endsNumber_of_mark hu
    have hlength := h.length_eq hends
    have hne := h.numeralLength_ne_zero (mark :: rest)
    have hone : unsignedLength (mark :: rest) = 1 := by simp [unsignedLength, hu]
    rw [List.append_assoc, List.singleton_append, intLength_eq, if_neg hne, hlength, List.drop_left,
      hone, List.length_append, List.length_singleton]

theorem intLength_eq_zero (h : ∀ c ∈ t.head?, c.isDecimal = false) : intLength t = 0 := by
  have hnumeral : numeralLength t = 0 := by
    unfold numeralLength
    cases t with
    | nil => rfl
    | cons c r => rw [hexLength_eq_zero_of_not_digit (h c (by simp)), if_pos rfl, runLength_eq_zero h]
  rw [intLength_eq, if_pos hnumeral]

theorem floatLength_of_digits (h : AreDigits ds) (hrest : ∀ c ∈ rest.head?,
    c.isDecimal = false ∧ c.is '.' = false ∧ c.isIn "eE" = false) : floatLength (ds ++ rest) = 0 := by
  rw [floatLength_append h fun c hc => (hrest c hc).1, fractionLength_eq_zero fun c hc => (hrest c hc).2.1,
    List.drop_zero, exponentLength_eq_zero fun c hc => (hrest c hc).2.2, if_pos rfl]

theorem IsNumeral.floatLength_eq_zero {n : Nat} (h : IsNumeral w n)
    (hrest : ∀ c ∈ rest.head?, endsNumber c = true) : floatLength (w ++ rest) = 0 := by
  simp only [endsNumber, Bool.and_eq_true, Bool.not_eq_true'] at hrest
  cases h with
  | decimal h hne =>
    exact floatLength_of_digits (areDigits_of_mapM h hne) fun c hc =>
      ⟨(hrest c hc).1.1.1.1, (hrest c hc).1.2, (hrest c hc).2⟩
  | @hex z x r ds hz hx h hne =>
    -- The digit in front of the letter of the base is all that a double could start with.
    have hzero : AreDigits [z] := by
      obtain rfl := CodePoint.eq_ofChar hz
      have hdigit : (CodePoint.ofChar '0').isDecimal = true := by decide
      simp [AreDigits, hdigit]
    have htail : ∀ c ∈ (x :: (r ++ rest)).head?,
        c.isDecimal = false ∧ c.is '.' = false ∧ c.isIn "eE" = false := by
      simp only [List.head?_cons, Option.mem_def, Option.some.injEq, forall_eq']
      exact ⟨forall_of_isIn hx (p := CodePoint.isDecimal) (by decide),
        forall_of_isIn hx (p := (·.is '.')) (by decide), forall_of_isIn hx (p := (·.isIn "eE")) (by decide)⟩
    have hnone := floatLength_of_digits hzero htail
    simpa using hnone

/-- An integer in front of a blank is not taken for a double. -/
theorem floatLength_of_isInteger (h : IsInteger w) (hrest : StandsApart rest) :
    floatLength (w ++ rest) = 0 := by
  obtain ⟨n, h | ⟨ds, mark, rfl, hu, h⟩⟩ := h
  · exact h.floatLength_eq_zero hrest.endsNumber
  · rw [List.append_assoc]
    exact h.floatLength_eq_zero (by simpa using endsNumber_of_mark hu)

/-- An integer starts with a digit. -/
theorem IsNumeral.head {n : Nat} (h : IsNumeral w n) : ∃ c r, w = c :: r ∧ c.isDecimal = true := by
  cases h with
  | decimal h hne => exact (areDigits_of_mapM h hne).exists_cons
  | @hex z x r ds hz hx h hne =>
    obtain rfl := CodePoint.eq_ofChar hz
    exact ⟨_, _, rfl, by decide⟩

theorem exists_head_of_isInteger (h : IsInteger w) : ∃ c r, w = c :: r ∧ c.isDecimal = true := by
  obtain ⟨n, h | ⟨ds, mark, rfl, -, h⟩⟩ := h
  · exact h.head
  · obtain ⟨c, r, rfl, hc⟩ := h.head
    exact ⟨c, r ++ [mark], rfl, hc⟩

end

end LogStream.Filter
