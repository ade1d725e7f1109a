import Mathlib
import LogStream.Proofs.Text.Runs
import LogStream.Proofs.Time.Seconds
import LogStream.Time.DurationText

/-! # The spelling of durations

A duration is spelled with signs, of which the first counts, and either the number zero or one or more numbers with
units behind them (`IsSpelling`). The reader takes just these texts, and reads the sum of the numbers in seconds
(`read_of_isSpelling`, `read_of_not_isSpelling`). -/

namespace LogStream.Duration

open Double (IsNumeric IsPositive)
open Text (numberOf)

/-! ### The grammar -/

/-- Decimal digits with a fraction or without one, or a fraction alone, and the double nearest to their number. -/
inductive IsNumber : Text → Double → Prop
  | digits {t : Text} {ds : List Nat} (h : t.mapM CodePoint.decimal? = some ds) (hne : t ≠ []) :
      IsNumber t (Double.ofRatio false (numberOf 10 ds) 1)
  | pointed {t u : Text} {ds es : List Nat} (ht : t.mapM CodePoint.decimal? = some ds)
      (hu : u.mapM CodePoint.decimal? = some es) (hne : t ≠ [] ∨ u ≠ []) :
      IsNumber (t ++ CodePoint.ofChar '.' :: u) (Double.ofRatio false (numberOf 10 (ds ++ es)) (10 ^ es.length))

/-- Numbers with units, and what they give in seconds when they are added to a sum from left to right. -/
inductive IsSum : Double → Text → Double → Prop
  | nil {sum : Double} : IsSum sum [] sum
  | cons {sum v x : Double} {number rest : Text} {unit : String × Double} (hn : IsNumber number v)
      (hu : unit ∈ units) (h : IsSum (sum.add (v.mul unit.2)) rest x) :
      IsSum sum (number ++ (Text.lit unit.1 ++ rest)) x

/-- A duration without a sign in seconds: the number zero alone, or one number with a unit or more. -/
inductive IsUnsigned : Text → Double → Prop
  | zero : IsUnsigned (Text.lit "0") (Double.zero false)
  | sum {t : Text} {x : Double} (hne : t ≠ []) (h : IsSum (Double.zero false) t x) : IsUnsigned t x

/-- The number of seconds behind signs, of which the first counts. -/
def signed (signs : Text) (x : Double) : Double := if (signs.take 1).any (·.is '-') then x.neg else x

/-- A duration in seconds with signs. -/
inductive IsSpelling (signs : Text) : Text → Double → Prop
  | mk {body : Text} {x : Double} (hsigns : ∀ c ∈ signs, c.isIn "+-" = true) (h : IsUnsigned body x) :
      IsSpelling signs (signs ++ body) (signed signs x)

/-! ### Numbers -/

section

variable {t rest number : Text} {v x : Double} {unit : String × Double}

theorem IsNumber.read? (h : IsNumber t v) : Double.read? t = some v := by
  cases h with
  | digits h hne => exact Double.read?_digits h hne
  | pointed ht hu hne => exact Double.read?_pointed ht hu hne

theorem IsNumber.isNumeric (h : IsNumber t v) : ∀ c ∈ t, IsNumeric c := by
  cases h with
  | digits h _ => exact Double.isNumeric_of_mapM h
  | pointed ht hu _ =>
    exact List.forall_mem_append.mpr ⟨Double.isNumeric_of_mapM ht,
      List.forall_mem_cons.mpr ⟨.inr rfl, Double.isNumeric_of_mapM hu⟩⟩

theorem IsNumber.ne_nil (h : IsNumber t v) : t ≠ [] := by
  cases h with
  | digits _ hne => exact hne
  | pointed _ _ _ => simp

theorem isDecimal_of_mapM {ds : List Nat} (h : t.mapM CodePoint.decimal? = some ds) :
    ∀ c ∈ t, c.isDecimal = true :=
  fun c hc => Option.isSome_iff_exists.mpr (Text.exists_value_of_mem h c hc)

theorem exists_mapM : ∀ {t : Text}, (∀ c ∈ t, c.isDecimal = true) → ∃ ds, t.mapM CodePoint.decimal? = some ds
  | [], _ => ⟨[], rfl⟩
  | c :: r, h => by
    obtain ⟨hc, hr⟩ := List.forall_mem_cons.mp h
    obtain ⟨d, hd⟩ := Option.isSome_iff_exists.mp hc
    obtain ⟨ds, hds⟩ := exists_mapM hr
    refine ⟨d :: ds, ?_⟩
    rw [List.mapM_cons, hd, hds]
    rfl

/-- Digits and the point behind them are taken with the digits behind this. -/
theorem takeNumber?_pointed {w f : Text} (hw : ∀ c ∈ w, c.isDecimal = true) (hf : ∀ c ∈ f, c.isDecimal = true)
    (hrest : ∀ c ∈ rest.head?, c.isDecimal = false) :
    takeNumber? (w ++ CodePoint.ofChar '.' :: (f ++ rest)) =
      if w = [] ∧ f = [] then none else some (w ++ CodePoint.ofChar '.' :: f, rest) := by
  have hwhole : (w ++ CodePoint.ofChar '.' :: (f ++ rest)).takeWhile CodePoint.isDecimal = w :=
    Text.takeWhile_append hw (by simp; decide)
  have hpoint : ((CodePoint.ofChar '.' :: (f ++ rest)).take 1).any (·.is '.') = true := rfl
  have hfraction : (f ++ rest).takeWhile CodePoint.isDecimal = f := Text.takeWhile_append hf hrest
  have hlength : (w ++ CodePoint.ofChar '.' :: f).length = w.length + 1 + f.length := by
    rw [List.length_append, List.length_cons]
    omega
  have happend : w ++ CodePoint.ofChar '.' :: (f ++ rest) = (w ++ CodePoint.ofChar '.' :: f) ++ rest := by simp
  unfold takeNumber?
  dsimp only
  rw [hwhole, List.drop_left, hpoint]
  simp only [if_true, List.drop_succ_cons, List.drop_zero, hfraction]
  rw [← hlength, happend, List.take_left, List.drop_left]

/-- Digits without a point behind them are taken alone. -/
theorem takeNumber?_digits {w : Text} (hw : ∀ c ∈ w, c.isDecimal = true)
    (hrest : ∀ c ∈ rest.head?, c.isDecimal = false ∧ c.is '.' = false) :
    takeNumber? (w ++ rest) = if w = [] then none else some (w, rest) := by
  have hwhole : (w ++ rest).takeWhile CodePoint.isDecimal = w :=
    Text.takeWhile_append hw fun c hc => (hrest c hc).1
  have hpoint : (rest.take 1).any (·.is '.') = false := by
    cases rest with
    | nil => rfl
    | cons c r => simpa using (hrest c rfl).2
  unfold takeNumber?
  dsimp only
  rw [hwhole, List.drop_left, hpoint]
  simp

/-- The number in front is taken. -/
theorem takeNumber?_append (h : IsNumber number v)
    (hrest : ∀ c ∈ rest.head?, c.isDecimal = false ∧ c.is '.' = false) :
    takeNumber? (number ++ rest) = some (number, rest) := by
  cases h with
  | digits h hne => rw [takeNumber?_digits (isDecimal_of_mapM h) hrest, if_neg hne]
  | pointed ht hu hne =>
    rw [List.append_assoc, List.cons_append,
      takeNumber?_pointed (isDecimal_of_mapM ht) (isDecimal_of_mapM hu) fun c hc => (hrest c hc).1,
      if_neg (fun hnil => hne.elim (· hnil.1) (· hnil.2))]

/-- What is taken is a number. -/
theorem exists_isNumber_of_takeNumber? (h : takeNumber? t = some (number, rest)) :
    t = number ++ rest ∧ ∃ v, IsNumber number v := by
  obtain ⟨w, s, rfl, hw, hs⟩ := Text.exists_run CodePoint.isDecimal t
  obtain ⟨ds, hds⟩ := exists_mapM hw
  by_cases hpoint : ∃ r, s = CodePoint.ofChar '.' :: r
  · obtain ⟨r, rfl⟩ := hpoint
    obtain ⟨f, rest', rfl, hf, hrest'⟩ := Text.exists_run CodePoint.isDecimal r
    obtain ⟨es, hes⟩ := exists_mapM hf
    rw [takeNumber?_pointed hw hf hrest'] at h
    split at h
    · cases h
    · next hne =>
      cases h
      exact ⟨by simp, _, .pointed hds hes (not_and_or.mp hne)⟩
  · have hstop : ∀ c ∈ s.head?, c.is '.' = false := by
      intro c hc
      refine Bool.eq_false_iff.mpr fun hp => hpoint ?_
      obtain ⟨r, rfl⟩ := List.head?_eq_some_iff.mp hc
      exact ⟨r, by rw [CodePoint.eq_ofChar hp]⟩
    rw [takeNumber?_digits hw fun c hc => ⟨hs c hc, hstop c hc⟩] at h
    split at h
    · cases h
    · next hne =>
      cases h
      exact ⟨rfl, _, .digits hds hne⟩

/-! ### Numbers with units -/

/-- No unit starts like a number. -/
theorem head_unit (hu : unit ∈ units) : ∀ c ∈ (Text.lit unit.1 ++ rest).head?, c.isDecimal = false ∧ c.is '.' = false := by
  simp only [units, List.mem_cons, List.not_mem_nil, or_false] at hu
  rcases hu with rfl | rfl | rfl | rfl | rfl | rfl | rfl <;> simp [Text.lit] <;> decide

/-- The unit is found in front of a number, or of nothing. -/
theorem find?_units (hu : unit ∈ units) (hrest : ∀ c ∈ rest.head?, IsNumeric c) :
    (units.find? fun u => (Text.lit u.1).isPrefixOf (Text.lit unit.1 ++ rest)) = some unit := by
  simp only [units, List.mem_cons, List.not_mem_nil, or_false] at hu
  rcases hu with rfl | rfl | rfl | rfl | rfl | rfl | rfl
  case inr.inr.inl =>
    -- Minutes begin like milliseconds, but what stands behind them is no letter.
    cases rest with
    | nil => rfl
    | cons c r =>
      have hs := Double.is_of_isNumeric (hrest c rfl) 's' (by decide)
      have hne : CodePoint.ofChar 's' ≠ c := fun he => by
        rw [← he, CodePoint.is_ofChar] at hs
        cases hs
      have hms : (Text.lit "ms").isPrefixOf (Text.lit "m" ++ c :: r) = false := by
        simp [Text.lit, List.isPrefixOf, hne]
      rw [units, List.find?_cons_of_neg (by exact Bool.false_ne_true), List.find?_cons_of_neg (by simp [hms]),
        List.find?_cons_of_pos (by rfl)]
  all_goals rfl

theorem length_lit (s : String) : (Text.lit s).length = s.length := by
  rw [Text.lit, List.length_map, String.length_toList]

/-- **The number with its unit in front is taken.** -/
theorem takePart?_append (hn : IsNumber number v) (hu : unit ∈ units) (hrest : ∀ c ∈ rest.head?, IsNumeric c) :
    takePart? (number ++ (Text.lit unit.1 ++ rest)) = some (v.mul unit.2, rest) := by
  unfold takePart?
  rw [takeNumber?_append hn (head_unit hu)]
  simp only [Option.bind_eq_bind, Option.bind_some, find?_units hu hrest, hn.read?]
  rw [← length_lit, List.drop_left]

/-- What is taken is a number with a unit. -/
theorem exists_of_takePart? (h : takePart? t = some (x, rest)) : ∃ number v unit, IsNumber number v ∧
    unit ∈ units ∧ t = number ++ (Text.lit unit.1 ++ rest) ∧ x = v.mul unit.2 := by
  unfold takePart? at h
  obtain ⟨⟨number, s⟩, htake, hpart⟩ := Option.bind_eq_some_iff.mp h
  obtain ⟨unit, hfind, hscaled⟩ := Option.bind_eq_some_iff.mp hpart
  obtain ⟨y, hread, hxrest⟩ := Option.bind_eq_some_iff.mp hscaled
  clear h hpart hscaled
  obtain ⟨rfl, v, hn⟩ := exists_isNumber_of_takeNumber? htake
  have hprefix := List.find?_some hfind
  obtain ⟨r, rfl⟩ := List.isPrefixOf_iff_prefix.mp hprefix
  obtain rfl : v = y := Option.some.inj (hn.read?.symm.trans hread)
  rw [← length_lit, List.drop_left] at hxrest
  cases hxrest
  exact ⟨number, v, unit, hn, List.mem_of_find?_eq_some hfind, rfl, rfl⟩

/-! ### Sums -/

theorem IsSum.head {sum : Double} (h : IsSum sum t x) : ∀ c ∈ t.head?, IsNumeric c := by
  cases h with
  | nil => simp
  | cons hn _ _ =>
    intro c hc
    obtain ⟨a, r, rfl⟩ := List.exists_cons_of_ne_nil hn.ne_nil
    obtain rfl : a = c := Option.some.inj hc
    exact hn.isNumeric a List.mem_cons_self

/-- **Just the numbers with units are summed up**, if there is fuel for each of them. -/
theorem sumParts?_eq_some_iff {sum : Double} {fuel : Nat} (hfuel : t.length ≤ fuel) :
    sumParts? fuel sum t = some x ↔ IsSum sum t x := by
  constructor
  · intro h
    clear hfuel
    induction fuel generalizing sum t with
    | zero =>
      cases t with
      | nil =>
        cases h
        exact .nil
      | cons c r => cases h
    | succ fuel ih =>
      cases t with
      | nil =>
        cases h
        exact .nil
      | cons c r =>
        rw [sumParts?.eq_def] at h
        obtain ⟨⟨y, rest⟩, htake, h⟩ := Option.bind_eq_some_iff.mp h
        obtain ⟨number, v, unit, hn, hu, ht, rfl⟩ := exists_of_takePart? htake
        rw [ht]
        exact .cons hn hu (ih h)
  · intro h
    induction h generalizing fuel with
    | nil => cases fuel <;> rfl
    | @cons sum v x number rest unit hn hu hsum ih =>
      obtain ⟨c, r, rfl⟩ := List.exists_cons_of_ne_nil hn.ne_nil
      rw [List.length_append, List.length_append, List.length_cons] at hfuel
      obtain ⟨fuel, rfl⟩ := Nat.exists_eq_add_of_le' (show 1 ≤ fuel by omega)
      have htake := takePart?_append hn hu hsum.head
      rw [List.cons_append] at htake ⊢
      rw [sumParts?.eq_def]
      dsimp only
      rw [htake]
      exact ih (by omega)

/-- A sum of numbers with units is not negative. -/
theorem IsSum.isPositive {sum : Double} (h : IsSum sum t x) (hsum : IsPositive sum) : IsPositive x := by
  induction h with
  | nil => exact hsum
  | @cons sum v x number rest unit hn hu hsum' ih =>
    have hv : IsPositive v := by
      cases hn with
      | digits _ _ => exact Double.isPositive_ofUnits _ _
      | pointed _ _ _ => exact Double.isPositive_ofUnits _ _
    have hunit : ∀ unit ∈ units, IsPositive unit.2 ∧ unit.2.isInfinite = false ∧ unit.2.isZero = false := by
      have hall : ∀ unit ∈ units, (unit.2.isNaN = false ∧ unit.2.isNegative = false) ∧
          unit.2.isInfinite = false ∧ unit.2.isZero = false := by decide +kernel
      exact fun unit hu => ⟨⟨(hall unit hu).1.1, (hall unit hu).1.2⟩, (hall unit hu).2⟩
    obtain ⟨hpositive, hfinite, hzero⟩ := hunit unit hu
    exact ih (hsum.add (hv.mul hpositive hfinite hzero))

end

/-! ### Durations without a sign -/

section

variable {t body : Text} {x : Double} {d : Duration}

theorem IsUnsigned.isPositive (h : IsUnsigned t x) : IsPositive x := by
  have hzero : IsPositive (Double.zero false) := Double.isPositive_ofBits (Nat.zero_le _)
  cases h with
  | zero => exact hzero
  | sum _ h => exact h.isPositive hzero

theorem IsUnsigned.exists_cons (h : IsUnsigned t x) : ∃ c r, t = c :: r ∧ IsNumeric c := by
  cases h with
  | zero => exact ⟨_, _, rfl, .inl ⟨0, by decide⟩⟩
  | sum hne h =>
    obtain ⟨c, r, rfl⟩ := List.exists_cons_of_ne_nil hne
    exact ⟨c, r, rfl, h.head c rfl⟩

theorem not_isIn_of_isNumeric {c : CodePoint} (h : IsNumeric c) : c.isIn "+-" = false := by
  have hplus := Double.is_of_isNumeric h '+' (by decide)
  have hminus := Double.is_of_isNumeric h '-' (by decide)
  simp [CodePoint.isIn, hplus, hminus]

theorem isSpace_of_isNumeric {c : CodePoint} (h : IsNumeric c) : c.isSpace = false := by
  rcases h with ⟨d, hd⟩ | rfl
  · rcases Text.decimal?_cases hd with hc | ⟨-, hc⟩
    · unfold CodePoint.isSpace
      simp only [Bool.or_eq_false_iff, Bool.and_eq_false_iff, decide_eq_false_iff_not, beq_eq_false_iff_ne]
      omega
    · exact hc
  · decide

/-- No duration without a sign starts with a sign or with white space. -/
theorem IsUnsigned.head (h : IsUnsigned t x) : ∀ c ∈ t.head?, c.isIn "+-" = false ∧ c.isSpace = false := by
  obtain ⟨c, r, rfl, hc⟩ := h.exists_cons
  rintro a ⟨⟩
  exact ⟨not_isIn_of_isNumeric hc, isSpace_of_isNumeric hc⟩

/-- The number zero alone has no unit. -/
theorem IsSum.ne_lit_zero {sum : Double} (h : IsSum sum t x) : t ≠ Text.lit "0" := by
  intro ht
  cases h with
  | nil => cases ht
  | @cons _ _ _ number rest unit hn hu _ =>
    obtain ⟨c, r, rfl⟩ := List.exists_cons_of_ne_nil hn.ne_nil
    have hunit : ∀ unit ∈ units, 0 < (Text.lit unit.1).length := by decide
    have hpos := hunit unit hu
    have hlength := congrArg List.length ht
    have hone : (Text.lit "0").length = 1 := rfl
    rw [List.length_append, List.length_append, List.length_cons, hone] at hlength
    omega

/-! ### Reading -/

theorem ofSeconds?_zero (signs : Text) : ofSeconds? (signed signs (Double.zero false)) = some zero := by
  have hzero : ofSeconds? (Double.zero false) = some zero ∧ ofSeconds? (Double.zero false).neg = some zero := by
    decide +kernel
  unfold signed
  split
  · exact hzero.2
  · exact hzero.1

/-- **A text that is spelled as a duration is read as its number of seconds**, if this is in range. -/
theorem read_of_isSpelling {signs : Text} (h : IsSpelling signs (Text.strip t) x) :
    read t = (ofSeconds? x).elim (.error .outOfRange) .ok := by
  generalize hs : Text.strip t = s at h
  obtain ⟨hsigns, hbody⟩ := h
  rename_i body y
  have hdrop : (signs ++ body).dropWhile (·.isIn "+-") = body :=
    Text.dropWhile_append hsigns fun c hc => (hbody.head c hc).1
  have hfirst : ((signs ++ body).take 1).any (·.is '-') = (signs.take 1).any (·.is '-') := by
    cases signs with
    | nil =>
      obtain ⟨c, r, rfl, hc⟩ := hbody.exists_cons
      simpa using Double.is_of_isNumeric hc '-' (by decide)
    | cons c r => rfl
  unfold read
  rw [hs]
  dsimp only
  rw [hdrop, hfirst]
  cases hbody with
  | zero =>
    rw [if_pos rfl, ofSeconds?_zero]
    rfl
  | sum hne hsum =>
    rw [if_neg hsum.ne_lit_zero, if_neg hne, (sumParts?_eq_some_iff (Nat.le_refl _)).mpr hsum]
    rfl

/-- **Any other text is malformed.** -/
theorem read_of_not_isSpelling (h : ¬ ∃ signs x, IsSpelling signs (Text.strip t) x) :
    read t = .error .malformed := by
  obtain ⟨signs, body, hs, hsigns, hbody⟩ := Text.exists_run (·.isIn "+-") (Text.strip t)
  rw [hs] at h
  have hunsigned : ¬ ∃ x, IsUnsigned body x := fun ⟨x, hx⟩ => h ⟨signs, _, .mk hsigns hx⟩
  have hdrop : (signs ++ body).dropWhile (·.isIn "+-") = body := Text.dropWhile_append hsigns hbody
  unfold read
  rw [hs]
  dsimp only
  rw [hdrop, if_neg fun hzero => hunsigned ⟨_, by rw [hzero]; exact .zero⟩]
  split
  · rfl
  · next hne =>
    have hsum : sumParts? body.length (Double.zero false) body = none :=
      Option.eq_none_iff_forall_ne_some.mpr fun x hx =>
        hunsigned ⟨x, .sum hne ((sumParts?_eq_some_iff (Nat.le_refl _)).mp hx)⟩
    rw [hsum]

theorem read_eq_ok_iff : read t = .ok d ↔ ∃ signs x, IsSpelling signs (Text.strip t) x ∧ ofSeconds? x = some d := by
  by_cases h : ∃ signs x, IsSpelling signs (Text.strip t) x
  · constructor
    · intro hread
      obtain ⟨signs, x, hx⟩ := h
      refine ⟨signs, x, hx, ?_⟩
      rw [read_of_isSpelling hx] at hread
      cases hd : ofSeconds? x with
      | none =>
        rw [hd] at hread
        cases hread
      | some d' =>
        rw [hd] at hread
        cases hread
        rfl
    · rintro ⟨signs, x, hx, hd⟩
      rw [read_of_isSpelling hx, hd]
      rfl
  · rw [read_of_not_isSpelling h]
    constructor
    · intro hread
      cases hread
    · rintro ⟨signs, x, hx, -⟩
      exact absurd ⟨signs, x, hx⟩ h

/-- A text is spelled with the signs in front of it. -/
theorem exists_isSpelling_append_iff {w r : Text} (hw : ∀ c ∈ w, c.isIn "+-" = true)
    (hr : ∀ c ∈ r.head?, c.isIn "+-" = false) :
    (∃ signs, IsSpelling signs (w ++ r) x) ↔ ∃ y, IsUnsigned r y ∧ x = signed w y := by
  constructor
  · rintro ⟨signs, h⟩
    generalize ht : w ++ r = t at h
    obtain ⟨hsigns, hbody⟩ := h
    rename_i body y
    have hsame : r = body := by
      rw [← Text.dropWhile_append hw hr, ht, Text.dropWhile_append hsigns fun c hc => (hbody.head c hc).1]
    rw [hsame] at ht ⊢
    rw [List.append_cancel_right ht]
    exact ⟨y, hbody, rfl⟩
  · rintro ⟨y, hy, rfl⟩
    exact ⟨w, .mk hw hy⟩

/-- **A minus sign in front of a duration without a sign gives the negative duration**, if this is in range. -/
theorem read_minus {r : Text} (ht : Text.strip t = CodePoint.ofChar '-' :: r)
    (hr : ∀ c ∈ r.head?, c.isIn "+-" = false ∧ c.isSpace = false) :
    read t = .ok d ↔ ∃ d', read r = .ok d' ∧ d'.neg? = some d := by
  have hminus : ∀ c ∈ [CodePoint.ofChar '-'], c.isIn "+-" = true := List.forall_mem_singleton.mpr (by decide)
  have hplain (x : Double) : (∃ signs, IsSpelling signs r x) ↔ IsUnsigned r x := by
    have h := exists_isSpelling_append_iff (x := x) (w := []) (List.forall_mem_nil _) fun c hc => (hr c hc).1
    simpa [signed] using h
  have hnegative (x : Double) : (∃ signs, IsSpelling signs (CodePoint.ofChar '-' :: r) x) ↔
      ∃ y, IsUnsigned r y ∧ x = y.neg := by
    have h := exists_isSpelling_append_iff (x := x) hminus fun c hc => (hr c hc).1
    exact h
  simp only [read_eq_ok_iff, ht, Text.strip_of_strip_cons ht fun c hc => (hr c hc).2]
  constructor
  · rintro ⟨signs, x, hx, hd⟩
    obtain ⟨y, hy, rfl⟩ := (hnegative x).mp ⟨signs, hx⟩
    obtain ⟨d', hd', hneg⟩ := (ofSeconds?_neg_eq_some_iff hy.isPositive.isNegative).mp hd
    obtain ⟨signs', hy'⟩ := (hplain y).mpr hy
    exact ⟨d', ⟨signs', y, hy', hd'⟩, hneg⟩
  · rintro ⟨d', ⟨signs, y, hy, hd'⟩, hneg⟩
    have hunsigned := (hplain y).mp ⟨signs, hy⟩
    obtain ⟨signs', hx⟩ := (hnegative y.neg).mpr ⟨y, hunsigned, rfl⟩
    exact ⟨signs', y.neg, hx, (ofSeconds?_neg_eq_some_iff hunsigned.isPositive.isNegative).mpr ⟨d', hd', hneg⟩⟩

end

end LogStream.Duration
