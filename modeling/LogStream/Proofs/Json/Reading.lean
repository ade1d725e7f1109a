import LogStream.Json.Reader
import LogStream.Json.Printer
import LogStream.Proofs.Json.Objects
import LogStream.Proofs.Text.Numeral
import LogStream.Proofs.Text.Runs
import LogStream.Proofs.Text.Utf8

/-! # Printed JSON is read back

What is printed for a datum is read as this datum, with lists in place of tuples (`IsPortable.readsBack`). The proof
follows the datum, and for each form of data there is a lemma for what is printed for it: code points
(`standsFor_escapePoint`) and so strings, integers (`readNumber_ofInt`), arrays and objects. All of them say what is
read in front of any text that may stand there (`IsRead`), since a number is read as far as it goes on. Arrays and
objects are read by two loops of one form (`ReadsParts`). -/

namespace LogStream

namespace Utf16

/-- A code point beyond the first plane is the pair of its units. -/
theorem exists_pair_of_le {c : CodePoint} (h : 0x10000 ≤ c.val) : ∃ m n, encodePoint c = [m, n] ∧
    isHigh m = true ∧ isLow n = true ∧ m < 0x10000 ∧ n < 0x10000 ∧ pair m n = c := by
  have hlt := c.isLt
  refine ⟨_, _, if_neg (Nat.not_lt.mpr h), ?_, ?_, ?_, ?_, ?_⟩
  · simp only [isHigh, Bool.and_eq_true, decide_eq_true_eq]
    omega
  · simp only [isLow, Bool.and_eq_true, decide_eq_true_eq]
    omega
  · omega
  · omega
  · exact Utf8.ofNat_eq c (by omega)

end Utf16

namespace Json

variable {c e : CodePoint} {s rest t : Text} {m n : Nat}

/-! ### Parts of strings -/

theorem readPieces?_point (hq : c.is '"' = false) (hb : c.is '\\' = false) (hlow : ¬ c.val < 32) (s : Text) :
    readPieces? (c :: s) = consPiece (.point c) (readPieces? s) := by
  rw [readPieces?.eq_def]
  simp only [hq, hb, hlow, Bool.false_eq_true, if_false]

theorem readPieces?_letter (h : escaped? e = some c) (s : Text) :
    readPieces? (CodePoint.ofChar '\\' :: e :: s) = consPiece (.point c) (readPieces? s) := by
  have hq : (CodePoint.ofChar '\\').is '"' = false := by decide
  have hb : (CodePoint.ofChar '\\').is '\\' = true := by decide
  rw [readPieces?.eq_def]
  simp only [hq, hb, h, Bool.false_eq_true, if_false, if_true]

/-- Four digits of a number are read back as the number. -/
theorem exists_hex4? (h : n < 0x10000) : ∃ h₁ h₂ h₃ h₄, Text.hex 4 n = [h₁, h₂, h₃, h₄] ∧
    hex4? h₁ h₂ h₃ h₄ = some n := by
  obtain ⟨hlength, ds, hds, hn⟩ := Text.exists_mapM_hex (show 0 < 4 by decide) h
  obtain ⟨h₁, h₂, h₃, h₄, hhex⟩ := List.length_eq_four.mp hlength
  refine ⟨h₁, h₂, h₃, h₄, hhex, ?_⟩
  rw [hhex] at hds
  simp only [List.mapM_cons, List.mapM_nil, Option.bind_eq_bind, Option.pure_def, Option.bind_eq_some_iff,
    Option.some.injEq] at hds
  obtain ⟨a, ha, _, ⟨b, hb, _, ⟨c, hc, _, ⟨d, hd, _, rfl, rfl⟩, rfl⟩, rfl⟩, rfl⟩ := hds
  have hsum : ((a * 16 + b) * 16 + c) * 16 + d = n := by simpa [Text.numberOf] using hn
  simp only [hex4?, ha, hb, hc, hd, Option.bind_eq_bind, Option.bind_some, Option.pure_def, hsum]

theorem readPieces?_unit (h : n < 0x10000) (s : Text) :
    readPieces? (Text.lit "\\u" ++ Text.hex 4 n ++ s) = consPiece (.unit n) (readPieces? s) := by
  obtain ⟨h₁, h₂, h₃, h₄, hhex, hn⟩ := exists_hex4? h
  have hq : (CodePoint.ofChar '\\').is '"' = false := by decide
  have hb : (CodePoint.ofChar '\\').is '\\' = true := by decide
  have hu : (CodePoint.ofChar 'u').is 'u' = true := by decide
  have hletter : escaped? (CodePoint.ofChar 'u') = none := by decide
  have htext : Text.lit "\\u" ++ Text.hex 4 n ++ s =
      CodePoint.ofChar '\\' :: CodePoint.ofChar 'u' :: h₁ :: h₂ :: h₃ :: h₄ :: s := by rw [hhex]; rfl
  rw [htext, readPieces?.eq_def]
  simp only [hq, hb, hu, hletter, hn, Bool.false_eq_true, if_false, if_true]

theorem joinPieces_unit (h : Utf16.isHigh n = false) : ∀ ps : List Piece,
    joinPieces (.unit n :: ps) = CodePoint.ofNat n :: joinPieces ps
  | [] => rfl
  | .point _ :: _ => rfl
  | .unit _ :: _ => by rw [joinPieces, h]; rfl

theorem joinPieces_pair (hm : Utf16.isHigh m = true) (hn : Utf16.isLow n = true) (ps : List Piece) :
    joinPieces (.unit m :: .unit n :: ps) = Utf16.pair m n :: joinPieces ps := by
  rw [joinPieces, hm, hn]
  rfl

/-! ### Strings -/

/-- In a string, a text stands for a code point: it is read as parts that are joined to this one, whatever stands
behind it. -/
def StandsFor (w : Text) (c : CodePoint) : Prop :=
  ∃ ps, (∀ s, readPieces? (w ++ s) = (readPieces? s).map fun p => (ps ++ p.1, p.2)) ∧
    ∀ qs, joinPieces (ps ++ qs) = c :: joinPieces qs

theorem standsFor_point (hq : c.is '"' = false) (hb : c.is '\\' = false) (hlow : ¬ c.val < 32) : StandsFor [c] c :=
  ⟨[.point c], readPieces?_point hq hb hlow, fun _ => rfl⟩

theorem standsFor_letter (h : escaped? e = some c) : StandsFor [CodePoint.ofChar '\\', e] c :=
  ⟨[.point c], readPieces?_letter h, fun _ => rfl⟩

/-- A code point is read from its units, unless it is a surrogate. -/
theorem standsFor_units (hc : c.isSurrogate = false) :
    StandsFor ((Utf16.encodePoint c).flatMap fun u => Text.lit "\\u" ++ Text.hex 4 u) c := by
  by_cases hplane : c.val < 0x10000
  · have hhigh : Utf16.isHigh c.val = false := by
      have hs := Utf8.isSurrogate_eq_false hc
      simp only [Utf16.isHigh, Bool.and_eq_false_iff, decide_eq_false_iff_not]
      omega
    rw [Utf16.encodePoint, if_pos hplane, List.flatMap_singleton]
    refine ⟨[.unit c.val], readPieces?_unit hplane, fun qs => ?_⟩
    rw [List.singleton_append, joinPieces_unit hhigh, Utf8.ofNat_eq c rfl]
  · obtain ⟨m, n, hunits, hm, hn, hmlt, hnlt, hpair⟩ := Utf16.exists_pair_of_le (Nat.not_lt.mp hplane)
    rw [hunits, List.flatMap_cons, List.flatMap_singleton]
    refine ⟨[.unit m, .unit n], fun s => ?_, fun qs => ?_⟩
    · rw [List.append_assoc, readPieces?_unit hmlt, readPieces?_unit hnlt, consPiece, consPiece, Option.map_map]
      rfl
    · rw [List.cons_append, List.singleton_append, joinPieces_pair hm hn, hpair]

theorem standsFor_letter_of_is {ch : Char} (h : c.is ch = true) (he : escaped? e = some (CodePoint.ofChar ch)) :
    StandsFor [CodePoint.ofChar '\\', e] c :=
  CodePoint.eq_ofChar h ▸ standsFor_letter he

theorem standsFor_letter_of_val (h : c.val = n) (he : escaped? e = some (CodePoint.ofNat n)) :
    StandsFor [CodePoint.ofChar '\\', e] c :=
  Utf8.ofNat_eq c h.symm ▸ standsFor_letter he

/-- **What is written for a code point stands for it.** -/
theorem standsFor_escapePoint (hc : c.isSurrogate = false) : StandsFor (escapePoint c) c := by
  unfold escapePoint
  split
  · next hquote => exact standsFor_letter_of_is hquote rfl
  split
  · next hbackslash => exact standsFor_letter_of_is hbackslash rfl
  split
  · next hline => exact standsFor_letter_of_is hline rfl
  split
  · next hreturn => exact standsFor_letter_of_is hreturn rfl
  split
  · next htab => exact standsFor_letter_of_is htab rfl
  split
  · next hfeed => exact standsFor_letter_of_val hfeed rfl
  split
  · next hback => exact standsFor_letter_of_val hback rfl
  split
  · next hquote hbackslash _ _ _ _ _ hplain =>
    exact standsFor_point (by simpa using hquote) (by simpa using hbackslash) (Nat.not_lt.mpr hplain.1)
  · exact standsFor_units hc

/-- **A string is read back**, up to its closing quote. -/
theorem readString?_escaped (h : ∀ c ∈ t, c.isSurrogate = false) (rest : Text) :
    readString? (t.flatMap escapePoint ++ CodePoint.ofChar '"' :: rest) = some (t, rest) := by
  have hparts : ∃ ps, readPieces? (t.flatMap escapePoint ++ CodePoint.ofChar '"' :: rest) = some (ps, rest) ∧
      joinPieces ps = t := by
    induction t with
    | nil => exact ⟨[], by rw [List.flatMap_nil, List.nil_append, readPieces?.eq_def]; rfl, rfl⟩
    | cons c t ih =>
      obtain ⟨hc, ht⟩ := List.forall_mem_cons.mp h
      obtain ⟨ps, hps, hjoin⟩ := standsFor_escapePoint hc
      obtain ⟨qs, hqs, rfl⟩ := ih ht
      refine ⟨ps ++ qs, ?_, hjoin qs⟩
      rw [List.flatMap_cons, List.append_assoc, hps, hqs, Option.map_some]
  obtain ⟨ps, hps, hjoin⟩ := hparts
  rw [readString?, hps, Option.map_some]
  exact congrArg (fun u => some (u, rest)) hjoin

/-! ### Numbers -/

/-- A number ends in front of a text, which starts with nothing that a number may go on with. -/
def EndsNumber (rest : Text) : Prop :=
  ∀ c ∈ rest.head?, c.isAsciiDigit = false ∧ c.is '.' = false ∧ c.isIn "eE" = false

theorem takeFraction_of_ends (h : EndsNumber rest) : takeFraction rest = ([], rest) := by
  cases rest with
  | nil => rfl
  | cons c r =>
    obtain ⟨-, hpoint, -⟩ := h c rfl
    simp only [takeFraction, hpoint, Bool.false_and, Bool.false_eq_true, if_false]

theorem takeExponent_of_ends (h : EndsNumber rest) : takeExponent rest = ([], rest) := by
  cases rest with
  | nil => rfl
  | cons c r =>
    obtain ⟨-, -, hexponent⟩ := h c rfl
    simp only [takeExponent, hexponent, Bool.false_and, Bool.false_eq_true, if_false]

/-- The digits of a number in front of a text: the first one, which is a zero only if it is alone, and others. -/
theorem exists_digits (n : Nat) : ∃ d ds, Text.ofNat n = CodePoint.ofNat (48 + d) :: Decimal.digitText ds ∧
    d < 10 ∧ (∀ x ∈ ds, x < 10) ∧ (d = 0 → ds = []) := by
  have hlt : ∀ x ∈ Decimal.digitsOf n, x < 10 := fun x => Decimal.digitsOf_lt
  rw [← Decimal.digitText_digitsOf]
  cases hdigits : Decimal.digitsOf n with
  | nil => exact absurd hdigits (Decimal.digitsOf_ne_nil n)
  | cons d ds =>
    obtain ⟨hd, hds⟩ := List.forall_mem_cons.mp (hdigits ▸ hlt)
    exact ⟨d, ds, rfl, hd, hds, fun hzero => Decimal.eq_nil_of_digitsOf (hzero ▸ hdigits)⟩

theorem isAsciiDigit_digit : ∀ d < 10, (CodePoint.ofNat (48 + d)).isAsciiDigit = true := by decide

theorem isAsciiDigit_of_mem_digitText {ds : List Nat} (h : ∀ x ∈ ds, x < 10) :
    ∀ c ∈ Decimal.digitText ds, c.isAsciiDigit = true := by
  intro c hc
  obtain ⟨d, hd, rfl⟩ := List.mem_map.mp hc
  exact isAsciiDigit_digit d (h d hd)

theorem takeWhole_ofNat (n : Nat) (h : EndsNumber rest) : takeWhole (Text.ofNat n ++ rest) = (Text.ofNat n, rest) := by
  obtain ⟨d, ds, htext, hd, hds, hzero⟩ := exists_digits n
  have hend : ∀ c ∈ rest.head?, c.isAsciiDigit = false := fun c hc => (h c hc).1
  rw [htext, List.cons_append, takeWhole]
  by_cases hd0 : d = 0
  · obtain rfl := hzero hd0
    subst hd0
    rfl
  · have hfirst : ∀ d < 10, d ≠ 0 → (CodePoint.ofNat (48 + d)).is '0' = false := by decide
    have hdigits : ∀ c ∈ CodePoint.ofNat (48 + d) :: Decimal.digitText ds, c.isAsciiDigit = true :=
      List.forall_mem_cons.mpr ⟨isAsciiDigit_digit d hd, isAsciiDigit_of_mem_digitText hds⟩
    rw [hfirst d hd hd0, if_neg Bool.false_ne_true, takeDigits, ← List.cons_append,
      Text.takeWhile_append hdigits hend, Text.dropWhile_append hdigits hend]

/-- A whole number behind a sign or without one is read as an integer. -/
theorem readNumber_whole {sign : Text} {i : Int} (hsign : sign = [] ∨ sign = [CodePoint.ofChar '-'])
    (hi : Text.readInt? (sign ++ Text.ofNat n) = some i) (h : EndsNumber rest) :
    readNumber (sign ++ Text.ofNat n ++ rest) = .ok (.int i, rest) := by
  obtain ⟨d, ds, htext, hd, -⟩ := exists_digits n
  have hminus : ∀ d < 10, (CodePoint.ofNat (48 + d)).is '-' = false := by decide
  have htake : ((sign ++ Text.ofNat n ++ rest).take 1).filter (·.is '-') = sign := by
    obtain rfl | rfl := hsign
    · simp [htext, hminus d hd]
    · rfl
  have hdrop : (sign ++ Text.ofNat n ++ rest).drop sign.length = Text.ofNat n ++ rest := by
    rw [List.append_assoc, List.drop_left]
  have hsome : (Text.ofNat n).isEmpty = false := by rw [htext]; rfl
  unfold readNumber
  simp only [htake, hdrop, takeWhole_ofNat n h, hsome, takeFraction_of_ends h, takeExponent_of_ends h, hi,
    List.isEmpty_nil, Bool.and_self, Bool.false_eq_true, if_false, if_true]

/-- **An integer is read back**, if it is not too long. -/
theorem readNumber_ofInt {i : Int} (hi : (Datum.int i).isPrintable = true) (h : EndsNumber rest) :
    readNumber (Text.ofInt i ++ rest) = .ok (.int i, rest) := by
  have hread : Text.readInt? (Text.ofInt i) = some i := by
    rw [Text.readInt?_ofInt, if_neg (Nat.not_lt.mpr (of_decide_eq_true hi))]
  have hsign : ∃ sign, (sign = [] ∨ sign = [CodePoint.ofChar '-']) ∧ Text.ofInt i = sign ++ Text.ofNat i.natAbs := by
    by_cases hneg : i < 0
    · exact ⟨_, Or.inr rfl, if_pos hneg⟩
    · exact ⟨_, Or.inl rfl, if_neg hneg⟩
  obtain ⟨sign, hsign, htext⟩ := hsign
  rw [htext] at hread ⊢
  exact readNumber_whole hsign hread h

/-! ### Data -/

/-- A text is read as a datum, whatever may stand behind it in an array or in an object. -/
structure IsRead (t : Text) (d : Datum) : Prop where
  /-- It starts with no blank, and an array is not over where it starts. -/
  head : ∃ c r, t = c :: r ∧ isBlank c = false ∧ c.is ']' = false
  reads : ∀ {fuel : Nat} {rest : Text}, 2 * t.length ≤ fuel → EndsNumber rest →
    readDatum fuel (t ++ rest) = .ok (d, rest)

theorem skipBlanks_cons (h : isBlank c = false) (s : Text) : skipBlanks (c :: s) = c :: s :=
  Text.dropWhile_of_head? fun _ hmem => Option.some.inj hmem ▸ h

theorem IsRead.skipBlanks_append {d : Datum} (h : IsRead t d) (s : Text) : skipBlanks (t ++ s) = t ++ s := by
  obtain ⟨c, r, rfl, hc, -⟩ := h.head
  exact skipBlanks_cons hc _

theorem isRead_cons {d : Datum} (hblank : isBlank c = false) (hend : c.is ']' = false)
    (hreads : ∀ fuel rest, 2 * s.length + 1 ≤ fuel → EndsNumber rest →
      readDatum (fuel + 1) (c :: (s ++ rest)) = .ok (d, rest)) : IsRead (c :: s) d where
  head := ⟨c, s, rfl, hblank, hend⟩
  reads := by
    intro fuel rest hfuel hrest
    rw [List.length_cons] at hfuel
    obtain ⟨fuel, rfl⟩ := Nat.exists_eq_add_of_le' (show 1 ≤ fuel by omega)
    exact hreads fuel rest (by omega) hrest

theorem isRead_null : IsRead (Text.lit "null") .null :=
  isRead_cons (by decide) (by decide) fun _ _ _ _ => rfl

theorem isRead_truth (b : Bool) : IsRead (truth b) (.bool b) := by
  cases b <;> exact isRead_cons (by decide) (by decide) fun _ _ _ _ => rfl

theorem string_append (t s : Text) :
    string t ++ s = CodePoint.ofChar '"' :: (t.flatMap escapePoint ++ CodePoint.ofChar '"' :: s) := by
  rw [string, List.append_assoc, List.append_assoc]
  rfl

theorem isRead_string (h : ∀ c ∈ t, c.isSurrogate = false) : IsRead (string t) (.text t) := by
  refine isRead_cons (by decide) (by decide) fun fuel rest _ _ => ?_
  have hread : readDatum (fuel + 1) (string t ++ rest) = .ok (.text t, rest) := by
    have hquote : (CodePoint.ofChar '"').is '"' = true := by decide
    rw [string_append, readDatum, if_pos hquote, readString?_escaped h]
  exact hread

/-! ### Integers -/

theorem readName?_digit (s : Text) : ∀ d < 10, readName? (CodePoint.ofNat (48 + d) :: s) = none := by
  intro d hd
  interval_cases d <;> rfl

theorem readName?_minus (s : Text) : ∀ d < 10,
    readName? (CodePoint.ofChar '-' :: CodePoint.ofNat (48 + d) :: s) = none := by
  intro d hd
  interval_cases d <;> rfl

/-- What starts no string, no array, no object and no name is read as a number. -/
theorem readDatum_number (hq : c.is '"' = false) (ha : c.is '[' = false) (ho : c.is '\x7b' = false)
    (hname : readName? (c :: s) = none) (fuel : Nat) : readDatum (fuel + 1) (c :: s) = readNumber (c :: s) := by
  simp only [readDatum, hq, ha, ho, hname, Bool.false_eq_true, if_false]

theorem isRead_ofInt {i : Int} (hi : (Datum.int i).isPrintable = true) : IsRead (Text.ofInt i) (.int i) := by
  obtain ⟨d, ds, hdigits, hd, -⟩ := exists_digits i.natAbs
  have hfirst : ∀ d < 10, isBlank (CodePoint.ofNat (48 + d)) = false ∧ (CodePoint.ofNat (48 + d)).is ']' = false ∧
      (CodePoint.ofNat (48 + d)).is '"' = false ∧ (CodePoint.ofNat (48 + d)).is '[' = false ∧
      (CodePoint.ofNat (48 + d)).is '\x7b' = false := by decide
  by_cases hneg : i < 0
  -- a name may start with a minus sign too, so it is the digit behind it that tells
  · have htext : Text.ofInt i = CodePoint.ofChar '-' :: CodePoint.ofNat (48 + d) :: Decimal.digitText ds := by
      rw [← hdigits]
      exact if_pos hneg
    rw [htext]
    refine isRead_cons (by decide) (by decide) fun fuel rest _ hrest => ?_
    rw [List.cons_append, readDatum_number (by decide) (by decide) (by decide) (readName?_minus _ d hd),
      ← readNumber_ofInt hi hrest, htext]
    rfl
  · have htext : Text.ofInt i = CodePoint.ofNat (48 + d) :: Decimal.digitText ds := by
      rw [← hdigits]
      exact if_neg hneg
    obtain ⟨hblank, hend, hq, ha, ho⟩ := hfirst d hd
    rw [htext]
    refine isRead_cons hblank hend fun fuel rest _ hrest => ?_
    rw [readDatum_number hq ha ho (readName?_digit _ d hd), ← readNumber_ofInt hi hrest, htext]
    rfl

/-! ### Parts in a row -/

theorem endsNumber_cons (h : c.isAsciiDigit = false ∧ c.is '.' = false ∧ c.isIn "eE" = false) (s : Text) :
    EndsNumber (c :: s) :=
  fun _ hmem => Option.some.inj hmem ▸ h

/-- Parts are read one by one, with a comma between them and a closing sign behind the last. -/
structure ReadsParts {α : Type} (close : Char) (IsPart : Text → α → Prop)
    (readParts : Nat → Text → Except ReadError (List α × Text)) : Prop where
  start {t : Text} {x : α} (h : IsPart t x) (s : Text) : skipBlanks (t ++ s) = t ++ s
  last {t : Text} {x : α} (h : IsPart t x) {fuel : Nat} (hfuel : 2 * t.length ≤ fuel) (s : Text) :
    readParts (fuel + 1) (t ++ CodePoint.ofChar close :: s) = .ok ([x], s)
  next {t : Text} {x : α} (h : IsPart t x) {fuel : Nat} (hfuel : 2 * t.length ≤ fuel) (s : Text) :
    readParts (fuel + 1) (t ++ CodePoint.ofChar ',' :: s) =
      (readParts fuel (skipBlanks s)).map fun r => (x :: r.1, r.2)

theorem exists_joinWith_cons (sep t : Text) (ts : List Text) : ∃ s, Text.joinWith sep (t :: ts) = t ++ s := by
  cases ts with
  | nil => exact ⟨[], (List.append_nil t).symm⟩
  | cons u ts => exact ⟨sep ++ Text.joinWith sep (u :: ts), List.append_assoc _ _ _⟩

/-- **Parts that were written with commas between them are read back**, up to the closing sign. -/
theorem ReadsParts.readParts_joinWith {α : Type} {close : Char} {IsPart : Text → α → Prop}
    {readParts : Nat → Text → Except ReadError (List α × Text)} (hparts : ReadsParts close IsPart readParts)
    (rest : Text) {t : Text} {x : α} (h : IsPart t x) {ts : List Text} {xs : List α}
    (hs : List.Forall₂ IsPart ts xs) : ∀ fuel : Nat, 2 * (Text.joinWith (Text.lit ",") (t :: ts)).length < fuel →
      readParts fuel (Text.joinWith (Text.lit ",") (t :: ts) ++ CodePoint.ofChar close :: rest) =
        .ok (x :: xs, rest) := by
  induction hs generalizing t x with
  | nil =>
    intro fuel hfuel
    have hone : Text.joinWith (Text.lit ",") [t] = t := rfl
    rw [hone] at hfuel ⊢
    obtain ⟨fuel, rfl⟩ := Nat.exists_eq_add_of_le' (show 1 ≤ fuel by omega)
    exact hparts.last h (by omega) rest
  | @cons u y ts ys hu hts ih =>
    -- the part is read with fuel for its own length, and the comma has the fuel for the step to the next one
    intro fuel hfuel
    obtain ⟨r, hr⟩ := exists_joinWith_cons (Text.lit ",") u ts
    have hcons : Text.joinWith (Text.lit ",") (t :: u :: ts) =
        t ++ CodePoint.ofChar ',' :: Text.joinWith (Text.lit ",") (u :: ts) := List.append_assoc _ _ _
    rw [hcons] at hfuel ⊢
    rw [List.length_append, List.length_cons] at hfuel
    obtain ⟨fuel, rfl⟩ := Nat.exists_eq_add_of_le' (show 1 ≤ fuel by omega)
    have hstart (s : Text) : skipBlanks (Text.joinWith (Text.lit ",") (u :: ts) ++ s) =
        Text.joinWith (Text.lit ",") (u :: ts) ++ s := by
      rw [hr, List.append_assoc, hparts.start hu]
    rw [List.append_assoc, List.cons_append, hparts.next h (by omega), hstart, ih hu fuel (by omega)]
    rfl

/-! ### Arrays -/

section

variable {d : Datum} {fuel : Nat}

/-- An item is read, and what stands behind it says whether others follow. -/
theorem readItems_item (h : IsRead t d) (hfuel : 2 * t.length ≤ fuel) (hends : EndsNumber (c :: s))
    (hblank : isBlank c = false) : readItems (fuel + 1) (t ++ c :: s) =
      if c.is ']' then .ok ([d], s)
      else if c.is ',' then (readItems fuel (skipBlanks s)).map fun r => (d :: r.1, r.2)
      else .error .malformed := by
  rw [readItems, h.reads hfuel hends, ok_bind]
  dsimp only
  rw [skipBlanks_cons hblank]
  rfl

end

theorem readsParts_items : ReadsParts ']' IsRead readItems where
  start h := h.skipBlanks_append
  last h _ hfuel s := readItems_item h hfuel (endsNumber_cons (by decide) s) (by decide)
  next h _ hfuel s := readItems_item h hfuel (endsNumber_cons (by decide) s) (by decide)

/-- An array that is not over at once is read item by item. -/
theorem readDatum_array (hblank : isBlank c = false) (hend : c.is ']' = false) (fuel : Nat) (s : Text) :
    readDatum (fuel + 1) (CodePoint.ofChar '[' :: c :: s) =
      (readItems fuel (c :: s)).map fun r => (.list r.1, r.2) := by
  have hquote : ¬ (CodePoint.ofChar '[').is '"' = true := by decide
  have hopen : (CodePoint.ofChar '[').is '[' = true := by decide
  rw [readDatum, if_neg hquote, if_pos hopen, skipBlanks_cons hblank]
  dsimp only
  rw [hend, if_neg Bool.false_ne_true]

theorem isRead_array {ts : List Text} {ds : List Datum} (h : List.Forall₂ IsRead ts ds) :
    IsRead (array .compact ts) (.list ds) := by
  have harray : array .compact ts =
      CodePoint.ofChar '[' :: (Text.joinWith (Text.lit ",") ts ++ [CodePoint.ofChar ']']) := rfl
  rw [harray]
  refine isRead_cons (by decide) (by decide) fun fuel rest hfuel _ => ?_
  rw [List.length_append, List.length_singleton] at hfuel
  rw [List.append_assoc, List.singleton_append]
  cases h with
  | nil => rfl
  | @cons t d ts ds ht hts =>
    have hread := readsParts_items.readParts_joinWith rest ht hts fuel (by omega)
    obtain ⟨c, r, rfl, hblank, hend⟩ := ht.head
    obtain ⟨w, hw⟩ := exists_joinWith_cons (Text.lit ",") (c :: r) ts
    rw [hw] at hread ⊢
    exact (readDatum_array hblank hend fuel _).trans (congrArg (Except.map _) hread)

/-! ### Objects -/

/-- A text is read as an entry of an object. -/
structure IsReadEntry (t : Text) (e : Text × Datum) : Prop where
  key : ∀ c ∈ e.1, c.isSurrogate = false
  content : ∃ u, t = string e.1 ++ Text.lit ":" ++ u ∧ IsRead u e.2

section

variable {e : Text × Datum} {fuel : Nat}

theorem IsReadEntry.exists_eq_cons (h : IsReadEntry t e) : ∃ r, t = CodePoint.ofChar '"' :: r := by
  obtain ⟨u, rfl, -⟩ := h.content
  exact ⟨_, by rw [List.append_assoc, string_append]⟩

/-- An entry is read, and what stands behind it says whether others follow. -/
theorem readEntries_entry (h : IsReadEntry t e) (hfuel : 2 * t.length ≤ fuel) (hends : EndsNumber (c :: s))
    (hblank : isBlank c = false) : readEntries (fuel + 1) (t ++ c :: s) =
      if c.is '\x7d' then .ok ([e], s)
      else if c.is ',' then (readEntries fuel (skipBlanks s)).map fun r => (e :: r.1, r.2)
      else .error .malformed := by
  obtain ⟨u, rfl, hu⟩ := h.content
  have hquote : (CodePoint.ofChar '"').is '"' = true := by decide
  have hcolon : (CodePoint.ofChar ':').is ':' = true := by decide
  have hlength : 2 * u.length ≤ fuel := by
    simp only [List.length_append] at hfuel
    omega
  have hsplit : Text.lit ":" ++ (u ++ c :: s) = CodePoint.ofChar ':' :: (u ++ c :: s) := rfl
  rw [List.append_assoc, List.append_assoc, string_append, hsplit, readEntries, hquote, Bool.not_true,
    if_neg Bool.false_ne_true, readString?_escaped h.key]
  dsimp only
  rw [skipBlanks_cons (by decide)]
  dsimp only
  rw [hcolon, Bool.not_true, if_neg Bool.false_ne_true, hu.skipBlanks_append, hu.reads hlength hends, ok_bind]
  dsimp only
  rw [skipBlanks_cons hblank]
  rfl

end

theorem readsParts_entries : ReadsParts '\x7d' IsReadEntry readEntries where
  start h s := by
    obtain ⟨r, rfl⟩ := h.exists_eq_cons
    exact skipBlanks_cons (by decide) _
  last h _ hfuel s := readEntries_entry h hfuel (endsNumber_cons (by decide) s) (by decide)
  next h _ hfuel s := readEntries_entry h hfuel (endsNumber_cons (by decide) s) (by decide)

/-- An object that is not over at once is read entry by entry. -/
theorem readDatum_object (hblank : isBlank c = false) (hend : c.is '\x7d' = false) (fuel : Nat) (s : Text) :
    readDatum (fuel + 1) (CodePoint.ofChar '\x7b' :: c :: s) =
      (readEntries fuel (c :: s)).map fun r => (dictionary r.1, r.2) := by
  have hquote : ¬ (CodePoint.ofChar '\x7b').is '"' = true := by decide
  have harray : ¬ (CodePoint.ofChar '\x7b').is '[' = true := by decide
  have hopen : (CodePoint.ofChar '\x7b').is '\x7b' = true := by decide
  rw [readDatum, if_neg hquote, if_neg harray, if_pos hopen, skipBlanks_cons hblank]
  dsimp only
  rw [hend, if_neg Bool.false_ne_true]

theorem isRead_object {ts : List Text} {es : List (Text × Datum)} (hn : (es.map Prod.fst).Nodup)
    (h : List.Forall₂ IsReadEntry ts es) : IsRead (object .compact ts) (ofEntries es) := by
  have hdictionary : dictionary es = ofEntries es := by
    rw [dictionary, Attrs.putAll_nil_left hn]
    rfl
  have hobject : object .compact ts =
      CodePoint.ofChar '\x7b' :: (Text.joinWith (Text.lit ",") ts ++ [CodePoint.ofChar '\x7d']) := rfl
  rw [hobject, ← hdictionary]
  refine isRead_cons (by decide) (by decide) fun fuel rest hfuel _ => ?_
  rw [List.length_append, List.length_singleton] at hfuel
  rw [List.append_assoc, List.singleton_append]
  cases h with
  | nil => rfl
  | @cons t e ts es ht hts =>
    have hread := readsParts_entries.readParts_joinWith rest ht hts fuel (by omega)
    obtain ⟨r, rfl⟩ := ht.exists_eq_cons
    obtain ⟨w, hw⟩ := exists_joinWith_cons (Text.lit ",") (CodePoint.ofChar '"' :: r) ts
    rw [hw] at hread ⊢
    exact (readDatum_object (by decide) (by decide) fuel _).trans (congrArg (Except.map _) hread)

/-! ### Printed data -/

end Json

mutual

/-- The datum with lists in place of its tuples, at any depth. -/
def Datum.untupled : Datum → Datum
  | .list xs => .list (Datum.untupledItems xs)
  | .tuple xs => .list (Datum.untupledItems xs)
  | .map es => .map (Datum.untupledEntries es)
  | d => d
termination_by structural d => d

def Datum.untupledItems : List Datum → List Datum
  | [] => []
  | x :: xs => Datum.untupled x :: Datum.untupledItems xs
termination_by structural xs => xs

/-- The entries in their order, with the same keys. -/
def Datum.untupledEntries : List (Datum × Datum) → List (Datum × Datum)
  | [] => []
  | (k, d) :: es => (k, Datum.untupled d) :: Datum.untupledEntries es
termination_by structural es => es

end

namespace Json

theorem untupledItems_eq_map (xs : List Datum) : Datum.untupledItems xs = xs.map Datum.untupled := by
  induction xs with
  | nil => rfl
  | cons x xs ih => exact congrArg (Datum.untupled x :: ·) ih

theorem untupled_ofEntries (es : List (Text × Datum)) :
    (ofEntries es).untupled = ofEntries (es.map fun e => (e.1, e.2.untupled)) := by
  have hentries : Datum.untupledEntries (es.map fun e => (.text e.1, e.2)) =
      (es.map fun e => (e.1, e.2.untupled)).map fun e => (.text e.1, e.2) := by
    induction es with
    | nil => rfl
    | cons e es ih => exact congrArg (_ :: ·) ih
  exact congrArg Datum.map hentries

/-- A datum that is in JSON what it is, but for its tuples: texts and keys have no surrogates, integers at most 4300
digits. -/
inductive IsPortable : Datum → Prop
  | null : IsPortable .null
  | bool (b : Bool) : IsPortable (.bool b)
  | int {i : Int} (h : (Text.ofNat i.natAbs).length ≤ 4300) : IsPortable (.int i)
  | text {t : Text} (h : ∀ c ∈ t, c.isSurrogate = false) : IsPortable (.text t)
  | list {xs : List Datum} (h : ∀ x ∈ xs, IsPortable x) : IsPortable (.list xs)
  | tuple {xs : List Datum} (h : ∀ x ∈ xs, IsPortable x) : IsPortable (.tuple xs)
  | map {es : List (Text × Datum)} (hn : (es.map Prod.fst).Nodup) (hk : ∀ e ∈ es, ∀ c ∈ e.1, c.isSurrogate = false)
      (hv : ∀ e ∈ es, IsPortable e.2) : IsPortable (ofEntries es)

/-- A datum is printed, and what is printed is read as the datum with lists in place of its tuples. -/
def ReadsBack (d : Datum) : Prop := ∃ t, print .compact d = .ok t ∧ IsRead t d.untupled

theorem exists_printItems_isRead : ∀ {xs : List Datum}, (∀ x ∈ xs, ReadsBack x) →
    ∃ ts, printItems .compact xs = .ok ts ∧ List.Forall₂ IsRead ts (xs.map Datum.untupled)
  | [], _ => ⟨[], rfl, .nil⟩
  | x :: xs, h => by
    obtain ⟨⟨t, ht, hread⟩, hxs⟩ := List.forall_mem_cons.mp h
    obtain ⟨ts, hts, hreads⟩ := exists_printItems_isRead hxs
    refine ⟨t :: ts, ?_, .cons hread hreads⟩
    rw [printItems, ht, ok_bind, hts]
    rfl

theorem exists_printEntries_isReadEntry : ∀ {es : List (Text × Datum)}, (∀ e ∈ es, ∀ c ∈ e.1, c.isSurrogate = false) →
    (∀ e ∈ es, ReadsBack e.2) → ∃ ts, printEntries .compact (es.map fun e => (.text e.1, e.2)) = .ok ts ∧
      List.Forall₂ IsReadEntry ts (es.map fun e => (e.1, e.2.untupled))
  | [], _, _ => ⟨[], rfl, .nil⟩
  | e :: es, hk, h => by
    obtain ⟨hkey, hk⟩ := List.forall_mem_cons.mp hk
    obtain ⟨⟨t, ht, hread⟩, hes⟩ := List.forall_mem_cons.mp h
    obtain ⟨ts, hts, hreads⟩ := exists_printEntries_isReadEntry hk hes
    refine ⟨_, ?_, .cons ⟨hkey, t, rfl, hread⟩ hreads⟩
    rw [List.map_cons, printEntries, key, ok_bind, ht, ok_bind, hts]
    rfl

/-- Items that are read back one by one are read back as an array. -/
theorem exists_array_isRead {xs : List Datum} (h : ∀ x ∈ xs, ReadsBack x) :
    ∃ t, (printItems .compact xs).map (array .compact) = .ok t ∧ IsRead t (.list (Datum.untupledItems xs)) := by
  obtain ⟨ts, hts, hreads⟩ := exists_printItems_isRead h
  refine ⟨array .compact ts, by rw [hts]; rfl, ?_⟩
  rw [untupledItems_eq_map]
  exact isRead_array hreads

/-- **Printed JSON is read back**, with lists in place of tuples. -/
theorem IsPortable.readsBack {d : Datum} (h : IsPortable d) : ReadsBack d := by
  induction h with
  | null => exact ⟨_, rfl, isRead_null⟩
  | bool b => exact ⟨_, rfl, isRead_truth b⟩
  | @int i h =>
    have hi : (Datum.int i).isPrintable = true := decide_eq_true h
    exact ⟨Text.ofInt i, by rw [print, integer, if_pos hi], isRead_ofInt hi⟩
  | text h => exact ⟨_, rfl, isRead_string h⟩
  | list _ ih | tuple _ ih => exact exists_array_isRead ih
  | @map es hn hk _ ih =>
    obtain ⟨ts, hts, hreads⟩ := exists_printEntries_isReadEntry hk ih
    refine ⟨object .compact ts, by rw [ofEntries, print, hts]; rfl, ?_⟩
    rw [untupled_ofEntries]
    refine isRead_object ?_ hreads
    rw [List.map_map]
    exact hn

end Json
end LogStream
