import Mathlib
import LogStream.Proofs.Filter.Lexemes.Numbers

/-! # Lexemes on their own

The scanner finds blank space and lexemes, and where it finds nothing there is none
(`measures_lexeme`, `exists_of_lexeme?`, `not_isFront_of_lexeme?`). A lexeme in front of a blank is found
again as what it is (`lexeme?_of_isLexeme`): no class that is tried before its own takes its front, and its
own class takes no more than the lexeme. -/

namespace LogStream.Filter

/-! ### The scanner by class -/

/-- The length of the lexeme of a class at the front of a text; blank space has no class. -/
def lexemeLength : Option TokenKind → Text → Nat
  | none => blankLength
  | some .string => stringLength
  | some .float => floatLength
  | some .int => intLength
  | some .ident => identLength
  | some .op => opLength

/-- The text is blank space, or a lexeme of the class. -/
def IsFront : Option TokenKind → Text → Prop
  | none, w => IsBlank w
  | some k, w => IsLexeme k w

/-- The classes in the order they are tried. -/
def classes : List (Option TokenKind) :=
  [none, some .string, some .float, some .int, some .ident, some .op]

theorem mem_classes (l : Option TokenKind) : l ∈ classes := by
  rcases l with _ | _ | _ | _ | _ | _ <;> decide

theorem lexeme?_eq (t : Text) :
    lexeme? t = (classes.map fun l => (l, lexemeLength l t)).find? fun l => l.2 != 0 := rfl

section

variable {w rest t r : Text} {c : CodePoint} {k : TokenKind} {l : Option TokenKind} {n : Nat}

/-! ### Names -/

theorem continuesName_of_startsName (h : startsName c = true) : continuesName c = true := by
  simp [continuesName, h]

theorem measures_ident : Measures identLength (IsLexeme .ident) where
  found {t} h := by
    unfold identLength at h ⊢
    split_ifs at h ⊢ with hstarts
    · cases t with
      | nil => exact absurd hstarts (by simp)
      | cons c r =>
        have hc : startsName c = true := by simpa using hstarts
        obtain ⟨w, rest, rfl, hw, hrest, -⟩ := exists_run continuesName r
        have hname : ∀ x ∈ c :: w, continuesName x = true :=
          List.forall_mem_cons.mpr ⟨continuesName_of_startsName hc, hw⟩
        exact ⟨c :: w, rest, rfl, .ident hc hw, runLength_append hname hrest⟩
    · exact absurd rfl h
  meets {w} h rest := by
    cases h with
    | ident hc _ => simp [identLength, hc, runLength, continuesName_of_startsName hc]

theorem identLength_eq_zero (h : ∀ c ∈ t.head?, startsName c = false) : identLength t = 0 := by
  cases t with
  | nil => rfl
  | cons c r => simp [identLength, h c (by simp)]

/-- A name in front of a blank is taken as it is. -/
theorem identLength_append (hc : startsName c = true) (hr : ∀ x ∈ r, continuesName x = true)
    (hrest : StandsApart rest) : identLength (c :: r ++ rest) = (c :: r).length := by
  have hname : ∀ x ∈ c :: r, continuesName x = true :=
    List.forall_mem_cons.mpr ⟨continuesName_of_startsName hc, hr⟩
  have hends : ∀ x ∈ rest.head?, continuesName x = false := hrest.head (by decide)
  rw [← runLength_append hname hends]
  simp [identLength, hc]

/-! ### Operators -/

/-- The characters of operators and brackets. -/
def opMarks : String := "-+*/%<>!?:.,()[]\x7b\x7d=&|"

/-- The operators of two characters are no fronts of comments. -/
theorem lit_of_mem_longOps {op : String} (h : op ∈ longOps) : ∃ a b, Text.lit op = [a, b] ∧
    a.isIn opMarks = true ∧ a.is '/' = false ∧ b.isIn opMarks = true := by
  have hops : ∀ op ∈ longOps, (Text.lit op).length = 2 ∧
      (Text.lit op).all (fun c => c.isIn opMarks && !c.is '/') = true := by decide
  obtain ⟨hlength, hmarks⟩ := hops op h
  simp only [List.all_eq_true, Bool.and_eq_true, Bool.not_eq_true'] at hmarks
  match hop : Text.lit op, hlength with
  | [a, b], _ =>
    rw [hop] at hmarks
    exact ⟨a, b, rfl, (hmarks a (by simp)).1, (hmarks a (by simp)).2, (hmarks b (by simp)).1⟩

theorem measures_op : Measures opLength (IsLexeme .op) where
  found {t} h := by
    unfold opLength at h ⊢
    split_ifs at h ⊢ with hlong hshort
    · obtain ⟨op, hop, hpre⟩ := List.any_eq_true.mp hlong
      obtain ⟨rest, rfl⟩ := List.isPrefixOf_iff_prefix.mp hpre
      obtain ⟨a, b, hlit, -⟩ := lit_of_mem_longOps hop
      exact ⟨Text.lit op, rest, rfl, .longOp hop, by simp [hlit]⟩
    · cases t with
      | nil => exact absurd hshort (by simp)
      | cons c r => exact ⟨[c], r, rfl, .shortOp (by simpa using hshort), rfl⟩
    · exact absurd rfl h
  meets {w} h rest := by
    unfold opLength
    cases h with
    | @longOp op hop =>
      have hlong : (longOps.any fun op' => (Text.lit op').isPrefixOf (Text.lit op ++ rest)) = true :=
        List.any_eq_true.mpr ⟨op, hop, List.isPrefixOf_iff_prefix.mpr (List.prefix_append ..)⟩
      rw [if_pos hlong]
      omega
    | shortOp hc =>
      split_ifs with _ hshort
      · omega
      · omega
      · simp [hc] at hshort

/-- An operator in front of a blank is taken as it is. -/
theorem opLength_append (h : IsLexeme .op w) (hrest : StandsApart rest) :
    opLength (w ++ rest) = w.length := by
  unfold opLength
  cases h with
  | @longOp op hop =>
    have hlong : (longOps.any fun op' => (Text.lit op').isPrefixOf (Text.lit op ++ rest)) = true :=
      List.any_eq_true.mpr ⟨op, hop, List.isPrefixOf_iff_prefix.mpr (List.prefix_append ..)⟩
    obtain ⟨a, b, hlit, -⟩ := lit_of_mem_longOps hop
    rw [if_pos hlong, hlit]
    rfl
  | @shortOp c hc =>
    have hlong : ¬ (longOps.any fun op => (Text.lit op).isPrefixOf ([c] ++ rest)) = true := by
      rw [List.any_eq_true]
      rintro ⟨op, hop, hpre⟩
      obtain ⟨a, b, hlit, -, -, hb⟩ := lit_of_mem_longOps hop
      rw [List.isPrefixOf_iff_prefix, hlit, List.singleton_append, List.cons_prefix_cons] at hpre
      obtain ⟨s, rfl⟩ := hpre.2
      rw [hrest b (by simp)] at hb
      exact absurd hb (by decide)
    rw [if_neg hlong]
    simp [hc]

/-! ### What the scanner finds -/

/-- **The lexemes of each class are measured.** -/
theorem measures_lexeme : ∀ l, Measures (lexemeLength l) (IsFront l)
  | none => measures_blank
  | some .string =>
    { found := fun h => by
        obtain ⟨q, body, rest, ht, hbody, hlength⟩ := Quoting.exists_of_stringLength h
        exact ⟨q.literal body, rest, ht, .string hbody, hlength⟩
      meets := fun h rest => by
        cases h with
        | string hbody => exact Quoting.stringLength_ne_zero hbody rest }
  | some .float =>
    { found := fun h => by
        obtain ⟨w, rest, ht, hw, hlength⟩ := measures_float.found h
        exact ⟨w, rest, ht, .float hw, hlength⟩
      meets := fun h rest => by
        cases h with
        | float hw => exact measures_float.meets hw rest }
  | some .int =>
    { found := fun h => by
        obtain ⟨w, rest, ht, hw, hlength⟩ := measures_int.found h
        exact ⟨w, rest, ht, .int hw, hlength⟩
      meets := fun h rest => by
        cases h with
        | int hw => exact measures_int.meets hw rest }
  | some .ident => measures_ident
  | some .op => measures_op

theorem exists_of_lexeme? (h : lexeme? t = some (l, n)) :
    ∃ w rest, t = w ++ rest ∧ w ≠ [] ∧ IsFront l w ∧ n = w.length := by
  rw [lexeme?_eq] at h
  obtain ⟨l', -, heq⟩ := List.mem_map.mp (List.mem_of_find?_eq_some h)
  cases heq
  have hne : lexemeLength l t ≠ 0 := by simpa using List.find?_some h
  obtain ⟨w, rest, ht, hw, hlength⟩ := (measures_lexeme l).found hne
  exact ⟨w, rest, ht, fun hnil => hne (by rw [hlength, hnil, List.length_nil]), hw, hlength⟩

/-- **Where the scanner finds nothing there is neither blank space nor a lexeme.** -/
theorem not_isFront_of_lexeme? (h : lexeme? (w ++ rest) = none) (l : Option TokenKind) : ¬ IsFront l w := by
  intro hw
  rw [lexeme?_eq, List.find?_eq_none] at h
  have hzero := h _ (List.mem_map.mpr ⟨l, mem_classes l, rfl⟩)
  exact (measures_lexeme l).meets hw rest (by simpa using hzero)

/-! ### Fronts -/

/-- The letters and the quotes at the front of a quoted text. -/
theorem Quoting.head_literal (q : Quoting) (body : Text) :
    ∃ c r, q.literal body = c :: r ∧ (c.isIn "rRbB" = true ∨ c.isIn "'\"" = true) := by
  obtain ⟨s, hs⟩ := q.quotes_eq_cons
  cases hletters : q.letters with
  | nil => exact ⟨q.quote, s ++ (body ++ q.quotes), by simp [literal, hletters, hs], .inr q.isQuote⟩
  | cons c r =>
    exact ⟨c, r ++ (q.quotes ++ (body ++ q.quotes)), by simp [literal, hletters],
      .inl (q.isLetter c (by simp [hletters]))⟩

theorem stringLength_eq_zero (hletter : c.isIn "rRbB" = false) (hquote : c.isIn "'\"" = false) (r : Text) :
    stringLength (c :: r) = 0 := by
  by_contra h
  obtain ⟨q, body, rest, ht, -, -⟩ := Quoting.exists_of_stringLength h
  obtain ⟨c', s, hs, hc⟩ := q.head_literal body
  rw [hs] at ht
  obtain ⟨rfl, -⟩ := List.cons.inj ht
  rcases hc with hc | hc
  · rw [hc] at hletter
    cases hletter
  · rw [hc] at hquote
    cases hquote

/-- A name in front of a blank is not taken for the letters of a quoted text. -/
theorem stringLength_of_name (hw : ∀ x ∈ w, continuesName x = true) (hrest : StandsApart rest) :
    stringLength (w ++ rest) = 0 := by
  by_contra h
  obtain ⟨q, body, behind, ht, -, -⟩ := Quoting.exists_of_stringLength h
  obtain ⟨s, hs⟩ := q.quotes_eq_cons
  have hquote : continuesName q.quote = false := by
    rcases q.quote_cases with h | h <;> rw [h] <;> decide
  have hblank : q.quote ≠ CodePoint.ofChar ' ' := by
    rcases q.quote_cases with h | h <;> rw [h] <;> decide
  have hsplit : w ++ rest = q.letters ++ q.quote :: (s ++ (body ++ (q.quotes ++ behind))) := by
    simp [ht, Quoting.literal, hs]
  -- The quote stands in the name, or at its end, or behind a blank among the letters.
  rcases List.append_eq_append_iff.mp hsplit with ⟨u, hu, hrest'⟩ | ⟨u, hu, hrest'⟩
  · cases u with
    | nil => exact hblank (hrest _ (by simp [hrest']))
    | cons x u =>
      have hletter := q.isLetter x (by simp [hu])
      rw [hrest x (by simp [hrest'])] at hletter
      exact absurd hletter (by decide)
  · cases u with
    | nil => exact hblank (hrest _ (by simpa using congrArg List.head? hrest'.symm))
    | cons x u =>
      obtain ⟨rfl, -⟩ := List.cons.inj hrest'
      have hname := hw q.quote (by simp [hu])
      rw [hquote] at hname
      cases hname

/-- The front of a lexeme is no white space, and no slash but for the one operator. -/
theorem IsLexeme.exists_cons (h : IsLexeme k w) :
    ∃ c r, w = c :: r ∧ c.isSpace = false ∧ (r = [] ∨ c.is '/' = false) := by
  have hdigit {c : CodePoint} (hc : c.isDecimal = true) : c.isSpace = false ∧ c.is '/' = false :=
    ⟨isSpace_of_isDecimal hc, is_of_isDecimal hc (by decide)⟩
  cases h with
  | @string q body _ =>
    obtain ⟨c, r, hw, hc⟩ := q.head_literal body
    have hfront : c.isSpace = false ∧ c.is '/' = false := by
      rcases hc with hc | hc <;>
        exact ⟨forall_of_isIn hc (by decide), forall_of_isIn hc (p := (·.is '/')) (by decide)⟩
    exact ⟨c, r, hw, hfront.1, .inr hfront.2⟩
  | float h =>
    obtain ⟨c, r, hw, hc⟩ := h.exists_cons
    exact ⟨c, r, hw, (hdigit hc).1, .inr (hdigit hc).2⟩
  | int h =>
    obtain ⟨c, r, hw, hc⟩ := exists_head_of_isInteger h
    exact ⟨c, r, hw, (hdigit hc).1, .inr (hdigit hc).2⟩
  | @ident c r hc _ =>
    have hslash : c.is '/' = false := by
      by_contra hslash
      obtain rfl := CodePoint.eq_ofChar (by simpa using hslash)
      exact absurd hc (by decide)
    exact ⟨c, r, rfl, (of_startsName hc).1, .inr hslash⟩
  | @longOp op hop =>
    obtain ⟨a, b, hlit, ha, hslash, -⟩ := lit_of_mem_longOps hop
    exact ⟨a, [b], hlit, forall_of_isIn ha (by decide), .inr hslash⟩
  | @shortOp c hc => exact ⟨c, [], rfl, forall_of_isIn hc (by decide), .inl rfl⟩

theorem blankLength_of_isLexeme (h : IsLexeme k w) (hrest : StandsApart rest) :
    blankLength (w ++ rest) = 0 := by
  obtain ⟨c, r, rfl, hspace, rfl | hslash⟩ := h.exists_cons
  · -- A single slash is no comment: what stands behind it is a blank.
    have hslash : ∀ x ∈ rest.head?, x ≠ slash := by
      intro x hx
      rw [hrest x hx]
      decide
    cases rest with
    | nil => simp [blankLength, hspace, lit_slashes, List.isPrefixOf]
    | cons x s =>
      have hne := hslash x (by simp)
      simp [blankLength, hspace, lit_slashes, List.isPrefixOf, hne.symm]
  · exact blankLength_eq_zero hspace hslash

/-! ### What the scanner finds again -/

/-- The first class with a lexeme is found. -/
theorem lexeme?_eq_some (before : List (Option TokenKind)) {behind : List (Option TokenKind)}
    (hsplit : classes = before ++ l :: behind) (hzero : ∀ l' ∈ before, lexemeLength l' t = 0)
    (hlength : lexemeLength l t = n) (hn : n ≠ 0) : lexeme? t = some (l, n) := by
  have hnone : (before.map fun l => (l, lexemeLength l t)).find? (fun l => l.2 != 0) = none := by
    simpa using hzero
  rw [lexeme?_eq, hsplit, List.map_append, List.find?_append, hnone]
  simp [hlength, hn]

/-- Digits are not taken for a quoted text. -/
theorem stringLength_of_digit (hc : c.isDecimal = true) (r : Text) : stringLength (c :: r) = 0 :=
  stringLength_eq_zero (isIn_of_isDecimal hc (by decide)) (isIn_of_isDecimal hc (by decide)) r

theorem IsLexeme.opMark (h : IsLexeme .op w) : ∃ c r, w = c :: r ∧ c.isIn opMarks = true := by
  cases h with
  | longOp hop =>
    obtain ⟨a, b, hlit, ha, -⟩ := lit_of_mem_longOps hop
    exact ⟨a, [b], hlit, ha⟩
  | shortOp hc => exact ⟨_, [], rfl, forall_of_isIn hc (p := (·.isIn opMarks)) (by decide)⟩

/-- An operator is tried last: no other class has a lexeme that starts with its mark. -/
theorem lexeme?_of_op (h : IsLexeme .op w) (hrest : StandsApart rest) :
    lexeme? (w ++ rest) = some (some .op, w.length) := by
  have hblank := blankLength_of_isLexeme h hrest
  have hlength := opLength_append h hrest
  obtain ⟨c, r, rfl, hc⟩ := h.opMark
  have hstring : stringLength (c :: (r ++ rest)) = 0 :=
    stringLength_eq_zero (forall_of_isIn hc (p := (·.isIn "rRbB")) (by decide))
      (forall_of_isIn hc (p := (·.isIn "'\"")) (by decide)) _
  have hdigit : ∀ x ∈ (c :: (r ++ rest)).head?, x.isDecimal = false := by
    simpa using forall_of_isIn hc (p := CodePoint.isDecimal) (by decide)
  have hfloat := floatLength_eq_zero hdigit
  have hint := intLength_eq_zero hdigit
  have hident : identLength (c :: (r ++ rest)) = 0 :=
    identLength_eq_zero (by simpa using forall_of_isIn hc (p := startsName) (by decide))
  exact lexeme?_eq_some [none, some .string, some .float, some .int, some .ident] rfl
    (by simpa [lexemeLength] using ⟨hblank, hstring, hfloat, hint, hident⟩) hlength (by simp)

/-- **A lexeme in front of a blank is found as what it is.** -/
theorem lexeme?_of_isLexeme (h : IsLexeme k w) (hrest : StandsApart rest) :
    lexeme? (w ++ rest) = some (some k, w.length) := by
  have hblank := blankLength_of_isLexeme h hrest
  have hne : w.length ≠ 0 := by
    obtain ⟨c, r, rfl, -⟩ := h.exists_cons
    simp
  cases h with
  | @string q body hbody =>
    have hlength : stringLength (q.literal body ++ rest) = (q.literal body).length := by
      refine Quoting.stringLength_literal hbody fun _ _ c hc => ?_
      rw [hrest c hc]
      rcases q.quote_cases with hq | hq <;> rw [hq] <;> decide
    exact lexeme?_eq_some [none] rfl (by simpa [lexemeLength] using hblank) hlength hne
  | float h =>
    have hstring : stringLength (w ++ rest) = 0 := by
      obtain ⟨c, r, rfl, hc⟩ := h.exists_cons
      exact stringLength_of_digit hc _
    exact lexeme?_eq_some [none, some .string] rfl
      (by simpa [lexemeLength] using ⟨hblank, hstring⟩) (h.length_eq hrest) hne
  | int h =>
    have hstring : stringLength (w ++ rest) = 0 := by
      obtain ⟨c, r, rfl, hc⟩ := exists_head_of_isInteger h
      exact stringLength_of_digit hc _
    have hfloat := floatLength_of_isInteger h hrest
    exact lexeme?_eq_some [none, some .string, some .float] rfl
      (by simpa [lexemeLength] using ⟨hblank, hstring, hfloat⟩) (length_of_isInteger h hrest) hne
  | @ident c r hc hr =>
    have hname : ∀ x ∈ c :: r, continuesName x = true :=
      List.forall_mem_cons.mpr ⟨continuesName_of_startsName hc, hr⟩
    have hstring := stringLength_of_name hname hrest
    have hdigit : ∀ x ∈ (c :: r ++ rest).head?, x.isDecimal = false := by
      simpa using (of_startsName hc).2
    have hfloat := floatLength_eq_zero hdigit
    have hint := intLength_eq_zero hdigit
    exact lexeme?_eq_some [none, some .string, some .float, some .int] rfl
      (by simpa [lexemeLength] using ⟨hblank, hstring, hfloat, hint⟩) (identLength_append hc hr hrest) hne
  | longOp hop => exact lexeme?_of_op (.longOp hop) hrest
  | shortOp hc => exact lexeme?_of_op (.shortOp hc) hrest

end

end LogStream.Filter
