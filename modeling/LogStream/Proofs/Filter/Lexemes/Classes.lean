import Mathlib
import LogStream.Proofs.Filter.Lexemes.Quotes

/-! # The classes of lexemes

The lexemes of an expression: blank space and comments (`IsBlank`), and those that are tokens, by their class
(`IsLexeme`). Each class is measured by a function (`Measures`): it gives the length of a lexeme of the class
at the front of a text, and zero just if there is no lexeme. -/

namespace LogStream.Filter

open Text (decimal?_cases isIn_of_decimal? is_of_decimal?)

/-! ### Classes -/

/-- White space, or a comment without the end of its line. -/
inductive IsBlank : Text → Prop
  | space {w : Text} (hne : w ≠ []) (h : ∀ c ∈ w, c.isSpace = true) : IsBlank w
  | comment {w : Text} (h : ∀ c ∈ w, c.is '\n' = false) : IsBlank (Text.lit "//" ++ w)

/-- One decimal digit or more. -/
def AreDigits (w : Text) : Prop := w ≠ [] ∧ ∀ c ∈ w, c.isDecimal = true

/-- The fraction of a number: a point and digits. -/
inductive IsFraction : Text → Prop
  | digits {point : CodePoint} {ds : Text} (hp : point.is '.' = true) (h : AreDigits ds) :
      IsFraction (point :: ds)

/-- The exponent of a number: its letter, and digits with a sign or without. -/
inductive IsExponent : Text → Prop
  | unsigned {mark : CodePoint} {ds : Text} (hm : mark.isIn "eE" = true) (h : AreDigits ds) :
      IsExponent (mark :: ds)
  | signed {mark sign : CodePoint} {ds : Text} (hm : mark.isIn "eE" = true)
      (hs : sign.isIn "+-" = true) (h : AreDigits ds) : IsExponent (mark :: sign :: ds)

/-- Digits with a fraction, an exponent or both. -/
inductive IsFloat : Text → Prop
  | fraction {ds f : Text} (h : AreDigits ds) (hf : IsFraction f) : IsFloat (ds ++ f)
  | exponent {ds e : Text} (h : AreDigits ds) (he : IsExponent e) : IsFloat (ds ++ e)
  | both {ds f e : Text} (h : AreDigits ds) (hf : IsFraction f) (he : IsExponent e) :
      IsFloat (ds ++ (f ++ e))

/-- The lexemes that are tokens, by their class. -/
inductive IsLexeme : TokenKind → Text → Prop
  | string {q : Quoting} {body : Text} (h : q.Takes body) : IsLexeme .string (q.literal body)
  | float {w : Text} (h : IsFloat w) : IsLexeme .float w
  | int {w : Text} (h : IsInteger w) : IsLexeme .int w
  | ident {c : CodePoint} {r : Text} (hc : startsName c = true)
      (h : ∀ x ∈ r, continuesName x = true) : IsLexeme .ident (c :: r)
  | longOp {op : String} (h : op ∈ longOps) : IsLexeme .op (Text.lit op)
  | shortOp {c : CodePoint} (h : c.isIn shortOps = true) : IsLexeme .op [c]

/-- A function measures a class: it gives the length of a lexeme in front if there is one, and zero if there
is none. -/
structure Measures (length : Text → Nat) (P : Text → Prop) : Prop where
  found : ∀ {t : Text}, length t ≠ 0 → ∃ w rest, t = w ++ rest ∧ P w ∧ length t = w.length
  meets : ∀ {w : Text}, P w → ∀ rest, length (w ++ rest) ≠ 0

/-- There is a blank, or nothing. -/
def StandsApart (rest : Text) : Prop := ∀ c ∈ rest.head?, c = CodePoint.ofChar ' '

theorem StandsApart.head {rest : Text} (h : StandsApart rest) {p : CodePoint → Bool}
    (hp : p (CodePoint.ofChar ' ') = false) : ∀ c ∈ rest.head?, p c = false := by
  intro c hc
  rw [h c hc, hp]

section

variable {w rest : Text} {c : CodePoint} {r : Text}

/-! ### Characters -/

theorem exists_of_isIn {s : String} (h : c.isIn s = true) : ∃ ch ∈ s.toList, c = CodePoint.ofChar ch := by
  obtain ⟨ch, hch, hc⟩ := List.any_eq_true.mp h
  exact ⟨ch, hch, CodePoint.eq_ofChar hc⟩

/-- What holds of the characters of a string holds of a code point in it. -/
theorem forall_of_isIn {s : String} (h : c.isIn s = true) {p : CodePoint → Bool} {b : Bool}
    (hs : s.toList.all (fun ch => p (CodePoint.ofChar ch) == b) = true) : p c = b := by
  obtain ⟨ch, hch, rfl⟩ := exists_of_isIn h
  exact beq_iff_eq.mp (List.all_eq_true.mp hs ch hch)

theorem isSpace_of_isDecimal (h : c.isDecimal = true) : c.isSpace = false := by
  obtain ⟨d, hd⟩ := Option.isSome_iff_exists.mp h
  rcases decimal?_cases hd with hc | ⟨-, hc⟩
  · simp [CodePoint.isSpace]
    omega
  · exact hc

theorem isIn_of_isDecimal (h : c.isDecimal = true) {s : String}
    (hs : s.toList.all (fun ch => ch.toNat < 48 ∨ 57 < ch.toNat ∧ ch.toNat < 128) = true) :
    c.isIn s = false := by
  obtain ⟨d, hd⟩ := Option.isSome_iff_exists.mp h
  exact isIn_of_decimal? hd hs

theorem is_of_isDecimal (h : c.isDecimal = true) {ch : Char}
    (hch : ch.toNat < 48 ∨ 57 < ch.toNat ∧ ch.toNat < 128) : c.is ch = false := by
  obtain ⟨d, hd⟩ := Option.isSome_iff_exists.mp h
  exact is_of_decimal? hd hch

/-- A name starts with no white space and no digit. -/
theorem of_startsName (h : startsName c = true) : c.isSpace = false ∧ c.isDecimal = false := by
  have hrange : 65 ≤ c.val ∧ c.val ≤ 90 ∨ 97 ≤ c.val ∧ c.val ≤ 122 ∨ c.val = 95 := by
    have hlow : ('_' : Char).toNat = 95 := rfl
    simp only [startsName, CodePoint.isAsciiLetter, CodePoint.isAsciiUpper, CodePoint.isAsciiLower,
      CodePoint.is, Bool.or_eq_true, Bool.and_eq_true, decide_eq_true_eq, beq_iff_eq, hlow] at h
    omega
  constructor
  · simp [CodePoint.isSpace]
    omega
  · cases hc : c.isDecimal with
    | false => rfl
    | true =>
      obtain ⟨d, hd⟩ := Option.isSome_iff_exists.mp hc
      rcases decimal?_cases hd with hc | ⟨hc, -⟩ <;> omega

/-! ### Blanks -/

/-- The character of which two open a comment. -/
abbrev slash : CodePoint := CodePoint.ofChar '/'

theorem lit_slashes : Text.lit "//" = [slash, slash] := rfl

theorem measures_blank : Measures blankLength IsBlank where
  found {t} h := by
    cases t with
    | nil => exact absurd rfl h
    | cons c r =>
      unfold blankLength at h ⊢
      dsimp only at h ⊢
      by_cases hspace : c.isSpace = true
      · rw [if_pos hspace] at h ⊢
        obtain ⟨w, rest, ht, hw, -, hlength⟩ := exists_run CodePoint.isSpace (c :: r)
        rw [hlength] at h
        exact ⟨w, rest, ht, .space (List.ne_nil_of_length_pos (Nat.pos_of_ne_zero h)) hw, hlength⟩
      · rw [if_neg hspace] at h ⊢
        by_cases hcomment : (Text.lit "//").isPrefixOf (c :: r) = true
        · obtain ⟨s, hs⟩ := List.isPrefixOf_iff_prefix.mp hcomment
          obtain ⟨w, rest, rfl, hw, hrest, -⟩ := exists_run (fun c => !c.is '\n') s
          have hline : ∀ x ∈ slash :: w, (fun c : CodePoint => !c.is '\n') x = true :=
            List.forall_mem_cons.mpr ⟨by decide, hw⟩
          have hlength := runLength_append hline hrest
          rw [lit_slashes, List.cons_append] at hs
          obtain ⟨rfl, rfl⟩ := List.cons.inj hs
          refine ⟨Text.lit "//" ++ w, rest, by rw [lit_slashes]; rfl,
            .comment fun c hc => by simpa using hw c hc, ?_⟩
          rw [if_pos hcomment, lit_slashes]
          simp only [List.length_append, List.length_cons, List.length_nil] at hlength ⊢
          rw [List.singleton_append, ← List.cons_append, hlength]
          omega
        · rw [if_neg hcomment] at h
          exact absurd rfl h
  meets {w} h rest := by
    cases h with
    | space hne h =>
      obtain ⟨c, r, rfl⟩ := List.exists_cons_of_ne_nil hne
      have hc := h c (by simp)
      simp [blankLength, hc, runLength]
    | @comment w h =>
      have hspace : slash.isSpace = false := by decide
      simp [blankLength, lit_slashes, hspace, List.isPrefixOf]

theorem blankLength_eq_zero (hspace : c.isSpace = false) (hslash : c.is '/' = false) :
    blankLength (c :: r) = 0 := by
  have hne : slash ≠ c := by
    rintro rfl
    exact absurd hslash (by decide)
  simp [blankLength, hspace, lit_slashes, List.isPrefixOf, hne]

end

end LogStream.Filter
