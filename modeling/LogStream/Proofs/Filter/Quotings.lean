import Mathlib
import LogStream.Filter.Apply
import LogStream.Proofs.Filter.Parser.Exactness
import LogStream.Proofs.Filter.Tiling

/-! # What quoted texts stand for

A quoted text is one token, and what stands between its quotes is found again (`betweenQuotes_literal`). So it
stands for its body with the escapes read, or for the bytes of that, and for nothing else
(`Quoting.parse_literal_iff`).

A text is written between double quotes with escapes (`writeString`). The escapes stand for the code points of
the text (`unescapes_escaped`), and what is written stays on its line without a quote that is not escaped
(`isLine_escaped`). So the text written is a literal of the text alone (`parse_quote`). -/

namespace LogStream.Filter

namespace Quoting

variable {q : Quoting} {body : Text}

/-- Escapes are not read. -/
def isRaw (q : Quoting) : Bool := q.letters.any (·.isIn "rR")

/-- The literal stands for bytes. -/
def isBytes (q : Quoting) : Bool := q.letters.any (·.isIn "bB")

/-! ### The letters, the quotes and the body -/

theorem span_letters (q : Quoting) (body : Text) :
    quoteLetters (q.literal body) = q.letters ∧
      (q.literal body).dropWhile (·.isIn "rRbB") = q.quotes ++ (body ++ q.quotes) := by
  obtain ⟨r, hr⟩ := q.quotes_eq_cons
  have hquote := q.quote_not_letter
  constructor
  · unfold quoteLetters literal
    rw [List.takeWhile_append_of_pos q.isLetter, hr]
    simp [hquote]
  · unfold literal
    rw [List.dropWhile_append_of_pos q.isLetter, hr]
    simp [hquote]

theorem betweenQuotes_tripled {a : CodePoint} (body : Text) :
    betweenQuotes ([a, a, a] ++ (body ++ [a, a, a])) = body := by
  unfold betweenQuotes
  extract_lets n
  have hn : n = 3 := by simp [n]
  rw [hn]
  simp

/-- Between single quotes stands all but the first and the last code point. -/
theorem betweenQuotes_single {a : CodePoint} (h : ∀ c ∈ body.head?, c ≠ a) :
    betweenQuotes ([a] ++ (body ++ [a])) = body := by
  unfold betweenQuotes
  extract_lets n
  have hn : n = 1 := by
    cases body with
    | nil => simp [n]
    | cons c r =>
      have hc : a ≠ c := (h c (by simp)).symm
      cases r <;> simp [n, hc]
  rw [hn]
  simp

/-- **The body is found between its quotes.** -/
theorem betweenQuotes_literal (h : q.Takes body) :
    betweenQuotes ((q.literal body).dropWhile (·.isIn "rRbB")) = body := by
  rw [(q.span_letters body).2]
  unfold Takes at h
  cases htripled : q.isTripled with
  | true =>
    have hquotes : q.quotes = [q.quote, q.quote, q.quote] := by simp [quotes, htripled]
    rw [hquotes]
    exact betweenQuotes_tripled body
  | false =>
    have hquotes : q.quotes = [q.quote] := by simp [quotes, htripled]
    rw [htripled, if_neg Bool.false_ne_true] at h
    rw [hquotes]
    exact betweenQuotes_single (h.head_ne q.quote_not_backslash)

/-! ### The meaning -/

/-- What a body says: itself, or what it stands for with its escapes read. -/
def Says (q : Quoting) (body content : Text) : Prop :=
  if q.isRaw then content = body else Unescapes body content

theorem says_literal_iff (h : q.Takes body) {content : Text} :
    LogStream.Filter.Says (q.literal body) content ↔ q.Says body content := by
  rw [← said_eq_ok_iff]
  unfold said Says isRaw
  rw [(q.span_letters body).1, betweenQuotes_literal h]
  split_ifs
  · simp [eq_comm]
  · exact unescape_eq_ok_iff

/-- The constants that a content stands for. -/
def Denotes (q : Quoting) (content : Text) (c : Constant) : Prop :=
  if q.isBytes then ∃ bs, SaysBytes content bs ∧ c = .bytes bs else c = .string content

theorem denotes_literal_iff (h : q.Takes body) {pos : Nat} {c : Constant} :
    (Token.mk .string (q.literal body) pos).Denotes c ↔
      ∃ content, q.Says body content ∧ q.Denotes content c := by
  have hletters : (quoteLetters (q.literal body)).any (·.isIn "bB") = q.isBytes := by
    rw [(q.span_letters body).1]
    rfl
  unfold Denotes
  constructor
  · intro hc
    cases hc with
    | int hk => cases hk
    | uint hk => cases hk
    | float hk => cases hk
    | string _ hsays hl =>
      rw [hletters] at hl
      exact ⟨_, (says_literal_iff h).mp hsays, by rw [hl, if_neg Bool.false_ne_true]⟩
    | bytes _ hsays hl hbs =>
      rw [hletters] at hl
      exact ⟨_, (says_literal_iff h).mp hsays, by rw [hl, if_pos rfl]; exact ⟨_, hbs, rfl⟩⟩
  · rintro ⟨content, hsays, hc⟩
    have hsays := (says_literal_iff h).mpr hsays
    split_ifs at hc with hl
    · obtain ⟨bs, hbs, rfl⟩ := hc
      exact .bytes rfl hsays (hletters.trans hl) hbs
    · obtain rfl := hc
      exact .string rfl hsays (hletters.trans (by simpa using hl))

theorem tokenize_literal (h : q.Takes body) :
    tokenize (q.literal body) = .ok [⟨.string, q.literal body, 0⟩] :=
  tokenize_eq_ok (lexFrom_of_isLexeme (.string h) 0)

/-- **A quoted text is parsed as what it stands for.** -/
theorem parse_literal_iff (h : q.Takes body) {c : Constant} :
    parse (q.literal body) = .ok (.literal 0 c) ↔ ∃ content, q.Says body content ∧ q.Denotes content c :=
  (parse_eq_literal_iff (tokenize_literal h) rfl).trans (denotes_literal_iff h)

end Quoting

/-! ### Code points that are written -/

open Text (exists_value_of_mem exists_mapM_hex)

/-- The quote that texts are written between. -/
abbrev doubleQuote : CodePoint := CodePoint.ofChar '"'

/-- A code point that stands for itself between double quotes. -/
def isPlain (c : CodePoint) : Bool := !c.is '\\' && !c.is '"' && !c.is '\n'

theorem isPlain_of_hexValue? {c : CodePoint} (h : c.hexValue?.isSome = true) : isPlain c = true := by
  unfold CodePoint.hexValue? at h
  have hval : c.val ≠ 92 ∧ c.val ≠ 34 ∧ c.val ≠ 10 := by
    split_ifs at h <;> simp at h <;> omega
  simp [isPlain, CodePoint.is, hval]

/-- **A code point is written as itself or as an escape of it**, on one line and without a quote that is
not escaped. -/
inductive IsWritten (c : CodePoint) : Text → Prop
  | plain (h : isPlain c = true) : IsWritten c [c]
  | escaped {d : CodePoint} {r : Text} (he : Escape (d :: r) c) (hd : d.is '\n' = false)
      (hr : ∀ x ∈ r, isPlain x = true) : IsWritten c (CodePoint.ofChar '\\' :: d :: r)

theorem ofNat_val (c : CodePoint) : CodePoint.ofNat c.val = c := Fin.ofNat_val_eq_self c

theorem isWritten_numbered {mark : Char} {count : Nat} (hmark : (mark, count) ∈ [('u', 4), ('U', 8)])
    {c : CodePoint} (hc : c.val < 16 ^ count) :
    IsWritten c (CodePoint.ofChar '\\' :: CodePoint.ofChar mark :: Text.hex count c.val) := by
  have hcount : 0 < count := by simp at hmark; omega
  obtain ⟨hlength, ds, hds, hnumber⟩ := exists_mapM_hex hcount hc
  have hescape : Escape (CodePoint.ofChar mark :: Text.hex count c.val) c := by
    have h := Escape.numbered (List.mem_cons_of_mem _ hmark) hds hlength (hnumber ▸ c.isLt)
    rwa [hnumber, ofNat_val] at h
  refine .escaped hescape ?_ fun x hx => ?_
  · simp only [List.mem_cons, Prod.mk.injEq, List.not_mem_nil, or_false] at hmark
    rcases hmark with ⟨rfl, -⟩ | ⟨rfl, -⟩ <;> decide
  · obtain ⟨d, hd⟩ := exists_value_of_mem hds x hx
    exact isPlain_of_hexValue? (by simp [hd])

theorem isWritten_escapePoint (c : CodePoint) : IsWritten c (escapePoint c) := by
  unfold escapePoint
  split
  · next e he =>
    have hval : c.val = e.2 := by
      have := List.find?_some he
      simp only [Bool.and_eq_true, beq_iff_eq] at this
      exact this.1
    have hmem := List.mem_of_find?_eq_some he
    have hnewline : ∀ e ∈ simpleEscapes, (CodePoint.ofChar e.1).is '\n' = false := by decide
    refine .escaped ?_ (hnewline e hmem) (List.forall_mem_nil _)
    rw [← ofNat_val c, hval]
    exact .simple hmem
  · next hnone =>
    have hplain : isPlain c = true := by
      have hnot := List.find?_eq_none.mp hnone
      have hne (e : Char × Nat) (he : e ∈ simpleEscapes)
          (hin : (CodePoint.ofNat e.2).isIn "'?\x60" = false) : c.val ≠ e.2 := by
        intro hval
        have := hnot e he
        rw [← hval, ofNat_val] at hin
        simp [hval, hin] at this
      have h1 := hne ('\\', 92) (by decide) (by decide)
      have h2 := hne ('"', 34) (by decide) (by decide)
      have h3 := hne ('n', 10) (by decide) (by decide)
      simp [isPlain, CodePoint.is, h1, h2, h3]
    split
    · exact .plain hplain
    · split
      · next hlt => exact isWritten_numbered (by decide) (by omega)
      · exact isWritten_numbered (by decide) (Nat.lt_trans c.isLt (by decide))

/-- The text between the quotes. -/
abbrev escaped (t : Text) : Text := t.flatMap escapePoint

/-- **What is written stands for the text.** -/
theorem unescapes_escaped : ∀ t : Text, Unescapes (escaped t) t
  | [] => .nil
  | c :: t => by
    have ih := unescapes_escaped t
    have hwritten := isWritten_escapePoint c
    rw [escaped, List.flatMap_cons]
    generalize escapePoint c = w at hwritten ⊢
    cases hwritten with
    | plain h =>
      simp only [isPlain, Bool.and_eq_true, Bool.not_eq_true'] at h
      exact .plain h.1.1 ih
    | escaped he _ _ => exact .escape (CodePoint.is_ofChar '\\') he ih

/-! ### Texts that are written -/

/-- Texts are written between double quotes, without a letter in front. -/
def plainQuoting : Quoting := ⟨[], doubleQuote, false, by simp, by simp, by decide⟩

theorem writeString_eq (t : Text) : writeString t = plainQuoting.literal (escaped t) := by
  simp [writeString, Quoting.literal, Quoting.quotes, plainQuoting, Text.lit]

theorem isLine_plain : ∀ {t : Text}, (∀ c ∈ t, isPlain c = true) → IsLine doubleQuote t
  | [], _ => .nil
  | c :: t, h => by
    obtain ⟨hc, ht⟩ := List.forall_mem_cons.mp h
    simp only [isPlain, Bool.and_eq_true, Bool.not_eq_true'] at hc
    have hquote : c ≠ doubleQuote := by
      rintro rfl
      exact absurd hc.1.2 (by decide)
    exact .plain hc.1.1 hquote hc.2 (isLine_plain ht)

theorem IsWritten.isLine {c : CodePoint} {t : Text} (h : IsWritten c t) : IsLine doubleQuote t := by
  cases h with
  | plain h => exact isLine_plain (List.forall_mem_singleton.mpr h)
  | escaped _ hd hr => exact .escaped (CodePoint.is_ofChar '\\') hd (isLine_plain hr)

/-- **What is written is a body**: the closing quote is the first that is not escaped. -/
theorem isLine_escaped : ∀ t : Text, IsLine doubleQuote (escaped t)
  | [] => .nil
  | c :: t => (isWritten_escapePoint c).isLine.append (isLine_escaped t)

/-- **The literal of a text is parsed as the text**: all that is written for a string is one literal, of the
same string. -/
theorem parse_quote (t : Text) : ∃ source, (Dyn.string t).quote = .ok (.string source) ∧
    parse source = .ok (.literal 0 (.string t)) := by
  have htakes : plainQuoting.Takes (escaped t) := isLine_escaped t
  refine ⟨writeString t, rfl, ?_⟩
  rw [writeString_eq, Quoting.parse_literal_iff htakes]
  exact ⟨t, unescapes_escaped t, rfl⟩

end LogStream.Filter
