import Mathlib
import LogStream.Proofs.Filter.Tokens
import LogStream.Proofs.Text.Runs

/-! # Quoted texts

A quoted text has up to two letters, a body, and one or three quotes on either side of it (`Quoting`). Between
single quotes the body is on one line and no quote in it stands without a backslash (`IsLine`); between three
quotes it is what comes before the next three. So a quoted text is found again by the scanner, which takes all
of it (`Quoting.stringLength_literal`), and the scanner finds nothing else (`Quoting.exists_of_stringLength`).
Bodies of the same quoting can be joined (`Quoting.Takes.append`). -/

namespace LogStream.Filter

/-! ### Runs -/

section Runs

variable {p : CodePoint → Bool} {w rest : Text}

/-- A run ends in front of what does not belong to it. -/
theorem runLength_append (hw : ∀ c ∈ w, p c = true) (hrest : ∀ c ∈ rest.head?, p c = false) :
    runLength p (w ++ rest) = w.length := by
  unfold runLength
  rw [Text.takeWhile_append hw hrest]

theorem runLength_eq_zero (hrest : ∀ c ∈ rest.head?, p c = false) : runLength p rest = 0 :=
  runLength_append (w := []) (List.forall_mem_nil _) hrest

/-- A text starts with its longest run. -/
theorem exists_run (p : CodePoint → Bool) (t : Text) : ∃ w rest, t = w ++ rest ∧
    (∀ c ∈ w, p c = true) ∧ (∀ c ∈ rest.head?, p c = false) ∧ runLength p t = w.length := by
  obtain ⟨w, rest, rfl, hw, hrest⟩ := Text.exists_run p t
  exact ⟨w, rest, rfl, hw, hrest, runLength_append hw hrest⟩

theorem runLength_le (p : CodePoint → Bool) (t : Text) : runLength p t ≤ t.length :=
  (List.takeWhile_prefix p).length_le

end Runs

/-! ### Bodies between single quotes -/

/-- What may stand between single quotes: code points on one line, those behind a backslash
unexamined. -/
inductive IsLine (quote : CodePoint) : Text → Prop
  | nil : IsLine quote []
  | plain {c : CodePoint} {r : Text} (hb : c.is '\\' = false) (hq : c ≠ quote)
      (hn : c.is '\n' = false) (h : IsLine quote r) : IsLine quote (c :: r)
  | escaped {b d : CodePoint} {r : Text} (hb : b.is '\\' = true) (hd : d.is '\n' = false)
      (h : IsLine quote r) : IsLine quote (b :: d :: r)

section Line

variable {quote : CodePoint} {body t : Text} {n : Nat}

theorem IsLine.append {body' : Text} (h : IsLine quote body) (h' : IsLine quote body') :
    IsLine quote (body ++ body') := by
  induction h with
  | nil => exact h'
  | plain hb hq hn _ ih => exact .plain hb hq hn ih
  | escaped hb hd _ ih => exact .escaped hb hd ih

/-- The scanner finds the quote behind a body. -/
theorem IsLine.toQuote? (h : IsLine quote body) (hq : quote.is '\\' = false) (rest : Text) :
    toQuote? quote (body ++ quote :: rest) = some (body.length + 1) := by
  induction h with
  | nil =>
    rw [List.nil_append, toQuote?.eq_def]
    simp [hq]
  | plain hb hne hn _ ih =>
    rw [List.cons_append, toQuote?.eq_def]
    simp [hb, hne, hn, ih]
  | escaped hb hd _ ih =>
    rw [List.cons_append, List.cons_append, toQuote?.eq_def]
    simp [hb, hd, ih]

/-- What the scanner passes over is a body. -/
theorem exists_of_toQuote? : ∀ {t : Text} {n : Nat}, toQuote? quote t = some n →
    ∃ body rest, t = body ++ quote :: rest ∧ n = body.length + 1 ∧ IsLine quote body
  | [], _, h => by
    rw [toQuote?] at h
    cases h
  | c :: r, n, h => by
    rw [toQuote?.eq_def] at h
    dsimp only at h
    cases hb : c.is '\\' with
    | true =>
      rw [hb, if_pos rfl] at h
      match r, h with
      | d :: r', h =>
        dsimp only at h
        split at h
        · cases h
        · next hd =>
          obtain ⟨m, hm, rfl⟩ := Option.map_eq_some_iff.mp h
          obtain ⟨body, rest, rfl, rfl, hbody⟩ := exists_of_toQuote? hm
          exact ⟨c :: d :: body, rest, rfl, rfl, .escaped hb (by simpa using hd) hbody⟩
    | false =>
      rw [hb, if_neg Bool.false_ne_true] at h
      split at h
      · next hq =>
        cases h
        exact ⟨[], r, by rw [hq, List.nil_append], rfl, .nil⟩
      · next hq =>
        split at h
        · cases h
        · next hn =>
          obtain ⟨m, hm, rfl⟩ := Option.map_eq_some_iff.mp h
          obtain ⟨body, rest, rfl, rfl, hbody⟩ := exists_of_toQuote? hm
          exact ⟨c :: body, rest, rfl, rfl, .plain hb hq (by simpa using hn) hbody⟩

theorem IsLine.head_ne (h : IsLine quote body) (hq : quote.is '\\' = false) :
    ∀ c ∈ body.head?, c ≠ quote := by
  cases h with
  | nil => simp
  | plain hb hne hn _ => simpa using hne
  | escaped hb hd _ =>
    simp only [List.head?_cons, Option.mem_def, Option.some.injEq, forall_eq']
    rintro rfl
    rw [hb] at hq
    cases hq

end Line

/-! ### Bodies between three quotes -/

section Triple

variable {quote : CodePoint} {body t : Text} {n : Nat}

theorem three_infix_cons {c : CodePoint} : [quote, quote, quote] <:+: c :: t ↔
    (c = quote ∧ [quote, quote] <+: t) ∨ [quote, quote, quote] <:+: t := by
  rw [List.infix_cons_iff, List.cons_prefix_cons]
  exact or_congr_left (and_congr_left' eq_comm)

/-- The scanner finds the three quotes behind a body that does not run into three quotes itself. -/
theorem toTripleQuote?_append : ∀ {body : Text},
    ¬ [quote, quote, quote] <:+: body ++ [quote, quote] → ∀ rest,
    toTripleQuote? quote (body ++ quote :: quote :: quote :: rest) = some (body.length + 3)
  | [], _, rest => by
    rw [List.nil_append, toTripleQuote?]
    simp [List.isPrefixOf]
  | c :: body, h, rest => by
    rw [List.cons_append, three_infix_cons, not_or] at h
    rw [List.cons_append, toTripleQuote?, if_neg, toTripleQuote?_append h.2]
    · rfl
    · rintro ⟨rfl, hpre⟩
      refine h.1 ⟨rfl, ?_⟩
      rw [List.isPrefixOf_iff_prefix] at hpre
      have hfront : body ++ [c, c] <+: body ++ c :: c :: c :: rest := by simp
      exact List.prefix_of_prefix_length_le hpre hfront (by simp)

/-- What the scanner passes over does not run into three quotes. -/
theorem exists_of_toTripleQuote? : ∀ {t : Text} {n : Nat}, toTripleQuote? quote t = some n →
    ∃ body rest, t = body ++ quote :: quote :: quote :: rest ∧ n = body.length + 3 ∧
      ¬ [quote, quote, quote] <:+: body ++ [quote, quote]
  | [], _, h => by
    rw [toTripleQuote?] at h
    cases h
  | c :: r, n, h => by
    rw [toTripleQuote?] at h
    split at h
    · next hc =>
      cases h
      obtain ⟨rfl, hpre⟩ := hc
      obtain ⟨rest, rfl⟩ := List.isPrefixOf_iff_prefix.mp hpre
      refine ⟨[], rest, rfl, rfl, fun hinfix => ?_⟩
      have hle := hinfix.length_le
      simp at hle
    · next hc =>
      obtain ⟨m, hm, rfl⟩ := Option.map_eq_some_iff.mp h
      obtain ⟨body, rest, rfl, rfl, hbody⟩ := exists_of_toTripleQuote? hm
      refine ⟨c :: body, rest, rfl, rfl, ?_⟩
      rw [List.cons_append, three_infix_cons, not_or]
      refine ⟨fun ⟨hq, hpre⟩ => hc ⟨hq, ?_⟩, hbody⟩
      have hfront : body ++ [quote, quote] <+: body ++ quote :: quote :: quote :: rest := by simp
      exact List.isPrefixOf_iff_prefix.mpr (hpre.trans hfront)

/-- Two bodies that do not run into three quotes do not so together. -/
theorem not_three_infix_append : ∀ {body body' : Text},
    ¬ [quote, quote, quote] <:+: body ++ [quote, quote] →
    ¬ [quote, quote, quote] <:+: body' ++ [quote, quote] →
    ¬ [quote, quote, quote] <:+: body ++ body' ++ [quote, quote]
  | [], _, _, h' => h'
  | c :: body, body', h, h' => by
    rw [List.cons_append, three_infix_cons, not_or] at h
    rw [List.cons_append, List.cons_append, three_infix_cons, not_or]
    refine ⟨fun ⟨hc, hpre⟩ => h.1 ⟨hc, ?_⟩, not_three_infix_append h.2 h'⟩
    -- The two quotes behind the first one are in the first body as far as it goes.
    match body, hpre with
    | [], _ => simp
    | [d], hpre => simpa using (List.cons_prefix_cons.mp hpre).1
    | d :: e :: body, hpre => simpa using hpre

end Triple

/-! ### Quoted texts -/

/-- How a text is quoted: the letters in front, and the quote that stands once or three times on either
side. -/
structure Quoting where
  letters : Text
  quote : CodePoint
  isTripled : Bool
  length_letters : letters.length ≤ 2
  isLetter : ∀ c ∈ letters, c.isIn "rRbB" = true
  isQuote : quote.isIn "'\"" = true

namespace Quoting

/-- The quotes on one side. -/
def quotes (q : Quoting) : Text := if q.isTripled then [q.quote, q.quote, q.quote] else [q.quote]

/-- A body between its quotes, behind the letters. -/
def literal (q : Quoting) (body : Text) : Text := q.letters ++ (q.quotes ++ (body ++ q.quotes))

/-- The text can stand between the quotes. -/
def Takes (q : Quoting) (body : Text) : Prop :=
  if q.isTripled then ¬ [q.quote, q.quote, q.quote] <:+: body ++ [q.quote, q.quote]
  else IsLine q.quote body

variable {q : Quoting} {body body' rest : Text}

/-- **Bodies can be joined.** -/
theorem Takes.append (h : q.Takes body) (h' : q.Takes body') : q.Takes (body ++ body') := by
  unfold Takes at h h' ⊢
  split_ifs at h h' ⊢
  · exact not_three_infix_append h h'
  · exact h.append h'

theorem quote_cases (q : Quoting) :
    q.quote = CodePoint.ofChar '\'' ∨ q.quote = CodePoint.ofChar '"' := by
  have h := q.isQuote
  simp only [CodePoint.isIn, show "'\"".toList = ['\'', '"'] from rfl, List.any_cons, List.any_nil,
    Bool.or_false, Bool.or_eq_true] at h
  exact h.imp CodePoint.eq_ofChar CodePoint.eq_ofChar

theorem quote_not_backslash (q : Quoting) : q.quote.is '\\' = false := by
  rcases q.quote_cases with h | h <;> rw [h] <;> decide

theorem quote_not_letter (q : Quoting) : q.quote.isIn "rRbB" = false := by
  rcases q.quote_cases with h | h <;> rw [h] <;> decide

theorem quotes_eq_cons (q : Quoting) : ∃ r, q.quotes = q.quote :: r := by
  unfold quotes
  split_ifs <;> exact ⟨_, rfl⟩

/-- The letters are those in front of the quotes. -/
theorem runLength_letters (q : Quoting) (r : Text) :
    runLength (·.isIn "rRbB") ((q.letters ++ q.quote :: r).take 2) = q.letters.length := by
  rw [List.take_append, List.take_of_length_le q.length_letters]
  refine runLength_append q.isLetter fun c hc => ?_
  obtain rfl : c = q.quote := by
    cases hn : 2 - q.letters.length with
    | zero => simp [hn] at hc
    | succ n => simpa [hn, eq_comm] using hc
  exact q.quote_not_letter

end Quoting

/-! ### The scanner -/

/-- The scanners of quoted texts, in the order they are tried. -/
def scanQuoted (body : Text) : Option Nat :=
  tripleQuoted? (CodePoint.ofChar '\'') body <|> tripleQuoted? (CodePoint.ofChar '"') body <|>
    singleQuoted? (CodePoint.ofChar '\'') body <|> singleQuoted? (CodePoint.ofChar '"') body

theorem stringLength_eq (t : Text) : stringLength t =
    match scanQuoted (t.drop (runLength (·.isIn "rRbB") (t.take 2))) with
    | some n => runLength (·.isIn "rRbB") (t.take 2) + n
    | none => 0 := rfl

section Scan

variable {quote c : CodePoint} {r body rest : Text} {n : Nat}

theorem tripleQuoted?_of_ne (h : c ≠ quote) : tripleQuoted? quote (c :: r) = none := by
  simp [tripleQuoted?, List.isPrefixOf, Ne.symm h]

theorem singleQuoted?_of_ne (h : c ≠ quote) : singleQuoted? quote (c :: r) = none := by
  simp [singleQuoted?, List.isPrefixOf, Ne.symm h]

/-- A text that starts with a quote is scanned as one between three of this quote, or else between
single ones. -/
theorem scanQuoted_cons (hquote : quote.isIn "'\"" = true) (r : Text) : scanQuoted (quote :: r) =
    (tripleQuoted? quote (quote :: r) <|> singleQuoted? quote (quote :: r)) := by
  have hne : CodePoint.ofChar '\'' ≠ CodePoint.ofChar '"' := by decide
  unfold scanQuoted
  rcases (Quoting.mk [] quote false (by simp) (by simp) hquote).quote_cases with h | h
  · dsimp only at h
    subst h
    rw [tripleQuoted?_of_ne hne, singleQuoted?_of_ne hne]
    simp
  · dsimp only at h
    subst h
    rw [tripleQuoted?_of_ne hne.symm, singleQuoted?_of_ne hne.symm]
    simp

theorem tripleQuoted?_eq_some_iff : tripleQuoted? quote r = some n ↔
    ∃ body rest, r = [quote, quote, quote] ++ (body ++ ([quote, quote, quote] ++ rest)) ∧
      n = body.length + 6 ∧ ¬ [quote, quote, quote] <:+: body ++ [quote, quote] := by
  unfold tripleQuoted?
  constructor
  · intro h
    split at h
    · next hpre =>
      obtain ⟨s, rfl⟩ := List.isPrefixOf_iff_prefix.mp hpre
      obtain ⟨m, hm, rfl⟩ := Option.map_eq_some_iff.mp h
      obtain ⟨body, rest, hs, rfl, hbody⟩ := exists_of_toTripleQuote? hm
      exact ⟨body, rest, congrArg _ hs, by omega, hbody⟩
    · cases h
  · rintro ⟨body, rest, rfl, rfl, hbody⟩
    have hscan := toTripleQuote?_append hbody rest
    simp [List.isPrefixOf, hscan]

theorem singleQuoted?_eq_some_iff (hquote : quote.is '\\' = false) :
    singleQuoted? quote r = some n ↔ ∃ body rest, r = quote :: (body ++ quote :: rest) ∧
      n = body.length + 2 ∧ IsLine quote body := by
  unfold singleQuoted?
  constructor
  · intro h
    split at h
    · next hpre =>
      obtain ⟨s, rfl⟩ := List.isPrefixOf_iff_prefix.mp hpre
      obtain ⟨m, hm, rfl⟩ := Option.map_eq_some_iff.mp h
      obtain ⟨body, rest, hs, rfl, hbody⟩ := exists_of_toQuote? hm
      exact ⟨body, rest, congrArg _ hs, by omega, hbody⟩
    · cases h
  · rintro ⟨body, rest, rfl, rfl, hbody⟩
    have hscan := hbody.toQuote? hquote rest
    simp [List.isPrefixOf, hscan]

end Scan

namespace Quoting

variable {q : Quoting} {body rest t : Text}

/-- The scanner of the quoting takes a body with its quotes. -/
theorem scanQuoted_literal (h : q.Takes body)
    (hrest : q.isTripled = false → body = [] → ∀ c ∈ rest.head?, c ≠ q.quote) :
    scanQuoted (q.quotes ++ (body ++ (q.quotes ++ rest))) =
      some (q.quotes ++ (body ++ q.quotes)).length := by
  unfold Takes at h
  cases htripled : q.isTripled with
  | true =>
    have hquotes : q.quotes = [q.quote, q.quote, q.quote] := by simp [quotes, htripled]
    rw [htripled, if_pos rfl] at h
    have hscan := tripleQuoted?_eq_some_iff.mpr ⟨body, rest, rfl, rfl, h⟩
    rw [hquotes, List.cons_append, scanQuoted_cons q.isQuote]
    rw [List.cons_append] at hscan
    rw [hscan]
    simp
  | false =>
    have hquotes : q.quotes = [q.quote] := by simp [quotes, htripled]
    rw [htripled, if_neg Bool.false_ne_true] at h
    have hscan := (singleQuoted?_eq_some_iff q.quote_not_backslash).mpr ⟨body, rest, rfl, rfl, h⟩
    -- No three quotes: the second code point is no quote, or the third.
    have htriple : tripleQuoted? q.quote (q.quote :: (body ++ q.quote :: rest)) = none := by
      unfold tripleQuoted?
      rw [if_neg]
      cases hbody : body with
      | nil =>
        cases rest with
        | nil => simp [List.isPrefixOf]
        | cons c r =>
          have hc := hrest htripled hbody c (by simp)
          simp [List.isPrefixOf, hc.symm]
      | cons c s =>
        have hc := h.head_ne q.quote_not_backslash c (by simp [hbody])
        simp [List.isPrefixOf, hc.symm]
    rw [hquotes, List.singleton_append, List.singleton_append, scanQuoted_cons q.isQuote, htriple, hscan]
    simp

theorem exists_of_scanQuoted {n : Nat} (h : scanQuoted t = some n) :
    ∃ (quote : CodePoint) (isTripled : Bool), quote.isIn "'\"" = true ∧
      ∀ q : Quoting, q.quote = quote → q.isTripled = isTripled → ∃ body rest,
        t = q.quotes ++ (body ++ (q.quotes ++ rest)) ∧ n = (q.quotes ++ (body ++ q.quotes)).length ∧
          q.Takes body := by
  have htriple {quote : CodePoint} (h : tripleQuoted? quote t = some n) (q : Quoting)
      (hq : q.quote = quote) (hthree : q.isTripled = true) : ∃ body rest,
      t = q.quotes ++ (body ++ (q.quotes ++ rest)) ∧ n = (q.quotes ++ (body ++ q.quotes)).length ∧
        q.Takes body := by
    obtain ⟨body, rest, ht, hn, hbody⟩ := tripleQuoted?_eq_some_iff.mp h
    subst hq
    exact ⟨body, rest, by simpa [quotes, hthree] using ht, by simp [quotes, hthree, hn],
      by simpa [Takes, hthree] using hbody⟩
  have hsingle {quote : CodePoint} (h : singleQuoted? quote t = some n) (q : Quoting)
      (hq : q.quote = quote) (hone : q.isTripled = false) : ∃ body rest,
      t = q.quotes ++ (body ++ (q.quotes ++ rest)) ∧ n = (q.quotes ++ (body ++ q.quotes)).length ∧
        q.Takes body := by
    subst hq
    obtain ⟨body, rest, ht, hn, hbody⟩ := (singleQuoted?_eq_some_iff q.quote_not_backslash).mp h
    exact ⟨body, rest, by simpa [quotes, hone] using ht, by simp [quotes, hone, hn],
      by simpa [Takes, hone] using hbody⟩
  simp only [scanQuoted, Option.orElse_eq_some] at h
  rcases h with h | ⟨-, h | ⟨-, h | ⟨-, h⟩⟩⟩
  · exact ⟨_, true, by decide, htriple h⟩
  · exact ⟨_, true, by decide, htriple h⟩
  · exact ⟨_, false, by decide, hsingle h⟩
  · exact ⟨_, false, by decide, hsingle h⟩

/-- **All of a quoted text is taken**, unless its two quotes may be the first of three. -/
theorem stringLength_literal (h : q.Takes body)
    (hrest : q.isTripled = false → body = [] → ∀ c ∈ rest.head?, c ≠ q.quote) :
    stringLength (q.literal body ++ rest) = (q.literal body).length := by
  obtain ⟨r, hr⟩ := q.quotes_eq_cons
  have hletters : runLength (·.isIn "rRbB") ((q.literal body ++ rest).take 2) = q.letters.length := by
    simp only [literal, hr, List.append_assoc, List.cons_append]
    exact q.runLength_letters _
  have hbody : (q.literal body ++ rest).drop q.letters.length =
      q.quotes ++ (body ++ (q.quotes ++ rest)) := by
    simp [literal]
  rw [stringLength_eq, hletters, hbody, scanQuoted_literal h hrest]
  simp [literal]

theorem literal_ne_nil (q : Quoting) (body : Text) : q.literal body ≠ [] := by
  obtain ⟨r, hr⟩ := q.quotes_eq_cons
  simp [literal, hr]

/-- In front of a quoted text the scanner takes something, whatever stands behind it. -/
theorem stringLength_ne_zero (h : q.Takes body) (rest : Text) :
    stringLength (q.literal body ++ rest) ≠ 0 := by
  by_cases hrest : q.isTripled = false → body = [] → ∀ c ∈ rest.head?, c ≠ q.quote
  · rw [stringLength_literal h hrest]
    exact List.length_pos_iff.mpr (q.literal_ne_nil body) |>.ne'
  · -- The two quotes of an empty body are taken, if no three quotes are.
    simp only [not_forall, not_not] at hrest
    obtain ⟨hone, rfl, c, -, rfl⟩ := hrest
    have hquotes : q.quotes = [q.quote] := by simp [quotes, hone]
    have hletters : runLength (·.isIn "rRbB") ((q.literal [] ++ rest).take 2) = q.letters.length := by
      simp only [literal, hquotes, List.append_assoc, List.singleton_append, List.nil_append]
      exact q.runLength_letters _
    have hdrop : (q.literal [] ++ rest).drop q.letters.length = q.quote :: q.quote :: rest := by
      simp [literal, hquotes]
    have hsingle : singleQuoted? q.quote (q.quote :: q.quote :: rest) = some 2 :=
      (singleQuoted?_eq_some_iff q.quote_not_backslash).mpr ⟨[], rest, rfl, rfl, .nil⟩
    rw [stringLength_eq, hletters, hdrop, scanQuoted_cons q.isQuote, hsingle]
    cases hn : tripleQuoted? q.quote (q.quote :: q.quote :: rest) with
    | none => simp
    | some n =>
      obtain ⟨body, -, -, rfl, -⟩ := tripleQuoted?_eq_some_iff.mp hn
      simp

/-- **What the scanner takes is a quoted text.** -/
theorem exists_of_stringLength (h : stringLength t ≠ 0) : ∃ (q : Quoting) (body rest : Text),
    t = q.literal body ++ rest ∧ q.Takes body ∧ stringLength t = (q.literal body).length := by
  obtain ⟨letters, s, hs, hletters, -, hlength⟩ := exists_run (·.isIn "rRbB") (t.take 2)
  have hle : letters.length ≤ 2 := by
    have := congrArg List.length hs
    rw [List.length_append, List.length_take] at this
    omega
  obtain ⟨r, rfl⟩ : ∃ r, t = letters ++ r :=
    ⟨s ++ t.drop 2, by rw [← List.append_assoc, ← hs, List.take_append_drop]⟩
  rw [stringLength_eq, hlength, List.drop_left] at h ⊢
  split at h
  · next n hn =>
    obtain ⟨quote, isTripled, hquote, hscan⟩ := exists_of_scanQuoted hn
    let q : Quoting := ⟨letters, quote, isTripled, hle, hletters, hquote⟩
    obtain ⟨body, rest, rfl, rfl, hbody⟩ := hscan q rfl rfl
    refine ⟨q, body, rest, ?_, hbody, ?_⟩
    · simp [literal, q]
    · simp [literal, q]
  · exact absurd rfl h

end Quoting

end LogStream.Filter
