import LogStream.Proofs.Filter.Numerals
import LogStream.Proofs.Filter.Quoted
import Mathlib.Tactic.SplitIfs

/-! # Literals without value

Some tokens of literals stand for nothing and still are no error of an expression: reading them ends in
a fault (`Token.IsValueless`). These are integers of more decimal digits than are read, quoted texts with
an escape whose number is that of no code point, and bytes of a text that has no UTF-8. Any other token of
a literal has a value, or an error is found where it starts (`outcome_readInteger`,
`outcome_readString`). -/

namespace LogStream.Filter

/-! ### Escapes of no code point -/

/-- The fault of an escape whose number is that of no code point. -/
def escapeFault (n : Nat) : Fault := if n < 0x80000000 then .badValue else .overflow

/-- The first escape of the text that cannot be read has a number that is that of no code point. -/
inductive HasBadNumber : Text → Nat → Prop
  | here {b : CodePoint} {mark : Char} {count : Nat} {r rest : Text} {ds : List Nat} (hb : b.is '\\')
      (h : (mark, count) ∈ [('x', 2), ('u', 4), ('U', 8)])
      (hr : r.mapM CodePoint.hexValue? = some ds) (hl : r.length = count)
      (hn : 0x110000 ≤ Text.numberOf 16 ds) :
      HasBadNumber (b :: CodePoint.ofChar mark :: (r ++ rest)) (Text.numberOf 16 ds)
  | plain {c : CodePoint} {r : Text} {n : Nat} (hc : c.is '\\' = false) (h : HasBadNumber r n) :
      HasBadNumber (c :: r) n
  | escape {b x : CodePoint} {e r : Text} {n : Nat} (hb : b.is '\\') (he : Escape e x)
      (h : HasBadNumber r n) : HasBadNumber (b :: (e ++ r)) n

theorem numbered_eq_fault {n : Nat} {f : Fault} (h : numbered n = .error (.fault f)) :
    0x110000 ≤ n ∧ f = escapeFault n := by
  unfold numbered at h
  split_ifs at h with h1 h2
  · cases h
    exact ⟨Nat.le_of_not_lt h1, (if_pos h2).symm⟩
  · cases h
    exact ⟨Nat.le_of_not_lt h1, (if_neg h2).symm⟩

/-- The digits that a mark asks for end in a fault only if their number is that of no code point. -/
theorem hasBadNumber_of_digits (mark : Char) {b d : CodePoint} {r : Text} {count : Nat} {f : Fault}
    (hb : b.is '\\') (hmem : (mark, count) ∈ [('x', 2), ('u', 4), ('U', 8)])
    (hmark : d.is mark = true)
    (h : (match escapeDigits? count r with
      | some n => do return (← numbered n, count + 1)
      | none => .error (.unknown d)) = (.error (.fault f) : Except EscapeError (CodePoint × Nat))) :
    ∃ n, HasBadNumber (b :: d :: r) n ∧ f = escapeFault n := by
  cases hd : escapeDigits? count r with
  | none => rw [hd] at h; cases h
  | some n =>
    obtain ⟨r', rest, ds, rfl, hl, hds, rfl⟩ := exists_of_escapeDigits? hd
    obtain rfl := CodePoint.eq_ofChar hmark
    rw [hd] at h
    dsimp only at h
    cases hn : numbered (Text.numberOf 16 ds) with
    | ok x => rw [hn] at h; cases h
    | error e =>
      rw [hn] at h
      cases h
      obtain ⟨hle, rfl⟩ := numbered_eq_fault hn
      exact ⟨_, .here hb hmem hds hl hle, rfl⟩

theorem hasBadNumber_of_readEscape {b d : CodePoint} {r : Text} {f : Fault} (hb : b.is '\\')
    (h : readEscape d r = .error (.fault f)) :
    ∃ n, HasBadNumber (b :: d :: r) n ∧ f = escapeFault n := by
  unfold readEscape at h
  dsimp only at h
  split at h
  · cases h
  · split at h
    · next hx => exact hasBadNumber_of_digits 'x' hb (by decide) hx h
    split at h
    · next hu => exact hasBadNumber_of_digits 'u' hb (by decide) hu h
    split at h
    · next hU => exact hasBadNumber_of_digits 'U' hb (by decide) hU h
    split at h <;> cases h

/-- By the length of the text, since an escape is read at once. -/
theorem hasBadNumber_of_unescapeFrom {f : Fault} : ∀ {t : Text},
    unescapeFrom 0 t = .error (.fault f) → ∃ n, HasBadNumber t n ∧ f = escapeFault n
  | [], h => by cases h
  | [c], h => by
    cases hc : c.is '\\' with
    | false => rw [unescapeFrom_plain hc] at h; cases h
    | true => rw [unescapeFrom_last hc] at h; cases h
  | c :: d :: r, h => by
    cases hc : c.is '\\' with
    | false =>
      rw [unescapeFrom_plain hc] at h
      obtain ⟨n, hn, rfl⟩ := hasBadNumber_of_unescapeFrom (eq_error_of_map h)
      exact ⟨n, .plain hc hn, rfl⟩
    | true =>
      rw [unescapeFrom_escape hc] at h
      split at h
      · next e hr =>
        cases h
        exact hasBadNumber_of_readEscape hc hr
      · next x k hx =>
        have hrest := eq_error_of_map h
        obtain ⟨e, rest, he, rfl, hescape⟩ := exists_escape_of_readEscape hx
        have hlength : rest.length ≤ (d :: r).length := by
          rw [he, List.length_append]
          exact Nat.le_add_left ..
        rw [unescapeFrom_eq, he, List.drop_left] at hrest
        obtain ⟨n, hn, rfl⟩ := hasBadNumber_of_unescapeFrom hrest
        rw [he]
        exact ⟨n, .escape hc hescape hn, rfl⟩
termination_by t => t.length
decreasing_by
  · exact Nat.lt_succ_self _
  · exact Nat.lt_succ_of_le hlength

/-! ### Tokens -/

/-- The token of a literal stands for nothing, for which there is a fault. -/
inductive Token.IsValueless (t : Token) : Fault → Prop
  | digits (h : ¬ t.IsReadable) : IsValueless t .badValue
  | escape {n : Nat} (hk : t.kind = .string) (hr : (quoteLetters t.text).any (·.isIn "rR") = false)
      (h : HasBadNumber (betweenQuotes (t.text.dropWhile (·.isIn "rRbB"))) n) :
      IsValueless t (escapeFault n)
  | bytes {content : Text} (hk : t.kind = .string)
      (hl : (quoteLetters t.text).any (·.isIn "bB") = true) (h : Says t.text content)
      (hw : ¬ ∀ c ∈ content, c.val < 256) (hb : Utf8.encode? content = none) :
      IsValueless t .notEncodable

/-- What comes of a token of a literal: a value, an error where it starts, or the fault of a token that
stands for nothing. -/
inductive Token.Outcome (t : Token) : Except CompileError Constant → Prop
  | value (c : Constant) : Outcome t (.ok c)
  | refused (cause : CompileCause) : Outcome t (.error (.at t.pos cause))
  | fault {f : Fault} (h : t.IsValueless f) : Outcome t (.error (.fault f))

/-- **An integer has a value, is out of range or has too many digits.** -/
theorem outcome_readInteger {t : Token} (hk : t.kind = .int) (ht : IsInteger t.text) :
    t.Outcome (readInteger t) := by
  by_cases hr : t.IsReadable
  · rcases ht with ⟨n, hn | ⟨ds, mark, ht, hm, hn⟩⟩
    · rw [readInteger_of_numeral hk hr hn]
      split
      · exact .refused _
      · exact .value _
    · rw [readInteger_of_mark hk hr ht hm hn]
      split
      · exact .refused _
      · exact .value _
  · have hfault (digits : Text) (f : Fault) (h : readNumeral digits = .error f) : f = .badValue := by
      unfold readNumeral at h
      split at h
      · split at h
        · cases h
        · cases hread : Text.readInt? _ <;> rw [hread] at h <;> cases h
          rfl
      · cases hread : Text.readInt? digits <;> rw [hread] at h <;> cases h
        rfl
    unfold readInteger
    dsimp only
    split
    · next f hf =>
      obtain rfl := hfault _ _ hf
      exact .fault (.digits hr)
    · split_ifs
      · exact .refused _
      · exact .value _
      · exact .refused _
      · exact .value _

theorem notEncodable_of_literalBytes {content : Text} {f : Fault}
    (h : literalBytes content = .error (.fault f)) :
    f = .notEncodable ∧ (¬ ∀ c ∈ content, c.val < 256) ∧ Utf8.encode? content = none := by
  unfold literalBytes at h
  split at h
  · cases h
  · next hw =>
    cases he : Utf8.encode? content with
    | some bs => rw [he] at h; cases h
    | none =>
      rw [he] at h
      cases h
      exact ⟨rfl, fun hall => hw (by simpa [List.all_eq_true] using hall), rfl⟩

theorem isValueless_of_readQuoted {t : Token} (hk : t.kind = .string) {f : Fault}
    (h : readQuoted t.text = .error (.fault f)) : t.IsValueless f := by
  rw [readQuoted_eq] at h
  cases hs : said t.text with
  | error e =>
    rw [hs] at h
    cases h
    unfold said at hs
    split at hs
    · cases hs
    · next hr =>
      obtain ⟨n, hn, rfl⟩ := hasBadNumber_of_unescapeFrom hs
      exact .escape hk (Bool.eq_false_iff.mpr hr) hn
  | ok content =>
    rw [hs] at h
    change ite _ _ _ = _ at h
    split at h
    · next hl =>
      cases hb : literalBytes content with
      | ok bs => rw [hb] at h; cases h
      | error e =>
        rw [hb] at h
        cases h
        obtain ⟨rfl, hw, he⟩ := notEncodable_of_literalBytes hb
        exact .bytes hk hl (said_eq_ok_iff.mp hs) hw he
    · cases h

/-- **A quoted text has a value, a bad escape or stands for nothing.** -/
theorem outcome_readString {t : Token} (hk : t.kind = .string) : t.Outcome (readString t) := by
  unfold readString
  split
  · exact .value _
  · exact .refused _
  · next h => exact .fault (isValueless_of_readQuoted hk h)

end LogStream.Filter
