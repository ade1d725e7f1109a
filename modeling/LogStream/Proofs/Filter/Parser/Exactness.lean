import LogStream.Proofs.Filter.Parser.Completeness
import LogStream.Proofs.Filter.Parser.Soundness
import LogStream.Proofs.Filter.Unambiguous

/-! # The parser accepts exactly the grammar

A text is parsed as a tree just if its tokens have a derivation that stands for the tree, and they
have no other derivation (`parse_exact`). The integers of the text must be short enough to be read:
a longer one is refused, even if it stands for a number that is small enough
(`not_parse_exact_of_zeros`). -/

namespace LogStream.Filter

theorem le_parseFuel (n : Nat) : 16 * n ≤ parseFuel n + 7 := by
  unfold parseFuel
  omega

/-- All of the tokens are parsed just if they are those of a derivation. -/
theorem parseExpr_eq_ok_iff {tokens : List Token} {stop : Nat} (hr : Regular tokens) {e : Expr} :
    parseExpr (parseFuel tokens.length) ⟨tokens, stop⟩ = .ok (e, ⟨[], stop⟩) ↔
      ∃ d : Derivation .expr, d.tokens = tokens ∧ d.Means e := by
  have hf := le_parseFuel tokens.length
  constructor
  · intro h
    obtain ⟨d, us, hread, hmeans, hj⟩ := (parsesRead _).expr hr h
    cases hj
    exact ⟨d, (readExpr_eq_some_iff hf).mp hread, hmeans⟩
  · rintro ⟨d, hd, hmeans⟩
    exact (readParses _).expr (i := ⟨tokens, stop⟩) hr ((readExpr_eq_some_iff hf).mpr hd) hmeans

/-- A text is parsed just if all of its tokens are. -/
theorem parse_eq_ok_iff {source : Text} {tokens : List Token} (ht : tokenize source = .ok tokens)
    (hr : Regular tokens) {e : Expr} : parse source = .ok e ↔
      parseExpr (parseFuel tokens.length) ⟨tokens, source.length⟩ =
        .ok (e, ⟨[], source.length⟩) := by
  unfold parse
  rw [scan_eq_ok ht, ok_bind]
  dsimp only
  split
  · next hempty =>
    constructor
    · nofun
    · intro h
      obtain ⟨d, hd, _⟩ := (parseExpr_eq_ok_iff hr).mp h
      exact absurd (hd.trans (List.isEmpty_iff.mp hempty)) d.tokens_ne_nil
  · constructor
    · intro h
      obtain ⟨⟨e', rest⟩, hparse, h⟩ := exists_of_bind_eq_ok h
      obtain ⟨d, us, -, -, rfl⟩ := (parsesRead _).expr hr hparse
      dsimp only at h
      split at h
      · next hend =>
        cases h
        rw [hparse, List.isEmpty_iff.mp hend]
      · cases h
    · intro h
      rw [h]
      rfl

/-- **The parser accepts exactly the grammar**: a text whose integers are short enough is parsed as
a tree just if its tokens have a derivation that stands for the tree, and they have no other one. -/
theorem parse_exact {source : Text} {tokens : List Token} (ht : tokenize source = .ok tokens)
    (hr : ∀ t ∈ tokens, t.IsReadable) :
    (∀ e, parse source = .ok e ↔ ∃ d : Derivation .expr, d.tokens = tokens ∧ d.Means e) ∧
      ∀ d d' : Derivation .expr, d.tokens = tokens → d'.tokens = tokens → d = d' := by
  have hregular := regular_of_tokenize ht hr
  constructor
  · intro e
    rw [parse_eq_ok_iff ht hregular]
    exact parseExpr_eq_ok_iff hregular
  · intro d d' hd hd'
    exact Derivation.eq_of_tokens (hd.trans hd'.symm)

instance (t : Token) : Decidable t.IsReadable := inferInstanceAs (Decidable (_ → _))

/-- An operand alone is an expression. -/
def Derivation.ofUnary (u : Derivation .unary) : Derivation .expr :=
  .plain (.single (by decide) (.single (by decide) (.single (by decide) (.single (by decide)
    (.single (by decide) (.operand rfl u))))))

theorem Derivation.means_ofUnary {u : Derivation .unary} {e : Expr} (h : u.Means e) :
    (ofUnary u).Means e :=
  .plain (.single _ (.single _ (.single _ (.single _ (.single _ (.operand _ h))))))

/-- An operand alone stands for what the expression stands for: one level after the other. -/
theorem Derivation.means_of_ofUnary {u : Derivation .unary} {e : Expr} (h : (ofUnary u).Means e) :
    u.Means e := by
  cases h with | plain h =>
  cases h with | single _ h =>
  cases h with | single _ h =>
  cases h with | single _ h =>
  cases h with | single _ h =>
  cases h with | single _ h =>
  cases h with | operand _ h => exact h

/-- The token of a literal alone. -/
def Derivation.ofLiteral (t : Token) (h : t.kind = .int ∨ t.kind = .float ∨ t.kind = .string) :
    Derivation .expr := .ofUnary (.bare (.primary (.literal t h)))

theorem Derivation.means_ofLiteral_iff {t : Token} {h : t.kind = .int ∨ t.kind = .float ∨ t.kind = .string}
    {e : Expr} : (ofLiteral t h).Means e ↔ ∃ c, e = .literal t.pos c ∧ t.Denotes c := by
  constructor
  · intro hmeans
    cases means_of_ofUnary hmeans with | bare hmember =>
    cases hmember with | primary hprimary =>
    cases hprimary with | literal _ hc => exact ⟨_, rfl, hc⟩
  · rintro ⟨c, rfl, hc⟩
    exact means_ofUnary (.bare (.primary (.literal h hc)))

/-- **A text that is one quoted text is parsed as the constant that it denotes.** -/
theorem parse_eq_literal_iff {source : Text} {t : Token} (ht : tokenize source = .ok [t])
    (hk : t.kind = .string) {c : Constant} : parse source = .ok (.literal t.pos c) ↔ t.Denotes c := by
  have hreadable : ∀ k ∈ [t], k.IsReadable := by simp [Token.IsReadable, hk]
  have hregular := regular_of_tokenize ht hreadable
  rw [parse_eq_ok_iff ht hregular, parseExpr_eq_ok_iff hregular]
  constructor
  · rintro ⟨d, hd, hmeans⟩
    obtain rfl : d = .ofLiteral t (.inr (.inr hk)) := Derivation.eq_of_tokens hd
    obtain ⟨c', heq, hc⟩ := Derivation.means_ofLiteral_iff.mp hmeans
    cases heq
    exact hc
  · intro hc
    exact ⟨.ofLiteral t (.inr (.inr hk)), rfl, Derivation.means_ofLiteral_iff.mpr ⟨c, rfl, hc⟩⟩

/-- The sign of a number belongs to it. -/
theorem parse_exact_negative : parse (Text.lit "-1") = .ok (.literal 0 (.int (-1))) := by
  let sign : Sign := ⟨⟨.op, Text.lit "-", 0⟩, .neg, by decide⟩
  let number : Token := ⟨.int, Text.lit "1", 1⟩
  have ht : tokenize (Text.lit "-1") = .ok [sign.token, number] :=
    tokenize_eq_ok (by decide +kernel)
  have hone : number.Denotes (.int 1) :=
    .int rfl (@IsNumeral.decimal (Text.lit "1") [1] (by decide) (by decide)) (by decide)
  refine ((parse_exact ht (by decide)).1 _).mpr
    ⟨.ofUnary (.signed sign (.bare (.primary (.literal number (.inl rfl))))), rfl, ?_⟩
  exact Derivation.means_ofUnary (.signed sign (.bare (.primary (.literal (.inl rfl) hone))) (.int 1))

/-! ### Integers with too many digits -/

/-- Zeros in a row. -/
def zeros (n : Nat) : Text := List.replicate n (CodePoint.ofChar '0')

theorem mapM_zeros : ∀ n, (zeros n).mapM CodePoint.decimal? = some (List.replicate n 0)
  | 0 => rfl
  | n + 1 => by
    rw [zeros, List.replicate_succ, List.mapM_cons, ← zeros, mapM_zeros n]
    rfl

theorem isNumeral_zeros (n : Nat) : IsNumeral (zeros (n + 1)) 0 := by
  have hnumber : ∀ n, Text.numberOf 10 (List.replicate n 0) = 0 := by
    intro n
    induction n with
    | zero => rfl
    | succ n ih => exact ih
  have h := IsNumeral.decimal (mapM_zeros (n + 1)) (List.cons_ne_nil _ _)
  rwa [hnumber] at h

theorem runLength_zeros (n : Nat) : runLength CodePoint.isDecimal (zeros n) = n := by
  have hzero : CodePoint.isDecimal (CodePoint.ofChar '0') = true := by decide
  unfold runLength zeros
  rw [List.takeWhile_replicate, if_pos hzero, List.length_replicate]

theorem hexLength_zeros : ∀ n, hexLength (zeros n) = 0
  | 0 | 1 | _ + 2 => rfl

theorem lexeme?_zeros (n : Nat) : lexeme? (zeros (n + 1)) = some (some .int, n + 1) := by
  have hdrop : (zeros (n + 1)).drop (n + 1) = [] := List.drop_of_length_le (by simp [zeros])
  have hblank : blankLength (zeros (n + 1)) = 0 := rfl
  have hstring : stringLength (zeros (n + 1)) = 0 := rfl
  have hfloat : floatLength (zeros (n + 1)) = 0 := by
    have hfraction : fractionLength [] = 0 := rfl
    unfold floatLength
    dsimp only
    rw [runLength_zeros, hdrop, hfraction, Nat.add_zero, hdrop]
    exact if_pos (.inr rfl)
  have hint : intLength (zeros (n + 1)) = n + 1 := by
    unfold intLength
    dsimp only
    rw [hexLength_zeros, runLength_zeros, if_pos rfl, hdrop]
    rfl
  unfold lexeme?
  rw [hblank, hstring, hfloat, hint]
  rfl

theorem lexFrom_of_length_le : ∀ {t : Text} {pos skip : Nat}, t.length ≤ skip →
    lexFrom pos skip t = ([], [])
  | [], _, _, _ => rfl
  | c :: r, pos, skip, h => by
    rw [List.length_cons] at h
    rw [lexFrom, if_pos (by omega), lexFrom_of_length_le (by omega)]

/-- Zeros are the token of one integer. -/
theorem tokenize_zeros (n : Nat) :
    tokenize (zeros (n + 1)) = .ok [⟨.int, zeros (n + 1), 0⟩] := by
  have htake : (zeros (n + 1)).take (n + 1) = zeros (n + 1) :=
    List.take_of_length_le (by simp [zeros])
  have hlex : lex (zeros (n + 1)) = ([⟨.int, zeros (n + 1), 0⟩], []) := by
    rw [lex, zeros, List.replicate_succ, lexFrom, if_neg (by decide), ← List.replicate_succ, ← zeros,
      lexeme?_zeros, lexBehind]
    dsimp only
    rw [lexFrom_of_length_le (by simp), htake]
  unfold tokenize
  rw [hlex]

/-- An integer alone that is not read is not parsed. -/
theorem parseExpr_of_readInteger {t : Token} (hk : t.kind = .int) {error : CompileError}
    (h : readInteger t = .error error) (fuel stop : Nat) :
    parseExpr (fuel + 9) ⟨[t], stop⟩ = .error error := by
  have hunary : t.unaryOp? = none := by
    unfold Token.unaryOp? Token.is
    rw [hk]
    rfl
  have hprimary : parsePrimary (fuel + 1) ⟨[t], stop⟩ = .error error := by
    rw [parsePrimary.eq_def]
    dsimp only
    rw [hk]
    dsimp only
    rw [h]
    rfl
  have hchain : parseChain (fuel + 3) 5 ⟨[t], stop⟩ = .error error := by
    rw [parseChain, if_neg (by decide), parseUnary, List.head?_cons, Option.bind_some, hunary]
    dsimp only
    rw [hprimary]
    rfl
  have hlevels : ∀ k ≤ 5, parseChain (fuel + 3 + k) (5 - k) ⟨[t], stop⟩ = .error error := by
    intro k hk
    induction k with
    | zero => exact hchain
    | succ k ih =>
      have hlevel : 5 - (k + 1) + 1 = 5 - k := by omega
      rw [← Nat.add_assoc, parseChain, if_pos (by unfold BinaryOp.levels; omega), hlevel,
        ih (by omega)]
      rfl
  rw [parseExpr, hlevels 5 (Nat.le_refl 5)]
  rfl

/-- **Zeros are refused if they are more than the digits that are read.** -/
theorem parse_zeros {n : Nat} (hn : Text.maxDigits ≤ n) :
    parse (zeros (n + 1)) = .error (.fault .badValue) := by
  have hlength : Text.maxDigits < (zeros (n + 1)).length := by
    rw [zeros, List.length_replicate]
    omega
  have hread := readInteger_of_long (t := ⟨.int, zeros (n + 1), 0⟩) (mapM_zeros (n + 1)) hlength
  unfold parse
  rw [scan_eq_ok (tokenize_zeros n), ok_bind]
  dsimp only
  have hparse := parseExpr_of_readInteger rfl hread 39 (zeros (n + 1)).length
  exact congrArg (· >>= _) hparse

/-- Zeros are derived all the same, and stand for the number zero. -/
theorem exists_derivation_zeros (n : Nat) : ∃ d : Derivation .expr,
    d.tokens = [⟨.int, zeros (n + 1), 0⟩] ∧ d.Means (.literal 0 (.int 0)) := by
  have hzero : (Token.mk .int (zeros (n + 1)) 0).Denotes (.int 0) :=
    .int rfl (isNumeral_zeros n) (Nat.zero_le _)
  exact ⟨.ofUnary (.bare (.primary (.literal _ (.inl rfl)))), rfl,
    Derivation.means_ofUnary (.bare (.primary (.literal (.inl rfl) hzero)))⟩

/-- A derivation that stands for a number does not make a text one that is parsed. -/
theorem not_parse_exact_of_zeros :
    ∃ tokens, tokenize (zeros 4301) = .ok tokens ∧
      ¬ ∀ e, parse (zeros 4301) = .ok e ↔ ∃ d : Derivation .expr, d.tokens = tokens ∧ d.Means e := by
  refine ⟨_, tokenize_zeros 4300, fun h => ?_⟩
  have hok := (h (.literal 0 (.int 0))).mpr (exists_derivation_zeros 4300)
  cases (parse_zeros (Nat.le_refl 4300)).symm.trans hok

end LogStream.Filter
