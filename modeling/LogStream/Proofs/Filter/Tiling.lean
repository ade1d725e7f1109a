import Mathlib
import LogStream.Proofs.Filter.Lexemes.Apart

/-! # The tokens of a text tile it

Token by token, with blank space between, the scanner goes through a text from its start (`Tiles`), to its
end or to a place where there is no lexeme (`exists_tiles_lexFrom`). So tokens are the pieces of the text at
their places, one behind the other; and since a lexeme is found again in front of a blank, the texts of the
tokens with blanks between them are cut into the same tokens (`lexFrom_spaced`). -/

namespace LogStream.Filter

/-! ### Tilings -/

/-- The text from one place to another is blank space and the lexemes of the tokens, one behind the
other. -/
inductive Tiles : Nat → Text → List Token → Nat → Prop
  | nil {pos : Nat} : Tiles pos [] [] pos
  | blank {pos stop : Nat} {w t : Text} {ts : List Token} (hw : IsBlank w)
      (h : Tiles (pos + w.length) t ts stop) : Tiles pos (w ++ t) ts stop
  | token {pos stop : Nat} {k : TokenKind} {w t : Text} {ts : List Token} (hw : IsLexeme k w)
      (h : Tiles (pos + w.length) t ts stop) : Tiles pos (w ++ t) (⟨k, w, pos⟩ :: ts) stop

/-- The place behind a token. -/
def Token.stop (t : Token) : Nat := t.pos + t.text.length

/-- The token is a piece of the text. -/
def Token.IsSlice (source : Text) (t : Token) : Prop :=
  t.stop ≤ source.length ∧ (source.drop t.pos).take t.text.length = t.text

/-- The tokens stand one behind the other. -/
def Ordered (ts : List Token) : Prop := ts.Pairwise fun a b => a.stop ≤ b.pos

namespace Tiles

variable {pos stop : Nat} {t : Text} {ts : List Token}

theorem stop_eq (h : Tiles pos t ts stop) : stop = pos + t.length := by
  induction h with
  | nil => simp
  | blank _ _ ih => rw [ih, List.length_append, Nat.add_assoc]
  | token _ _ ih => rw [ih, List.length_append, Nat.add_assoc]

theorem isLexeme (h : Tiles pos t ts stop) : ∀ k ∈ ts, IsLexeme k.kind k.text := by
  induction h with
  | nil => simp
  | blank _ _ ih => exact ih
  | token hw _ ih => exact List.forall_mem_cons.mpr ⟨hw, ih⟩

theorem pos_le (h : Tiles pos t ts stop) : ∀ k ∈ ts, pos ≤ k.pos := by
  induction h with
  | nil => simp
  | blank _ _ ih =>
    intro k hk
    have hle := ih k hk
    omega
  | token hw _ ih =>
    refine List.forall_mem_cons.mpr ⟨Nat.le_refl _, fun k hk => ?_⟩
    have hle := ih k hk
    omega

/-- **The tokens of a tiling stand one behind the other.** -/
theorem ordered (h : Tiles pos t ts stop) : Ordered ts := by
  induction h with
  | nil => exact .nil
  | blank _ _ ih => exact ih
  | token hw h ih => exact .cons h.pos_le ih

/-- **The tokens of a tiling are pieces of the text**, which may stand behind another one. -/
theorem isSlice (h : Tiles pos t ts stop) : ∀ {before : Text}, before.length = pos →
    ∀ k ∈ ts, k.IsSlice (before ++ t) := by
  induction h with
  | nil => simp
  | blank _ _ ih =>
    rintro before rfl
    rw [← List.append_assoc]
    exact ih (by simp)
  | @token _ _ _ w t _ hw h ih =>
    rintro before rfl
    refine List.forall_mem_cons.mpr ⟨?_, ?_⟩
    · simp [Token.IsSlice, Token.stop]
    · rw [← List.append_assoc]
      exact ih (by simp)

end Tiles

/-! ### The scanner -/

/-- The rest of a lexeme is passed over. -/
theorem lexFrom_skip : ∀ (t : Text) (pos skip : Nat),
    lexFrom pos skip t = lexFrom (pos + skip) 0 (t.drop skip)
  | [], _, _ => by simp [lexFrom]
  | c :: r, pos, 0 => rfl
  | c :: r, pos, skip + 1 => by
    rw [lexFrom, if_pos (by omega), List.drop_succ_cons, Nat.add_sub_cancel, lexFrom_skip r,
      Nat.add_right_comm, Nat.add_assoc]

section

variable {w rest : Text} {k : TokenKind} {pos : Nat}

/-- The tokens behind a lexeme are those of the text behind it. -/
theorem lexFrom_append {l : Option TokenKind} (hne : w ≠ [])
    (h : lexeme? (w ++ rest) = some (l, w.length)) : lexFrom pos 0 (w ++ rest) =
      ((l.toList.map fun k => ⟨k, w, pos⟩) ++ (lexFrom (pos + w.length) 0 rest).1,
        (lexFrom (pos + w.length) 0 rest).2) := by
  obtain ⟨c, r, rfl⟩ := List.exists_cons_of_ne_nil hne
  have hbehind : lexFrom (pos + 1) ((c :: r).length - 1) (r ++ rest) =
      lexFrom (pos + (c :: r).length) 0 rest := by
    rw [lexFrom_skip, List.length_cons, Nat.add_sub_cancel, List.drop_left, Nat.add_assoc, Nat.add_comm 1]
  rw [List.cons_append] at h ⊢
  rw [lexFrom, if_neg (by simp), h]
  cases l with
  | none =>
    rw [lexBehind, hbehind]
    rfl
  | some k =>
    rw [lexBehind]
    dsimp only
    rw [hbehind, ← List.cons_append, List.take_left]
    rfl

/-- **A text is tiled as far as there are lexemes.** -/
theorem exists_tiles_lexFrom (pos : Nat) (t : Text) : ∃ front rest stop, t = front ++ rest ∧
    Tiles pos front (lexFrom pos 0 t).1 stop ∧ (lexFrom pos 0 t).2 = rest ∧
      (rest ≠ [] → lexeme? rest = none) := by
  induction hn : t.length using Nat.strong_induction_on generalizing pos t with
  | _ n ih =>
    subst hn
    cases hlexeme : lexeme? t with
    | none =>
      cases t with
      | nil => exact ⟨[], [], pos, rfl, .nil, rfl, fun h => absurd rfl h⟩
      | cons c r =>
        have hstuck : lexFrom pos 0 (c :: r) = ([], c :: r) := by
          rw [lexFrom, if_neg (by simp), hlexeme]
          rfl
        rw [hstuck]
        exact ⟨[], c :: r, pos, rfl, .nil, rfl, fun _ => hlexeme⟩
    | some found =>
      obtain ⟨l, n⟩ := found
      obtain ⟨w, t, rfl, hne, hw, rfl⟩ := exists_of_lexeme? hlexeme
      have hlt : t.length < (w ++ t).length := by
        have hpos := List.length_pos_iff.mpr hne
        rw [List.length_append]
        omega
      obtain ⟨front, rest, stop, ht, htiles, hrest, hstuck⟩ := ih _ hlt (pos + w.length) t rfl
      rw [lexFrom_append hne hlexeme]
      refine ⟨w ++ front, rest, stop, by rw [List.append_assoc, ← ht], ?_, hrest, hstuck⟩
      cases l with
      | none => exact .blank hw htiles
      | some k => exact .token hw htiles

/-! ### Tokens with blanks between them -/

/-- The texts of tokens with a blank between each and the next. -/
def spaced (ts : List Token) : Text := Text.joinWith (Text.lit " ") (ts.map Token.text)

theorem spaced_cons (t u : Token) (ts : List Token) :
    spaced (t :: u :: ts) = t.text ++ (CodePoint.ofChar ' ' :: spaced (u :: ts)) := by
  simp [spaced, Text.joinWith, Text.lit]

/-- A blank in front of a lexeme is a lexeme alone. -/
theorem lexeme?_blank {t : Token} {ts : List Token} (h : IsLexeme t.kind t.text) :
    lexeme? (CodePoint.ofChar ' ' :: spaced (t :: ts)) = some (none, 1) := by
  obtain ⟨c, r, hw, hspace, -⟩ := h.exists_cons
  have hfront : ∃ s, spaced (t :: ts) = c :: s := by
    cases ts with
    | nil => exact ⟨r, by simp [spaced, Text.joinWith, hw]⟩
    | cons u ts => exact ⟨_, by rw [spaced_cons, hw, List.cons_append]⟩
  obtain ⟨s, hs⟩ := hfront
  have hblank : (CodePoint.ofChar ' ').isSpace = true := by decide
  have hlength : blankLength (CodePoint.ofChar ' ' :: spaced (t :: ts)) = 1 := by
    simp [blankLength, hblank, hs, runLength, hspace]
  exact lexeme?_eq_some [] rfl (by simp) hlength (by omega)

/-- A lexeme alone is one token. -/
theorem lexFrom_of_isLexeme (h : IsLexeme k w) (pos : Nat) : lexFrom pos 0 w = ([⟨k, w, pos⟩], []) := by
  obtain ⟨c, r, hw, -⟩ := h.exists_cons
  have hlexeme : lexeme? (w ++ []) = some (some k, w.length) :=
    lexeme?_of_isLexeme h (by simp [StandsApart])
  have hlex : lexFrom pos 0 (w ++ []) = _ := lexFrom_append (by simp [hw]) hlexeme
  rw [List.append_nil] at hlex
  exact hlex

/-- **The texts of tokens with blanks between them are cut into the same tokens.** -/
theorem lexFrom_spaced : ∀ {ts : List Token} (pos : Nat), (∀ t ∈ ts, IsLexeme t.kind t.text) →
    ∃ us, lexFrom pos 0 (spaced ts) = (us, []) ∧
      us.map (fun t => (t.kind, t.text)) = ts.map fun t => (t.kind, t.text)
  | [], _, _ => ⟨[], rfl, rfl⟩
  | [t], pos, h => ⟨[⟨t.kind, t.text, pos⟩], lexFrom_of_isLexeme (h t (by simp)) pos, rfl⟩
  | t :: u :: ts, pos, h => by
    rw [List.forall_mem_cons] at h
    obtain ⟨c, r, hw, -⟩ := h.1.exists_cons
    have hlexeme : lexeme? (t.text ++ (CodePoint.ofChar ' ' :: spaced (u :: ts))) =
        some (some t.kind, t.text.length) := lexeme?_of_isLexeme h.1 (by simp [StandsApart])
    have hblank : lexeme? ([CodePoint.ofChar ' '] ++ spaced (u :: ts)) = some (none, 1) :=
      lexeme?_blank (h.2 u (by simp))
    obtain ⟨us, hus, hshapes⟩ := lexFrom_spaced (pos + t.text.length + 1) h.2
    have hbehind : lexFrom (pos + t.text.length) 0 ([CodePoint.ofChar ' '] ++ spaced (u :: ts)) =
        (us, []) := by
      rw [lexFrom_append (by simp) hblank, List.length_singleton, hus]
      rfl
    refine ⟨⟨t.kind, t.text, pos⟩ :: us, ?_, by simp [hshapes]⟩
    rw [spaced_cons, lexFrom_append (by simp [hw]) hlexeme, ← List.singleton_append, hbehind]
    rfl

end

/-! ### Texts -/

theorem scan_of_lex {source : Text} {ts : List Token} (h : lex source = (ts, [])) :
    scan source = .ok ⟨ts, source.length⟩ := scan_eq_ok (tokenize_eq_ok h)

/-- The place that is left over is the one that is told. -/
theorem scan_of_lex_cons {source front rest : Text} {c : CodePoint} (ht : source = front ++ c :: rest)
    (h : (lex source).2 = c :: rest) : scan source = .error (.at front.length (.badCharacter c)) := by
  have hpos : source.length - (rest.length + 1) = front.length := by
    rw [ht, List.length_append, List.length_cons, Nat.add_sub_cancel]
  have htokens : tokenize source = .error (.at (source.length - (rest.length + 1)) (.badCharacter c)) := by
    unfold tokenize
    split
    · next hlex => rw [hlex] at h; cases h
    · next hlex => rw [hlex] at h; cases h; rfl
  rw [scan, htokens, hpos]
  rfl

/-- **Tokens tile their text and stand on their own.** A text is cut into pieces of itself, one behind the
other and blank space all between, up to its end; the same pieces with blanks between them are cut into the
same tokens. Or else the text is tiled up to the place that is told, and neither blank space nor a lexeme is
there. -/
theorem scan_tiles (source : Text) :
    match scan source with
    | .ok input =>
      Tiles 0 source input.tokens input.stop ∧ input.stop = source.length ∧
        (∀ t ∈ input.tokens, t.IsSlice source) ∧ Ordered input.tokens ∧
        ∃ again, scan (spaced input.tokens) = .ok again ∧
          again.tokens.map (fun t => (t.kind, t.text)) = input.tokens.map fun t => (t.kind, t.text)
    | .error e => ∃ pos c rest, e = .at pos (.badCharacter c) ∧ source.drop pos = c :: rest ∧
        Tiles 0 (source.take pos) (lex source).1 pos ∧
        ∀ w behind, c :: rest = w ++ behind → ¬ IsBlank w ∧ ∀ k, ¬ IsLexeme k w := by
  obtain ⟨front, rest, stop, ht, htiles, hrest, hstuck⟩ := exists_tiles_lexFrom 0 source
  have hstop : stop = front.length := by simpa using htiles.stop_eq
  cases rest with
  | nil =>
    rw [List.append_nil] at ht
    subst ht hstop
    rw [scan_of_lex (Prod.ext rfl hrest : lex source = ((lex source).1, []))]
    obtain ⟨us, hus, hshapes⟩ := lexFrom_spaced 0 htiles.isLexeme
    have hslices : ∀ k ∈ (lex source).1, k.IsSlice ([] ++ source) := htiles.isSlice rfl
    exact ⟨htiles, rfl, hslices, htiles.ordered, ⟨us, _⟩, scan_of_lex hus, hshapes⟩
  | cons c r =>
    have hnone := hstuck (List.cons_ne_nil c r)
    rw [scan_of_lex_cons ht hrest]
    refine ⟨front.length, c, r, rfl, by simp [ht], ?_, fun w behind hw => ?_⟩
    · have htake : source.take front.length = front := by simp [ht]
      rw [htake, ← hstop]
      exact htiles
    · rw [hw] at hnone
      exact ⟨not_isFront_of_lexeme? hnone none, fun k => not_isFront_of_lexeme? hnone (some k)⟩

/-- Quotes that could be three are two and one, and digits behind a point are a number of their own. -/
example : (scan (Text.lit "'''a'.b.5.5//c")).map (fun i => i.tokens.map Token.text) =
    .ok [Text.lit "''", Text.lit "'a'", Text.lit ".", Text.lit "b", Text.lit ".", Text.lit "5.5"] := by
  decide +kernel

end LogStream.Filter
