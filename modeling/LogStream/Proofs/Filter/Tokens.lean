import LogStream.Proofs.Filter.Grammar
import LogStream.Proofs.Filter.Numerals

/-! # The tokens of texts

A text is cut into tokens of which those of integers are numerals, with a mark or without, and those
of names start with a letter (`regular_of_tokenize`). -/

namespace LogStream.Filter

/-! ### The tokens of integers -/

theorem take_runLength (p : CodePoint → Bool) (t : Text) : t.take (runLength p t) = t.takeWhile p :=
  (List.prefix_iff_eq_take.mp (List.takeWhile_prefix p)).symm

theorem exists_mapM {f : CodePoint → Option Nat} : ∀ {t : Text}, (∀ c ∈ t, (f c).isSome = true) →
    ∃ ds, t.mapM f = some ds
  | [], _ => ⟨[], rfl⟩
  | c :: r, h => by
    rw [List.forall_mem_cons] at h
    obtain ⟨d, hd⟩ := Option.isSome_iff_exists.mp h.1
    obtain ⟨ds, hds⟩ := exists_mapM h.2
    exact ⟨d :: ds, by rw [List.mapM_cons, hd, hds]; rfl⟩

theorem exists_mapM_takeWhile {f : CodePoint → Option Nat} {p : CodePoint → Bool}
    (hp : ∀ c, p c = (f c).isSome) (t : Text) : ∃ ds, (t.takeWhile p).mapM f = some ds := by
  refine exists_mapM fun c hc => ?_
  rw [← hp]
  exact List.all_eq_true.mp List.all_takeWhile c hc

theorem isNumeral_take_runLength {t : Text} (h : runLength CodePoint.isDecimal t ≠ 0) :
    ∃ n, IsNumeral (t.take (runLength CodePoint.isDecimal t)) n := by
  have hne : t.takeWhile CodePoint.isDecimal ≠ [] := fun he => h (congrArg List.length he)
  obtain ⟨ds, hds⟩ := exists_mapM_takeWhile (f := CodePoint.decimal?) (fun _ => rfl) t
  rw [take_runLength]
  exact ⟨_, .decimal hds hne⟩

theorem isNumeral_take_hexLength {t : Text} (h : hexLength t ≠ 0) :
    ∃ n, IsNumeral (t.take (hexLength t)) n := by
  match t, h with
  | z :: x :: r, h =>
    rw [hexLength] at h ⊢
    by_cases hmark : (z.is '0' && x.isIn "xX") = true
    · rw [if_pos hmark] at h ⊢
      obtain ⟨hz, hx⟩ := Bool.and_eq_true_iff.mp hmark
      by_cases hr : runLength CodePoint.isHexDigit r = 0
      · rw [if_pos hr] at h
        exact absurd rfl h
      · have hne : r.takeWhile CodePoint.isHexDigit ≠ [] := fun he => hr (congrArg List.length he)
        obtain ⟨ds, hds⟩ := exists_mapM_takeWhile (f := CodePoint.hexValue?) (fun _ => rfl) r
        rw [if_neg hr, Nat.add_comm 2, List.take_succ_cons, List.take_succ_cons, take_runLength]
        exact ⟨_, .hex hz hx hds hne⟩
    · rw [if_neg hmark] at h
      exact absurd rfl h

/-- A numeral with the mark behind it, if there is one. -/
theorem isInteger_take_add {t : Text} {k n : Nat} (h : IsNumeral (t.take k) n) :
    IsInteger (t.take (k + unsignedLength (t.drop k))) := by
  unfold unsignedLength
  split
  · next hm =>
    cases hd : t.drop k with
    | nil => rw [hd] at hm; exact absurd hm Bool.false_ne_true
    | cons mark r =>
      rw [hd] at hm
      simp only [List.take_succ_cons, List.take_zero, List.any_cons, List.any_nil,
        Bool.or_false] at hm
      refine ⟨n, Or.inr ⟨t.take k, mark, ?_, hm, h⟩⟩
      rw [List.take_add, hd]
      rfl
  · exact ⟨n, Or.inl h⟩

/-- **The lexeme of an integer is one.** -/
theorem isInteger_take {t : Text} (h : intLength t ≠ 0) : IsInteger (t.take (intLength t)) := by
  unfold intLength at h ⊢
  dsimp only at h ⊢
  by_cases hhex : hexLength t = 0
  · rw [if_pos hhex] at h ⊢
    by_cases hd : runLength CodePoint.isDecimal t = 0
    · rw [if_pos hd] at h
      exact absurd rfl h
    · rw [if_neg hd]
      obtain ⟨n, hn⟩ := isNumeral_take_runLength hd
      exact isInteger_take_add hn
  · rw [if_neg hhex, if_neg hhex]
    obtain ⟨n, hn⟩ := isNumeral_take_hexLength hhex
    exact isInteger_take_add hn

theorem isInteger_of_lexeme? {t : Text} {n : Nat} (h : lexeme? t = some (some .int, n)) :
    IsInteger (t.take n) := by
  unfold lexeme? at h
  have hmem := List.mem_of_find?_eq_some h
  have hne := List.find?_some h
  simp only [List.mem_cons, Prod.mk.injEq, List.not_mem_nil, or_false, reduceCtorEq, false_and,
    false_or, Option.some.injEq, true_and] at hmem
  subst hmem
  exact isInteger_take (bne_iff_ne.mp hne)

/-! ### The tokens of names -/

/-- A name starts with a letter or the low line. -/
theorem startsName_of_lexeme? {t : Text} {n : Nat} (h : lexeme? t = some (some .ident, n)) :
    (t.take n).head?.any startsName = true := by
  unfold lexeme? at h
  have hmem := List.mem_of_find?_eq_some h
  have hne := List.find?_some h
  simp only [List.mem_cons, Prod.mk.injEq, List.not_mem_nil, or_false, reduceCtorEq, false_and,
    false_or, Option.some.injEq, true_and] at hmem
  subst hmem
  have hlength : identLength t ≠ 0 := bne_iff_ne.mp hne
  cases t with
  | nil => exact absurd rfl hlength
  | cons c r =>
    obtain ⟨k, hk⟩ := Nat.exists_eq_succ_of_ne_zero hlength
    rw [hk, List.take_succ_cons, List.head?_cons, Option.any_some]
    unfold identLength at hlength
    split at hlength
    · next hstarts => simpa using hstarts
    · exact absurd rfl hlength

/-! ### The tokens of a text -/

/-- What holds of all lexemes of a text holds of its tokens. -/
theorem lexBehind_forall {P : TokenKind → Text → Prop} {pos : Nat} {t : Text}
    {lexeme : Option (Option TokenKind × Nat)} {behind : Nat → List Token × Text}
    (ht : ∀ kind n, lexeme = some (some kind, n) → P kind (t.take n))
    (hb : ∀ n, ∀ k ∈ (behind n).1, P k.kind k.text) :
    ∀ k ∈ (lexBehind pos t lexeme behind).1, P k.kind k.text := by
  intro k hk
  unfold lexBehind at hk
  split at hk
  · exact absurd hk List.not_mem_nil
  · exact hb _ k hk
  · next kind n =>
    rcases List.mem_cons.mp hk with rfl | hk
    · exact ht kind n rfl
    · exact hb _ k hk

theorem lexFrom_forall {P : TokenKind → Text → Prop}
    (h : ∀ t kind n, lexeme? t = some (some kind, n) → P kind (t.take n)) :
    ∀ {t : Text} {pos skip : Nat}, ∀ k ∈ (lexFrom pos skip t).1, P k.kind k.text
  | [], _, _ => fun _ hk => absurd hk List.not_mem_nil
  | c :: r, pos, skip => by
    rw [lexFrom]
    split
    · exact lexFrom_forall h
    · exact lexBehind_forall (h (c :: r)) fun _ => lexFrom_forall h

theorem tokenize_eq_ok {source : Text} {tokens : List Token} (h : lex source = (tokens, [])) :
    tokenize source = .ok tokens := by
  unfold tokenize
  rw [h]

theorem scan_eq_ok {source : Text} {tokens : List Token} (h : tokenize source = .ok tokens) :
    scan source = .ok ⟨tokens, source.length⟩ := by
  rw [scan, h]
  rfl

theorem eq_of_tokenize {source : Text} {tokens : List Token} (h : tokenize source = .ok tokens) :
    tokens = (lex source).1 := by
  unfold tokenize at h
  split at h
  · next ts hl =>
    cases h
    rw [hl]
  · cases h

/-! ### Regular tokens -/

/-- A token as a text is cut into them, with an integer that is short enough to be read. -/
structure Token.IsRegular (t : Token) : Prop where
  isName : t.kind = .ident → t.IsName
  isInteger : t.kind = .int → IsInteger t.text
  isReadable : t.IsReadable

/-- A token that is no literal and no name is an operator or a bracket. -/
theorem Token.IsRegular.kind_eq_op {t : Token} (ht : t.IsRegular)
    (hl : ¬ (t.kind = .int ∨ t.kind = .float ∨ t.kind = .string)) (hn : ¬ t.IsName) :
    t.kind = .op := by
  cases hk : t.kind with
  | int => exact absurd (.inl hk) hl
  | float => exact absurd (.inr (.inl hk)) hl
  | string => exact absurd (.inr (.inr hk)) hl
  | ident => exact absurd (ht.isName hk) hn
  | op => rfl

/-- All tokens are regular. -/
def Regular (ts : List Token) : Prop := ∀ t ∈ ts, t.IsRegular

theorem Regular.behind {ts front us : List Token} (h : Regular ts) (he : ts = front ++ us) :
    Regular us := fun t ht => h t (he ▸ List.mem_append_right front ht)

theorem Regular.tail {t : Token} {ts us : List Token} (h : Regular ts) (he : ts = t :: us) :
    Regular us := h.behind (show ts = [t] ++ us from he)

/-- **The tokens that a text is cut into are regular**, if their integers are short enough. -/
theorem regular_of_tokenize {source : Text} {tokens : List Token}
    (h : tokenize source = .ok tokens) (hr : ∀ t ∈ tokens, t.IsReadable) : Regular tokens := by
  intro t ht
  have hmem : t ∈ (lexFrom 0 0 source).1 := eq_of_tokenize h ▸ ht
  have hshape := lexFrom_forall (P := fun kind text =>
    (kind = .ident → text.head?.any startsName = true) ∧ (kind = .int → IsInteger text))
    (fun t kind n hl =>
      ⟨fun hk => startsName_of_lexeme? (hk ▸ hl), fun hk => isInteger_of_lexeme? (hk ▸ hl)⟩)
    t hmem
  exact ⟨fun hk => ⟨hk, hshape.1 hk⟩, hshape.2, hr t ht⟩

end LogStream.Filter
