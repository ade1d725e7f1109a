import Mathlib
import LogStream.Proofs.Outcome
import LogStream.Proofs.Text.Runs
import LogStream.Regex.Dialect
import LogStream.Regex.Parser

/-! # The scan beside the reading

The scan of a pattern for what is refused and the reading of the pattern go over the same text. While the
reading goes on the scan stands at the same place, within a set or outside (`Stands`): what the reading takes
as lexemes, names, escapes and sets the scan passes over. -/

namespace LogStream.Regex

open CodePoint (eq_ofChar is_eq_false_of_ne)

variable {b : Bool} {c d : CodePoint} {p t r : Text} {s s' : Reading}

/-! ### The scan -/

/-- From here on the scan finds nothing to refuse, within a set or outside. -/
def Passes (inSet : Bool) (t : Text) : Prop := refusedFrom inSet 0 t = none

@[simp] theorem passes_nil : Passes b [] := by simp [Passes, refusedFrom]

/-- A code point that starts no escape, and neither starts nor ends a set. -/
def isOrdinary (c : CodePoint) : Bool := !(c.is '\\' || c.is '[' || c.is ']')

/-- A code point that is no backslash, outside a set. -/
theorem passes_outside (hslash : c.is '\\' = false) : Passes false (c :: t) ↔
    if c.is '[' then refusedFrom true (setOpening t - 1) t = none
    else if c.is '(' then
      (∀ g ∈ refusedGroups, ¬ Text.lit g.1 <+: c :: t) ∧ Passes false t
    else Passes false t := by
  unfold Passes
  rw [refusedFrom, if_neg (by decide), if_neg (Bool.eq_false_iff.mp hslash), if_neg (by decide)]
  split
  · rfl
  · split
    · cases hfind : refusedGroups.find? fun g => (Text.lit g.1).isPrefixOf (c :: t) with
      | none => exact ⟨fun h => ⟨by simpa using List.find?_eq_none.mp hfind, h⟩, And.right⟩
      | some g =>
        have hg := List.mem_of_find?_eq_some hfind
        have hprefix : Text.lit g.1 <+: c :: t := by simpa using List.find?_some hfind
        simpa using fun h => absurd hprefix (h g.1 g.2 hg)
    · rfl

/-- A code point that is no backslash, within a set. -/
theorem passes_inside (hslash : c.is '\\' = false) :
    Passes true (c :: t) ↔ Passes (!c.is ']') t := by
  unfold Passes
  rw [refusedFrom, if_neg (by decide), if_neg (Bool.eq_false_iff.mp hslash), if_pos rfl]

/-- Behind a backslash any code point is passed over, but outside a set no reference to a group. -/
theorem passes_escape (hslash : c.is '\\' = true) : Passes b (c :: d :: t) ↔
    (b = false → isReferenceDigit d = false) ∧ Passes b t := by
  unfold Passes
  rw [refusedFrom, if_neg (by decide), if_pos hslash]
  have hskip : refusedFrom b 1 (d :: t) = refusedFrom b 0 t := by rw [refusedFrom, if_pos (by decide)]
  rw [hskip]
  cases b <;> cases hdigit : isReferenceDigit d <;> simp [hdigit]

/-- The bracket that opens a set or closes it. -/
def bracket (inSet : Bool) : Char := if inSet then ']' else '['

theorem Passes.of_plain (h : Passes b (c :: t)) (hslash : c.is '\\' = false)
    (hc : c.is (bracket b) = false) : Passes b t := by
  cases b with
  | true =>
    have hclose : c.is ']' = false := hc
    simpa [hclose] using (passes_inside hslash).mp h
  | false =>
    have hopen : ¬ c.is '[' = true := Bool.eq_false_iff.mp hc
    have hpasses := (passes_outside hslash).mp h
    rw [if_neg hopen] at hpasses
    split at hpasses
    · exact hpasses.2
    · exact hpasses

/-! ### Lexemes -/

theorem eq_of_next {l : Lexeme} (hpeek : s.peek = some l) (h : s.next = .ok s') :
    s' = { s with rest := match l with | .escaped _ => s.rest.drop 2 | .plain _ => s.rest.drop 1 } := by
  unfold Reading.next at h
  rw [hpeek] at h
  cases l <;>
    · dsimp only at h
      split at h
      · cases h
      · exact (Except.ok.inj h).symm

/-- What a lexeme takes from the pattern: a code point, which is a backslash only at the end, or a backslash
and the code point behind it. -/
inductive Takes (s : Reading) : Lexeme → Reading → Prop
  | plain {c : CodePoint} {r : Text} (hrest : s.rest = c :: r) (hslash : c.is '\\' = true → r = []) :
    Takes s (.plain c) { s with rest := r }
  | escaped {c d : CodePoint} {r : Text} (hrest : s.rest = c :: d :: r) (hslash : c.is '\\' = true) :
    Takes s (.escaped d) { s with rest := r }

theorem takes_of_next {l : Lexeme} (hpeek : s.peek = some l) (h : s.next = .ok s') : Takes s l s' := by
  rw [eq_of_next hpeek h]
  unfold Reading.peek at hpeek
  match hrest : s.rest with
  | [] => rw [hrest] at hpeek; cases hpeek
  | [c] =>
    rw [hrest] at hpeek
    cases hpeek
    exact .plain hrest fun _ => rfl
  | c :: d :: r =>
    rw [hrest] at hpeek
    cases hslash : c.is '\\' with
    | true =>
      simp only [hslash, if_true, Option.some_inj] at hpeek
      subst hpeek
      exact .escaped hrest hslash
    | false =>
      simp only [hslash, Bool.false_eq_true, if_false, Option.some_inj] at hpeek
      subst hpeek
      exact .plain hrest (by simp [hslash])

theorem takes_of_get {l : Lexeme} (h : s.get = .ok (l, s')) : Takes s l s' := by
  unfold Reading.get at h
  cases hpeek : s.peek with
  | none =>
    rw [hpeek] at h
    cases h
  | some l' =>
    rw [hpeek] at h
    obtain ⟨s'', hnext, hpure⟩ := exists_of_bind_eq_ok h
    cases hpure
    exact takes_of_next hpeek hnext

theorem yields_get : Yields (fun r => Takes s r.1 r.2) s.get := fun _ h => takes_of_get h

theorem Takes.peek {l : Lexeme} (ht : Takes s l s') : s.peek = some l := by
  unfold Reading.peek
  cases ht with
  | @plain c r hrest hslash =>
    rw [hrest]
    cases r with
    | nil => rfl
    | cons d r => simp [show c.is '\\' = false by simpa using hslash]
  | escaped hrest hslash => simp [hrest, hslash]

theorem Takes.isAt {ch : Char} (ht : Takes s (.plain c) s') : s.isAt ch = c.is ch := by
  simp [Reading.isAt, ht.peek]

theorem Takes.exists_of_isAt {l : Lexeme} {ch : Char} (ht : Takes s l s') (hat : s.isAt ch = true) :
    ∃ c, l = .plain c ∧ c.is ch = true := by
  simp only [Reading.isAt, ht.peek] at hat
  cases l with
  | plain c => exact ⟨c, rfl, hat⟩
  | escaped c => cases hat

theorem Takes.rest_eq (ht : Takes s (.plain c) s') : s.rest = c :: s'.rest := by
  cases ht with
  | plain hrest => exact hrest

theorem Takes.eq_drop (ht : Takes s (.plain c) s') : s' = { s with rest := s.rest.drop 1 } := by
  cases ht with
  | plain hrest => rw [hrest, List.drop_one, List.tail_cons]

theorem takes_of_isAt {ch : Char} (hat : s.isAt ch = true) (h : s.next = .ok s') :
    Takes s (.plain (.ofChar ch)) s' := by
  unfold Reading.isAt at hat
  split at hat
  · rename_i c hpeek
    exact eq_ofChar hat ▸ takes_of_next hpeek h
  · cases hat

theorem yields_accept {ch : Char} :
    Yields (fun r => r.1 = false ∧ r.2 = s ∨ r.1 = true ∧ Takes s (.plain (.ofChar ch)) r.2)
      (s.accept ch) := by
  unfold Reading.accept
  split
  · rename_i hat
    exact Yields.bind (fun _ hnext => takes_of_isAt hat hnext) fun _ ht => yields_ok.mpr (.inr ⟨rfl, ht⟩)
  · exact yields_ok.mpr (.inl ⟨rfl, rfl⟩)

theorem yields_expect {ch : Char} : Yields (Takes s (.plain (.ofChar ch))) (s.expect ch) := by
  unfold Reading.expect
  split
  · rename_i hat
    exact fun _ hnext => takes_of_isAt hat hnext
  · exact yields_error

/-! ### The invariant -/

/-- A group of the text, or what looks like one, turns on the option under which white space and comments
are passed over. -/
def turnsVerbose : Text → Bool
  | [] => false
  | c :: r =>
    ((Text.lit "(?").isPrefixOf (c :: r) && ((r.drop 1).takeWhile (·.isAsciiLetter)).any (·.is 'x')) ||
      turnsVerbose r

/-- There is an opening bracket before the end of the line; a code point behind a backslash is neither. -/
def bracketInLine : Text → Bool
  | [] => false
  | [c] => c.is '['
  | c :: d :: r =>
    if c.is '\\' then bracketInLine r
    else !c.is '\n' && (c.is '[' || bracketInLine (d :: r))

/-- What looks like a comment up to the end of the line holds an opening bracket. -/
def hidesBracket : Text → Bool
  | [] => false
  | c :: r => (c.is '#' && bracketInLine r) || hidesBracket r

/-- The names of code points are made of letters, digits, blanks and hyphens. -/
def HasPlainNames (named : Text → Option CodePoint) : Prop :=
  ∀ name c, named name = some c →
    ∀ d ∈ name, (d.isAsciiLetter || d.isAsciiDigit || d.is ' ' || d.is '-') = true

/-- The scan of a pattern stands where the reading does, within a set or outside. -/
structure Stands (p : Text) (inSet : Bool) (s : Reading) : Prop where
  suffix : s.rest <:+ p
  passes : Passes inSet s.rest
  verbose : s.options.verbose = true → turnsVerbose p = true
  names : HasPlainNames s.named

/-- Some code points further on. -/
theorem Stands.drop {b' : Bool} (h : Stands p b s) {u : Text} (hrest : s.rest = u ++ r)
    (hpasses : Passes b' r) : Stands p b' { s with rest := r } :=
  ⟨(hrest ▸ List.suffix_append u r : r <:+ s.rest).trans h.suffix, hpasses, h.verbose, h.names⟩

/-- Behind a lexeme other than the bracket that opens or closes a set the scan still stands where the reading
does. -/
theorem Stands.takes {l : Lexeme} (h : Stands p b s) (ht : Takes s l s')
    (hl : ∀ c, l = .plain c → c.is (bracket b) = false) : Stands p b s' := by
  have hpasses := h.passes
  cases ht with
  | @plain c r hrest hslash =>
    rw [hrest] at hpasses
    refine h.drop (u := [c]) hrest ?_
    cases hc : c.is '\\' with
    | true => rw [hslash hc]; exact passes_nil
    | false => exact hpasses.of_plain hc (hl c rfl)
  | @escaped c d r hrest hslash =>
    rw [hrest] at hpasses
    exact h.drop (u := [c, d]) hrest ((passes_escape hslash).mp hpasses).2

theorem Stands.takes_plain (h : Stands p b s) (ht : Takes s (.plain c) s') (hc : isOrdinary c = true) :
    Stands p b s' := by
  refine h.takes ht fun c' hc' => ?_
  cases hc'
  simp only [isOrdinary, Bool.not_eq_true', Bool.or_eq_false_iff] at hc
  cases b
  · exact hc.1.2
  · exact hc.2

/-! ### Single characters -/

section

variable {ch : Char} (h : Stands p b s)

include h

theorem Stands.next (hch : isOrdinary (.ofChar ch) = true) (hat : s.isAt ch = true) :
    Yields (Stands p b) s.next :=
  fun _ hnext => h.takes_plain (takes_of_isAt hat hnext) hch

theorem Stands.accept (hch : isOrdinary (.ofChar ch) = true) :
    Yields (fun r => Stands p b r.2) (s.accept ch) :=
  yields_accept.imp fun r hr => by
    rcases hr with ⟨-, heq⟩ | ⟨-, ht⟩
    · exact heq ▸ h
    · exact h.takes_plain ht hch

theorem Stands.expect (hch : isOrdinary (.ofChar ch) = true) : Yields (Stands p b) (s.expect ch) :=
  yields_expect.imp fun _ ht => h.takes_plain ht hch

end

/-- Characters of a class without brackets and backslash are passed over. -/
theorem Stands.takeUpTo {q : CodePoint → Bool} (hq : ∀ c, q c = true → isOrdinary c = true) :
    ∀ {n : Nat} {s : Reading}, Stands p b s → Yields (fun r => Stands p b r.2) (Reading.takeUpTo q n s)
  | 0, s, h => yields_ok.mpr h
  | n + 1, s, h => by
    unfold Reading.takeUpTo
    split
    · rename_i c hpeek
      split
      · rename_i hc
        refine Yields.bind (p := Stands p b) (fun s' hnext => ?_) fun s' hs' =>
          (Stands.takeUpTo hq hs').bind fun _ hr => yields_ok.mpr hr
        exact h.takes_plain (takes_of_next hpeek hnext) (hq c hc)
      · exact yields_ok.mpr h
    · exact yields_ok.mpr h

/-- What is taken up to a character is passed over, if there is no bracket and no backslash in it. -/
theorem Stands.takeUntil {close : Char} (hclose : isOrdinary (.ofChar close) = true) :
    ∀ {n : Nat} {s : Reading}, Stands p b s →
      Yields (fun r => (∀ c ∈ r.1, isOrdinary c = true) → Stands p b r.2) (Reading.takeUntil close n s)
  | 0, s, h => yields_error
  | n + 1, s, h => by
    unfold Reading.takeUntil
    intro r hr
    obtain ⟨⟨l, s'⟩, hget, hr⟩ := exists_of_bind_eq_ok hr
    have ht := takes_of_get hget
    cases l with
    | plain c =>
      by_cases hc : c.is close = true
      · simp only [hc, if_true] at hr
        cases hr
        exact fun _ => h.takes_plain ht (eq_ofChar hc ▸ hclose)
      · simp only [hc] at hr
        obtain ⟨⟨t, s''⟩, htail, hr⟩ := exists_of_bind_eq_ok hr
        cases hr
        intro hall
        have hs' := h.takes_plain ht (hall c List.mem_cons_self)
        exact Stands.takeUntil hclose hs' (t, s'') htail fun d hd => hall d (List.mem_cons_of_mem _ hd)
    | escaped c =>
      obtain ⟨⟨t, s''⟩, htail, hr⟩ := exists_of_bind_eq_ok hr
      cases hr
      intro hall
      exact absurd (hall _ List.mem_cons_self) (by decide)

/-! ### Names and escapes -/

/-- A class without brackets and backslash. -/
def isOrdinaryClass (q : CodePoint → Bool) : Bool :=
  !(q (.ofChar '\\') || q (.ofChar '[') || q (.ofChar ']'))

theorem isOrdinary_of_class {q : CodePoint → Bool} (hq : isOrdinaryClass q = true) (hc : q c = true) :
    isOrdinary c = true := by
  simp only [isOrdinaryClass, Bool.not_eq_true', Bool.or_eq_false_iff] at hq
  obtain ⟨⟨hslash, hopen⟩, hclose⟩ := hq
  have hne {ch : Char} (hch : q (.ofChar ch) = false) : c.is ch = false := by
    refine Bool.eq_false_iff.mpr fun h => ?_
    rw [eq_ofChar h, hch] at hc
    cases hc
  simp [isOrdinary, hne hslash, hne hopen, hne hclose]

theorem isOrdinary_of_isName {name : Text} (h : Text.isName name = true) :
    ∀ c ∈ name, isOrdinary c = true := by
  have hclass : isOrdinaryClass CodePoint.continuesName = true := by decide +kernel
  intro c hc
  refine isOrdinary_of_class hclass ?_
  cases name with
  | nil => cases h
  | cons d name =>
    simp only [Text.isName, CodePoint.startsName, Bool.and_eq_true, List.all_eq_true] at h
    rcases List.mem_cons.mp hc with rfl | hc
    · exact h.1.1.1.1
    · exact h.2 c hc

section

variable (h : Stands p b s)

include h

theorem Stands.takeName {close : Char} (hclose : isOrdinary (.ofChar close) = true) :
    Yields (fun r => Stands p b r.2) (s.takeName close) := by
  unfold Reading.takeName
  refine (Stands.takeUntil hclose h).bind fun ⟨name, s'⟩ hs' => ?_
  dsimp only
  split
  · rename_i hname
    exact yields_ok.mpr (hs' (isOrdinary_of_isName hname))
  · exact yields_error

theorem Stands.readHex (n : Nat) : Yields (fun r => Stands p b r.2) (readHex s n) := by
  have hclass : isOrdinaryClass CodePoint.isHexDigit = true := by decide
  unfold Regex.readHex
  refine (Stands.takeUpTo (fun _ => isOrdinary_of_class hclass) h).bind fun ⟨t, s'⟩ hs' => ?_
  dsimp only
  split
  · exact yields_bind_of_forall fun _ => yields_ok.mpr hs'
  · exact yields_error

theorem Stands.readCharacterName : Yields (fun r => Stands p b r.2) (readCharacterName s) := by
  have hclass : isOrdinaryClass
      (fun d => d.isAsciiLetter || d.isAsciiDigit || d.is ' ' || d.is '-') = true := by decide
  unfold Regex.readCharacterName
  refine (h.expect (by decide)).bind fun s₁ h₁ => ?_
  refine (Stands.takeUntil (by decide) h₁).bind fun ⟨name, s₂⟩ h₂ => ?_
  dsimp only
  split
  · rename_i c hc
    exact yields_ok.mpr (h₂ fun d hd => isOrdinary_of_class hclass (h.names name c hc d hd))
  · exact yields_error

theorem Stands.readPlainEscape (c : CodePoint) : Yields (fun r => Stands p b r.2) (readPlainEscape s c) := by
  unfold Regex.readPlainEscape
  split
  · exact yields_ok.mpr h
  · split_ifs
    · exact h.readHex 2
    · exact h.readHex 4
    · exact h.readHex 8
    · exact h.readCharacterName
    · exact yields_error
    · exact yields_ok.mpr h

end

/-! ### Sets -/

section

variable (h : Stands p b s)

include h

theorem Stands.readSetEscape (c : CodePoint) : Yields (fun r => Stands p b r.2) (readSetEscape s c) := by
  have hclass : isOrdinaryClass CodePoint.isOctalDigit = true := by decide
  unfold Regex.readSetEscape
  split
  · exact yields_ok.mpr h
  · split_ifs
    · exact yields_ok.mpr h
    · refine (Stands.takeUpTo (fun _ => isOrdinary_of_class hclass) h).bind fun ⟨t, s'⟩ hs' => ?_
      exact yields_bind_of_forall fun _ => yields_ok.mpr hs'
    · exact yields_error
    · exact (h.readPlainEscape c).bind fun ⟨x, s'⟩ hs' => yields_ok.mpr hs'

end

/-- Behind the closing bracket the scan stands outside. -/
theorem Stands.takes_close (h : Stands p true s) (ht : Takes s (.plain c) s') (hc : c.is ']' = true) :
    Stands p false s' := by
  have hpasses := h.passes
  cases ht with
  | @plain c r hrest hslash =>
    rw [hrest] at hpasses
    refine h.drop (u := [c]) hrest ?_
    have hinside := (passes_inside (is_eq_false_of_ne hc (by decide))).mp hpasses
    rwa [hc] at hinside

theorem Stands.readMember (h : Stands p b s) (l : Lexeme) :
    Yields (fun r => Stands p b r.2) (readMember s l) := by
  cases l with
  | plain c => exact yields_ok.mpr h
  | escaped c => exact h.readSetEscape c

/-- The scan stands before the first member of a set, which may be a closing bracket. -/
def StandsAtFirst (p : Text) (s : Reading) : Prop :=
  Stands p true { s with rest := if (s.rest.take 1).any (·.is ']') then s.rest.drop 1 else s.rest }

theorem StandsAtFirst.takes {l : Lexeme} (h : StandsAtFirst p s) (ht : Takes s l s') :
    Stands p true s' := by
  unfold StandsAtFirst at h
  cases ht with
  | @plain c r hrest hslash =>
    cases hc : c.is ']' with
    | true => simpa [hrest, hc] using h
    | false =>
      simp only [hrest, List.take_succ_cons, List.any_cons, hc, List.take_zero, List.any_nil] at h
      exact h.takes (.plain rfl hslash) fun c' hc' => by cases hc'; exact hc
  | @escaped c d r hrest hslash =>
    have hc : c.is ']' = false := is_eq_false_of_ne hslash (by decide)
    simp only [hrest, List.take_succ_cons, List.any_cons, hc, List.take_zero, List.any_nil] at h
    exact h.takes (.escaped rfl hslash) nofun

theorem Stands.readMembers : ∀ {n : Nat} {items : List SetItem} {s : Reading},
    (items ≠ [] → Stands p true s) → (items = [] → StandsAtFirst p s) →
      Yields (fun r => Stands p false r.2) (readMembers n items s)
  | 0, _, _, _, _ => yields_error
  | n + 1, items, s, h, hfirst => by
    unfold Regex.readMembers
    refine yields_get.bind fun ⟨l, s₁⟩ ht => ?_
    dsimp only
    split
    · rename_i hcloses
      simp only [Bool.and_eq_true, bne_iff_ne, ne_eq] at hcloses
      obtain ⟨c, rfl, hc⟩ := ht.exists_of_isAt hcloses.1
      exact yields_ok.mpr ((h hcloses.2).takes_close ht hc)
    · rename_i hcloses
      have h₁ : Stands p true s₁ := by
        by_cases hitems : items = []
        · exact (hfirst hitems).takes ht
        · refine (h hitems).takes ht fun c hc => ?_
          subst hc
          simpa [ht.isAt, hitems, bracket] using hcloses
      refine (h₁.readMember l).bind fun ⟨item, s₂⟩ h₂ => ?_
      refine (h₂.accept (by decide)).bind fun ⟨hyphen, s₃⟩ h₃ => ?_
      dsimp only
      split
      · exact Stands.readMembers (fun _ => h₃) fun hnil => by simp at hnil
      · refine yields_get.bind fun ⟨l, s₄⟩ ht => ?_
        dsimp only
        split
        · rename_i hat
          obtain ⟨c, rfl, hc⟩ := ht.exists_of_isAt hat
          exact yields_ok.mpr (h₃.takes_close ht hc)
        · rename_i hcloses
          have h₄ : Stands p true s₄ := h₃.takes ht fun c hc => by
            subst hc
            simpa [ht.isAt, bracket] using hcloses
          refine (h₄.readMember l).bind fun ⟨high, s₅⟩ h₅ => ?_
          refine yields_bind_of_forall fun range => ?_
          exact Stands.readMembers (fun _ => h₅) fun hnil => by simp at hnil

theorem refusedFrom_skip : ∀ {n : Nat} {t : Text}, refusedFrom b n t = none → Passes b (t.drop n)
  | 0, _, h => h
  | n + 1, [], _ => passes_nil
  | n + 1, c :: t, h => by
    rw [refusedFrom, if_pos (Nat.succ_ne_zero n), Nat.add_sub_cancel] at h
    exact @refusedFrom_skip n t h

/-- A character other than the backslash is next just if the pattern goes on with it. -/
theorem isAt_eq {ch : Char} (hch : ch.toNat ≠ '\\'.toNat) : s.isAt ch = (s.rest.take 1).any (·.is ch) := by
  unfold Reading.isAt Reading.peek
  match s.rest with
  | [] => rfl
  | [c] => simp
  | c :: d :: r =>
    cases hc : c.is '\\' with
    | true => simp [hc, is_eq_false_of_ne hc (Ne.symm hch)]
    | false => simp [hc]

/-- Behind an opening bracket and a negation the scan stands before the first member. -/
theorem Stands.first (h : Stands p false s) (hrest : s.rest = c :: r) (hc : c.is '[' = true) {k : Nat}
    (hk : k = if (r.take 1).any (·.is '^') then 1 else 0) : StandsAtFirst p { s with rest := r.drop k } := by
  have hpasses := h.passes
  rw [hrest] at hpasses
  have hset := (passes_outside (is_eq_false_of_ne hc (by decide))).mp hpasses
  rw [if_pos hc, setOpening, ← hk] at hset
  have hskip := refusedFrom_skip hset
  have hstands {n : Nat} (hn : Passes true (r.drop n)) : Stands p true { s with rest := r.drop n } :=
    h.drop (u := c :: r.take n) (by rw [hrest, List.cons_append, List.take_append_drop]) hn
  unfold StandsAtFirst
  dsimp only at hskip ⊢
  cases hmember : ((r.drop k).take 1).any (·.is ']') with
  | true =>
    rw [if_pos rfl, List.drop_drop]
    rw [if_pos hmember, show 1 + k + 1 - 1 = k + 1 by omega] at hskip
    exact hstands hskip
  | false =>
    rw [if_neg (by decide)]
    rw [if_neg (by simp [hmember]), show 1 + k + 0 - 1 = k by omega] at hskip
    exact hstands hskip

/-- A set behind its opening bracket is passed over; it matches one code point. -/
theorem Stands.readSet (h : Stands p false s) (ht : Takes s (.plain c) s') (hc : c.is '[' = true) :
    Yields (fun r => (∃ x, r.1 = .single x) ∧ Stands p false r.2) (readSet s') := by
  unfold Regex.readSet
  have hfirst : Yields (fun r => StandsAtFirst p r.2) (s'.accept '^') := by
    cases ht with
    | @plain c r hrest hslash =>
      have hat : Reading.isAt { s with rest := r } '^' = (r.take 1).any (·.is '^') := isAt_eq (by decide)
      unfold Reading.accept
      split
      · rename_i hnegated
        refine Yields.bind (p := fun t => t = { s with rest := r.drop 1 }) (fun t hnext => ?_) ?_
        · exact (takes_of_isAt hnegated hnext).eq_drop
        · rintro _ rfl
          exact yields_ok.mpr (h.first hrest hc (by rw [← hat, if_pos hnegated]))
      · rename_i hplain
        exact yields_ok.mpr (h.first (k := 0) hrest hc (by rw [← hat, if_neg hplain]))
  refine hfirst.bind fun ⟨negated, s₁⟩ h₁ => ?_
  refine (Stands.readMembers (fun h => absurd rfl h) fun _ => h₁).bind fun ⟨items, s₂⟩ h₂ => ?_
  exact yields_ok.mpr ⟨⟨_, rfl⟩, h₂⟩

end LogStream.Regex
