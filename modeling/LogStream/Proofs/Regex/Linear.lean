import LogStream.Proofs.Regex.Scan

/-! # Linear patterns

A pattern is linear if no part of it looks around a place, refers to a group, asks about one or is atomic
(`Pattern.isLinear`). Where the scan stands beside the reading, an escape is no reference
(`Stands.readEscape`), and an opening parenthesis starts no group that is not linear (`Stands.readOpening`). -/

namespace LogStream.Regex

open CodePoint (eq_ofChar)

variable {b : Bool} {c : CodePoint} {p t : Text} {s s' : Reading}

/-! ### Linear trees -/

/-- No part of the pattern looks around a place, refers to a group, asks about one or is atomic. -/
def Pattern.isLinear : Pattern → Bool
  | .empty => true
  | .single _ => true
  | .anchor _ => true
  | .seq p q => p.isLinear && q.isLinear
  | .alt p q => p.isLinear && q.isLinear
  | .capture _ p => p.isLinear
  | .under _ _ p => p.isLinear
  | .repeated _ _ _ p => p.isLinear
  | .look _ _ _ => false
  | .atomic _ => false
  | .backref _ => false
  | .conditional _ _ _ => false

/-- All patterns of a list are linear. -/
abbrev AreLinear (ps : List Pattern) : Prop := ∀ q ∈ ps, q.isLinear = true

theorem isLinear_ofList : ∀ {ps : List Pattern}, AreLinear ps → (Pattern.ofList ps).isLinear = true
  | [], _ => rfl
  | [q], h => h q List.mem_cons_self
  | q :: q' :: ps, h => by
    simp only [Pattern.ofList, Pattern.isLinear, Bool.and_eq_true]
    exact ⟨h q List.mem_cons_self, isLinear_ofList fun x hx => h x (List.mem_cons_of_mem _ hx)⟩

theorem isLinear_ofAlternatives : ∀ {ps : List Pattern}, AreLinear ps →
    (Pattern.ofAlternatives ps).isLinear = true
  | [], _ => rfl
  | [q], h => h q List.mem_cons_self
  | q :: q' :: ps, h => by
    simp only [Pattern.ofAlternatives, Pattern.isLinear, Bool.and_eq_true]
    exact ⟨h q List.mem_cons_self, isLinear_ofAlternatives fun x hx => h x (List.mem_cons_of_mem _ hx)⟩

/-- What all sequences start with is the first pattern of one. -/
theorem exists_mem_of_commonHead? {items : List (List Pattern)} {q : Pattern}
    (h : commonHead? items = some q) : ∃ ps ∈ items, q ∈ ps := by
  cases items with
  | nil => cases h
  | cons ps items =>
    cases ps with
    | nil => cases h
    | cons q' ps =>
      simp only [commonHead?, List.head?_cons, Option.bind_some] at h
      split at h
      · cases h
        exact ⟨_, List.mem_cons_self, List.mem_cons_self⟩
      · cases h

/-- What linear sequences start with is linear, and so is what is left of them. -/
theorem areLinear_factor : ∀ {n : Nat} {items : List (List Pattern)}, (∀ ps ∈ items, AreLinear ps) →
    AreLinear (factor n items).1 ∧ ∀ ps ∈ (factor n items).2, AreLinear ps
  | 0, _, h => ⟨nofun, h⟩
  | n + 1, items, h => by
    unfold factor
    cases hhead : commonHead? items with
    | none => exact ⟨nofun, h⟩
    | some q =>
      have htails : ∀ ps ∈ items.map List.tail, AreLinear ps := by
        intro ps hps
        obtain ⟨qs, hqs, rfl⟩ := List.mem_map.mp hps
        exact fun x hx => h qs hqs x (List.mem_of_mem_tail hx)
      obtain ⟨hfront, hrest⟩ := areLinear_factor (n := n) htails
      obtain ⟨ps, hps, hq⟩ := exists_mem_of_commonHead? hhead
      exact ⟨List.forall_mem_cons.mpr ⟨h ps hps q hq, hfront⟩, hrest⟩

theorem areLinear_alternatives {items : List (List Pattern)} (h : ∀ ps ∈ items, AreLinear ps) :
    AreLinear (alternatives items) := by
  unfold alternatives
  split
  · exact h _ List.mem_cons_self
  · obtain ⟨hfront, hrest⟩ := areLinear_factor (n := items.head?.elim 0 List.length) h
    refine List.forall_mem_append.mpr ⟨hfront, List.forall_mem_singleton.mpr ?_⟩
    split
    · rfl
    · refine isLinear_ofAlternatives fun q hq => ?_
      obtain ⟨ps, hps, rfl⟩ := List.mem_map.mp hq
      exact isLinear_ofList (hrest ps hps)

/-! ### Escapes and repetitions -/

theorem isDigit_of_isAsciiDigit (h : c.isAsciiDigit = true) : c.isDigit = true := by
  have hval : c.val < 128 := by
    simp only [CodePoint.isAsciiDigit, Bool.and_eq_true, decide_eq_true_eq] at h
    omega
  simp [CodePoint.isDigit, CodePoint.isDecimal, CodePoint.decimal?, hval, h]

/-- Outside a set an escape that passes the scan is no reference. -/
theorem Stands.readEscape (h : Stands p b s) (hc : isReferenceDigit c = false) :
    Yields (fun r => r.1.isLinear = true ∧ Stands p b r.2) (readEscape s c) := by
  have hclass : isOrdinaryClass CodePoint.isOctalDigit = true := by decide
  unfold Regex.readEscape
  split
  · exact yields_ok.mpr ⟨rfl, h⟩
  · exact yields_ok.mpr ⟨rfl, h⟩
  · split_ifs with hzero hdigit
    · exact (Stands.takeUpTo (fun _ => isOrdinary_of_class hclass) h).bind fun ⟨t, s'⟩ hs' =>
        yields_ok.mpr ⟨rfl, hs'⟩
    · rw [isReferenceDigit, isDigit_of_isAsciiDigit hdigit, Bool.true_and, Bool.not_eq_false'] at hc
      exact absurd hc hzero
    · exact (h.readPlainEscape c).bind fun ⟨x, s'⟩ hs' => yields_ok.mpr ⟨rfl, hs'⟩

theorem Stands.readBounds (h : Stands p b s) : Yields (fun r => Stands p b r.2) (readBounds s) := by
  have hclass : isOrdinaryClass CodePoint.isAsciiDigit = true := by decide
  unfold Regex.readBounds
  split
  · exact yields_ok.mpr h
  · refine (Stands.takeUpTo (fun _ => isOrdinary_of_class hclass) h).bind fun ⟨low, t⟩ ht => ?_
    refine (ht.accept (by decide)).bind fun ⟨comma, t₁⟩ h₁ => ?_
    refine yields_ite_bind (Stands.takeUpTo (fun _ => isOrdinary_of_class hclass) h₁) (yields_ok.mpr h₁)
      fun ⟨high, t₂⟩ h₂ => ?_
    dsimp only
    split
    · rename_i hat
      refine (h₂.next (by decide) hat).bind fun t₃ h₃ => ?_
      refine yields_bind_of_forall fun least => yields_bind_of_forall fun most => ?_
      split
      · exact yields_error
      · exact yields_ok.mpr h₃
    · exact yields_ok.mpr h

theorem Stands.readRepeat (h : Stands p b s) (c : CodePoint) :
    Yields (fun r => Stands p b r.2) (readRepeat s c) := by
  unfold Regex.readRepeat
  split_ifs
  · exact yields_ok.mpr h
  · exact yields_ok.mpr h
  · exact yields_ok.mpr h
  · exact h.readBounds

theorem Stands.readGreed (h : Stands p b s) : Yields (fun r => Stands p b r.2) (readGreed s) := by
  unfold Regex.readGreed
  refine (h.accept (by decide)).bind fun ⟨isLazy, s₁⟩ h₁ => ?_
  dsimp only
  split
  · exact yields_ok.mpr h₁
  · exact (h₁.accept (by decide)).bind fun ⟨possessive, s₂⟩ h₂ => yields_ok.mpr h₂

theorem patternsOf_append (xs ys : List Piece) : patternsOf (xs ++ ys) = patternsOf xs ++ patternsOf ys :=
  List.flatMap_append

theorem areLinear_snoc {pieces : List Piece} {q : Pattern} (h : AreLinear (patternsOf pieces))
    (hq : q.isLinear = true) : AreLinear (patternsOf (pieces ++ [.one q])) := by
  rw [patternsOf_append]
  exact List.forall_mem_append.mpr ⟨h, List.forall_mem_singleton.mpr hq⟩

/-- What may be repeated of a linear piece is linear. -/
theorem isLinear_repeatable {piece : Piece} (h : AreLinear (patternsOf [piece])) :
    Yields (fun q => q.isLinear = true) (repeatable piece) := by
  unfold repeatable
  split
  · exact yields_error
  · exact yields_error
  · exact yields_ok.mpr (h _ (by simp [patternsOf]))
  · exact yields_ok.mpr (isLinear_ofList fun q hq => h q (by simpa [patternsOf] using hq))

theorem Stands.repeatLast {pieces : List Piece} {bounds : Nat × Option Nat} (h : Stands p b s)
    (hpieces : AreLinear (patternsOf pieces)) :
    Yields (fun r => AreLinear (patternsOf r.1) ∧ Stands p b r.2) (repeatLast pieces s bounds) := by
  unfold Regex.repeatLast
  split
  · exact yields_error
  · rename_i last hlast
    obtain ⟨front, rfl⟩ := List.getLast?_eq_some_iff.mp hlast
    rw [patternsOf_append] at hpieces
    obtain ⟨hfront, hpiece⟩ := List.forall_mem_append.mp hpieces
    refine (isLinear_repeatable hpiece).bind fun q hq => ?_
    refine h.readGreed.bind fun ⟨greed, s'⟩ hs' => yields_ok.mpr ⟨?_, hs'⟩
    rw [List.dropLast_concat]
    exact areLinear_snoc hfront hq

/-! ### Options -/

theorem ofLetter?_eq_some {o : Options} (h : Options.ofLetter? c = some o) :
    c.isAsciiLetter = true ∧ (o.verbose = true → c.is 'x' = true) := by
  unfold Options.ofLetter? at h
  split_ifs at h with hi hm hs hx ha hu ht <;> cases h
  · exact ⟨eq_ofChar hi ▸ rfl, nofun⟩
  · exact ⟨eq_ofChar hm ▸ rfl, nofun⟩
  · exact ⟨eq_ofChar hs ▸ rfl, nofun⟩
  · exact ⟨eq_ofChar hx ▸ rfl, fun _ => hx⟩
  · exact ⟨eq_ofChar ha ▸ rfl, nofun⟩
  · exact ⟨eq_ofChar hu ▸ rfl, nofun⟩
  · exact ⟨eq_ofChar ht ▸ rfl, nofun⟩

/-- The letters of options are passed over, up to a closing character; the option of comments is on if its
letter is one of them. -/
structure ReadsLetters (p : Text) (b : Bool) (named : Options) (t : Text)
    (r : Options × CodePoint × Reading) : Prop where
  stands : Stands p b r.2.2
  letters : ∃ letters, t = letters ++ r.2.1 :: r.2.2.rest ∧
    (∀ d ∈ letters, d.isAsciiLetter = true) ∧
    (r.1.verbose = true → named.verbose = true ∨ letters.any (·.is 'x') = true)

theorem isOrdinary_of_isAsciiLetter (h : c.isAsciiLetter = true) : isOrdinary c = true :=
  isOrdinary_of_class (q := CodePoint.isAsciiLetter) (by decide) h

theorem isOrdinary_of_isIn {closing : String} (hclosing : closing.toList.all (isOrdinary ∘ .ofChar) = true)
    (h : c.isIn closing = true) : isOrdinary c = true := by
  obtain ⟨ch, hch, hc⟩ := List.any_eq_true.mp h
  rw [eq_ofChar hc]
  exact List.all_eq_true.mp hclosing ch hch

theorem Stands.readLetters {closing : String}
    (hclosing : closing.toList.all (isOrdinary ∘ .ofChar) = true) : ∀ {n : Nat} {named : Options}
    {c : CodePoint} {s : Reading}, (isOrdinary c = true → Stands p b s) →
      Yields (ReadsLetters p b named (c :: s.rest)) (readLetters closing n named c s)
  | 0, _, _, _, _ => yields_error
  | n + 1, named, c, s, h => by
    unfold Regex.readLetters
    cases hletter : Options.ofLetter? c with
    | none => exact yields_error
    | some o =>
      obtain ⟨hc, hverbose⟩ := ofLetter?_eq_some hletter
      have hs := h (isOrdinary_of_isAsciiLetter hc)
      dsimp only
      split
      · exact yields_error
      · refine yields_get.bind fun ⟨l, s'⟩ ht => ?_
        cases l with
        | escaped d => exact yields_error
        | plain d =>
          have hrest := ht.rest_eq
          have hstep (hd : isOrdinary d = true) : Stands p b s' := hs.takes_plain ht hd
          have hnamed : (named.either o).verbose = true → named.verbose = true ∨ c.is 'x' = true := by
            intro h
            exact (Bool.or_eq_true_iff.mp h).imp_right hverbose
          dsimp only
          split
          · rename_i hd
            refine yields_ok.mpr ⟨hstep (isOrdinary_of_isIn hclosing hd), [c], by rw [hrest]; rfl, ?_, ?_⟩
            · exact List.forall_mem_singleton.mpr hc
            · simpa using hnamed
          · intro r hr
            obtain ⟨hr', letters, heq, hletters, hx⟩ := Stands.readLetters hclosing hstep r hr
            refine ⟨hr', c :: letters, by rw [hrest, heq]; rfl, ?_, ?_⟩
            · exact List.forall_mem_cons.mpr ⟨hc, hletters⟩
            intro hr
            rw [List.any_cons, Bool.or_eq_true]
            rcases hx hr with hr | hr
            · exact (hnamed hr).imp_right .inl
            · exact .inr (.inr hr)

/-! ### Openings -/

/-- What a group adds to the options. -/
def GroupOptions.added : GroupOptions → Options
  | whole o => o
  | within added _ => added

theorem Stands.readRemoved {added : Options} (h : Stands p b s) :
    Yields (fun r => r.1.added = added ∧ Stands p b r.2) (readRemoved s added) := by
  unfold Regex.readRemoved
  refine yields_get.bind fun ⟨l, s₁⟩ ht => ?_
  cases l with
  | escaped c => exact yields_error
  | plain c =>
    have h₁ : isOrdinary c = true → Stands p b s₁ := h.takes_plain ht
    refine (Stands.readLetters (by decide) h₁).bind fun ⟨removed, _, s₂⟩ hr => ?_
    dsimp only
    split
    · exact yields_error
    · exact yields_ok.mpr ⟨rfl, hr.stands⟩

/-- Options that stand between a question mark and their end are passed over. -/
theorem Stands.readOptions (h : isOrdinary c = true → Stands p b s) :
    Yields (fun r => (r.1.added.verbose = true → ∃ letters t, c :: s.rest = letters ++ t ∧
      (∀ d ∈ letters, d.isAsciiLetter = true) ∧ letters.any (·.is 'x') = true) ∧ Stands p b r.2)
      (readOptions s c) := by
  unfold Regex.readOptions
  split
  · rename_i hc
    refine (h (eq_ofChar hc ▸ rfl)).readRemoved.imp fun r hr => ⟨fun hverbose => ?_, hr.2⟩
    simp [hr.1] at hverbose
  · refine (Stands.readLetters (by decide) h).bind fun ⟨added, close, s₁⟩ hr => ?_
    obtain ⟨h₁, letters, heq, hletters, hx⟩ := hr
    have hverbose (ho : added.verbose = true) : ∃ letters t, c :: s.rest = letters ++ t ∧
        (∀ d ∈ letters, d.isAsciiLetter = true) ∧ letters.any (·.is 'x') = true :=
      ⟨letters, _, heq, hletters, (hx ho).resolve_left nofun⟩
    dsimp only
    split_ifs
    · exact yields_ok.mpr ⟨hverbose, h₁⟩
    · exact yields_error
    · exact h₁.readRemoved.imp fun r hr => ⟨fun ho => hverbose (hr.1 ▸ ho), hr.2⟩
    · exact yields_ok.mpr ⟨hverbose, h₁⟩

/-- What a group or the pattern as a whole adds to the options. -/
def Opening.added : Opening → Options
  | within added _ => added
  | options o => o
  | _ => {}

/-- The opening of a group that the scan does not refuse. -/
def Opening.isPermitted : Opening → Bool
  | capture _ => true
  | plain => true
  | within _ _ => true
  | options _ => true
  | _ => false

/-- An opening that the scan does not refuse is passed over; it adds the option of comments only if the
pattern shows it. -/
structure ReadsOpening (p : Text) (r : Opening × Reading) : Prop where
  permitted : r.1.isPermitted = true
  verbose : r.1.added.verbose = true → turnsVerbose p = true
  stands : Stands p false r.2

theorem turnsVerbose_of_suffix : ∀ {p : Text}, t <:+ p → turnsVerbose t = true → turnsVerbose p = true
  | [], h, ht => List.suffix_nil.mp h ▸ ht
  | c :: r, h, ht => by
    rcases List.suffix_cons_iff.mp h with rfl | h
    · exact ht
    · rw [turnsVerbose, turnsVerbose_of_suffix h ht, Bool.or_true]

theorem hidesBracket_of_suffix : ∀ {p : Text}, t <:+ p → hidesBracket t = true → hidesBracket p = true
  | [], h, ht => List.suffix_nil.mp h ▸ ht
  | c :: r, h, ht => by
    rcases List.suffix_cons_iff.mp h with rfl | h
    · exact ht
    · rw [hidesBracket, hidesBracket_of_suffix h ht, Bool.or_true]

theorem turnsVerbose_of_letters {letters : Text} (hletters : ∀ d ∈ letters, d.isAsciiLetter = true)
    (hx : letters.any (·.is 'x') = true) : turnsVerbose (Text.lit "(?" ++ (letters ++ t)) = true := by
  have htake : ((letters ++ t).takeWhile (·.isAsciiLetter)).any (·.is 'x') = true := by
    rw [List.takeWhile_append_of_pos hletters, List.any_append, hx, Bool.true_or]
  change ((true && _) || _) = true
  exact Bool.or_eq_true_iff.mpr (.inl htake)

/-- The rest of a pattern does not start as a group that is refused. -/
def IsPermitted (t : Text) : Prop := ∀ g ∈ refusedGroups, ¬ Text.lit g.1 <+: t

/-- A name for a group is passed over; a reference by name is refused. -/
theorem Stands.readNamed (h : Stands p false s) (hs : IsPermitted (Text.lit "(?P" ++ s.rest)) :
    Yields (ReadsOpening p) (readNamed s) := by
  unfold Regex.readNamed
  refine yields_accept.bind fun ⟨opens, s₁⟩ hopens => ?_
  rcases hopens with ⟨rfl, rfl⟩ | ⟨rfl, ht⟩
  · refine yields_expect.bind fun s₂ ht => ?_
    rw [ht.rest_eq] at hs
    exact absurd ⟨s₂.rest, rfl⟩ (hs ("(?P=", "backreference") (by decide))
  · refine ((h.takes_plain ht (by decide)).takeName (by decide)).bind fun ⟨name, s₂⟩ h₂ => ?_
    exact yields_ok.mpr ⟨rfl, nofun, h₂⟩

/-- A look behind is refused. -/
theorem readLookbehind_refused (hs : IsPermitted (Text.lit "(?<" ++ s.rest)) :
    Yields (ReadsOpening p) (readLookbehind s) := by
  unfold Regex.readLookbehind
  refine yields_get.bind fun ⟨l, s₁⟩ ht => ?_
  cases l with
  | escaped c => exact yields_error
  | plain c =>
    rw [ht.rest_eq] at hs
    dsimp only
    split_ifs with hequals hmark
    · obtain rfl := eq_ofChar hequals
      exact absurd ⟨s₁.rest, rfl⟩ (hs ("(?<=", "lookbehind") (by decide))
    · obtain rfl := eq_ofChar hmark
      exact absurd ⟨s₁.rest, rfl⟩ (hs ("(?<!", "lookbehind") (by decide))
    · exact yields_error

/-- An opening parenthesis and what follows it, if the scan does not refuse it, are passed over. -/
theorem Stands.readOpening (h : Stands p false s) (ht : Takes s (.plain c) s') (hc : c.is '(' = true) :
    Yields (ReadsOpening p) (readOpening s') := by
  obtain rfl := eq_ofChar hc
  have hpasses := h.passes
  rw [ht.rest_eq, passes_outside (by decide)] at hpasses
  have hs : IsPermitted (.ofChar '(' :: s'.rest) := hpasses.1
  have h' := h.takes_plain ht (by decide)
  unfold Regex.readOpening
  refine yields_accept.bind fun ⟨special, s₁⟩ hspecial => ?_
  rcases hspecial with ⟨rfl, rfl⟩ | ⟨rfl, ht₁⟩
  · exact yields_ok.mpr ⟨rfl, nofun, h'⟩
  have h₁ := h'.takes_plain ht₁ (by decide)
  rw [ht₁.rest_eq] at hs
  refine yields_get.bind fun ⟨l, s₂⟩ ht₂ => ?_
  cases l with
  | escaped d => exact yields_error
  | plain d =>
    have h₂ (hd : isOrdinary d = true) : Stands p false s₂ := h₁.takes_plain ht₂ hd
    rw [ht₂.rest_eq] at hs
    have hrefused {ch : Char} (hd : d.is ch = true) (g : String × String) (hg : g ∈ refusedGroups)
        (hlit : Text.lit g.1 = Text.lit "(?" ++ [.ofChar ch]) : False :=
      hs g hg ⟨s₂.rest, by rw [hlit, eq_ofChar hd]; rfl⟩
    dsimp only
    split_ifs with hP hcolon hcomment hequals hmark hless hparen hgreater
    · obtain rfl := eq_ofChar hP
      exact (h₂ (by decide)).readNamed hs
    · exact yields_ok.mpr ⟨rfl, nofun, h₂ (eq_ofChar hcolon ▸ rfl)⟩
    · exact (hrefused hcomment ("(?#", "comment group") (by decide) rfl).elim
    · exact (hrefused hequals ("(?=", "lookahead") (by decide) rfl).elim
    · exact (hrefused hmark ("(?!", "lookahead") (by decide) rfl).elim
    · obtain rfl := eq_ofChar hless
      exact readLookbehind_refused hs
    · exact (hrefused hparen ("(?(", "conditional group") (by decide) rfl).elim
    · exact (hrefused hgreater ("(?>", "atomic group") (by decide) rfl).elim
    · refine (Stands.readOptions h₂).bind fun ⟨o, s₃⟩ ⟨hletters, h₃⟩ => ?_
      have hverbose (ho : o.added.verbose = true) : turnsVerbose p = true := by
        obtain ⟨letters, t, heq, hall, hx⟩ := hletters ho
        have hsuffix : Text.lit "(?" ++ (letters ++ t) <:+ p := by
          have hrest := h.suffix
          rwa [ht.rest_eq, ht₁.rest_eq, ht₂.rest_eq, heq] at hrest
        exact turnsVerbose_of_suffix hsuffix (turnsVerbose_of_letters hall hx)
      cases o with
      | whole o => exact yields_ok.mpr ⟨rfl, hverbose, h₃⟩
      | within added removed => exact yields_ok.mpr ⟨rfl, hverbose, h₃⟩

end LogStream.Regex
