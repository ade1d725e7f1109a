import LogStream.Proofs.Regex.Linear

/-! # What the scan lets through

A pattern in which the scan finds nothing to refuse is linear, unless it passes over comments and one of
them holds an opening bracket (`parseNaming_isLinear`): the scan knows no comments, and takes the bracket for
the start of a set that hides what follows (`not_isLinear_of_hidden`). -/

namespace LogStream.Regex

open CodePoint (eq_ofChar is_eq_false_of_ne)

variable {c : CodePoint} {p t r : Text} {s s' : Reading} {n : Nat}

/-! ### Comments -/

theorem bracketInLine_cons (hslash : c.is '\\' = false) : bracketInLine (c :: t) =
    (!c.is '\n' && (c.is '[' || bracketInLine t)) := by
  cases t with
  | nil =>
    cases hline : c.is '\n' with
    | true => simp [bracketInLine, is_eq_false_of_ne hline (b := '[') (by decide)]
    | false => simp [bracketInLine]
  | cons d t => simp [bracketInLine, hslash]

/-- The rest of a line without an opening bracket is passed over. -/
theorem Stands.skipLine : ∀ {n : Nat} {s : Reading}, Stands p false s → bracketInLine s.rest = false →
    Yields (Stands p false) (skipLine n s)
  | 0, _, h, _ => yields_ok.mpr h
  | n + 1, s, h, hline => by
    unfold Regex.skipLine
    split
    · exact yields_ok.mpr h
    · rename_i l hpeek
      refine Yields.bind (p := Takes s l) (fun _ hnext => takes_of_next hpeek hnext) fun s' ht => ?_
      split
      · rename_i hend
        cases hend
        exact yields_ok.mpr (h.takes_plain ht (by decide))
      · rename_i hend
        cases l with
        | escaped d =>
          refine Stands.skipLine (h.takes ht nofun) ?_
          cases ht with
          | escaped hrest hslash => simpa [hrest, bracketInLine, hslash] using hline
        | plain c =>
          have hparts : c.is '[' = false ∧ bracketInLine s'.rest = false := by
            cases hslash : c.is '\\' with
            | true =>
              refine ⟨is_eq_false_of_ne hslash (by decide), ?_⟩
              cases ht with
              | plain hrest hlast => rw [hlast hslash]; rfl
            | false =>
              have hnewline : c.is '\n' = false := Bool.eq_false_iff.mpr fun hc => hend (eq_ofChar hc ▸ rfl)
              rw [ht.rest_eq, bracketInLine_cons hslash, hnewline] at hline
              simpa using hline
          exact Stands.skipLine (h.takes ht fun c' hc' => by cases hc'; exact hparts.1) hparts.2

/-- A comment without an opening bracket is passed over. -/
theorem Stands.skipComment (h : Stands p false s) (ht : Takes s (.plain c) s') (hc : c.is '#' = true)
    (hfree : hidesBracket p = false) : Yields (Stands p false) (Regex.skipLine n s') := by
  have hline : bracketInLine s'.rest = false := by
    refine Bool.eq_false_iff.mpr fun hline => ?_
    have hsuffix := h.suffix
    rw [ht.rest_eq] at hsuffix
    have hhides : hidesBracket (c :: s'.rest) = true := by rw [hidesBracket, hc, hline]; rfl
    exact absurd (hidesBracket_of_suffix hsuffix hhides) (Bool.eq_false_iff.mp hfree)
  have hopen : c.is '[' = false := is_eq_false_of_ne hc (by decide)
  exact Stands.skipLine (h.takes ht fun c' hc' => by cases hc'; exact hopen) hline

/-! ### Sequences -/

/-- With some fuel the reading of a pattern gives linear parts wherever the scan lets it pass. -/
structure ReadsLinear (p : Text) (n : Nat) : Prop where
  alternatives {place : Place} {s : Reading} : (place.verbose = true → turnsVerbose p = true) →
    Stands p false s → Yields (fun r => AreLinear r.1 ∧ Stands p false r.2) (readAlternatives n place s)
  branches {place : Place} {s : Reading} : (place.verbose = true → turnsVerbose p = true) →
    Stands p false s →
    Yields (fun r => (∀ ps ∈ r.1, AreLinear ps) ∧ Stands p false r.2) (readBranches n place s)
  sequence {place : Place} {pieces : List Piece} {s : Reading} :
    (place.verbose = true → turnsVerbose p = true) → AreLinear (patternsOf pieces) →
    Stands p false s → Yields (fun r => AreLinear r.1 ∧ Stands p false r.2) (readSequence n place pieces s)
  group {verbose : Bool} {opening : Opening} {s : Reading} : (verbose = true → turnsVerbose p = true) →
    ReadsOpening p (opening, s) →
    Yields (fun r => AreLinear (patternsOf [r.1]) ∧ Stands p false r.2) (readGroup n verbose opening s)

theorem ReadsLinear.zero : ReadsLinear p 0 where
  alternatives _ _ := yields_error
  branches _ _ := yields_error
  sequence _ _ _ := yields_error
  group _ _ := yields_error

section

variable (ih : ReadsLinear p n)

include ih

theorem ReadsLinear.alternatives_succ {place : Place}
    (hplace : place.verbose = true → turnsVerbose p = true) (h : Stands p false s) :
    Yields (fun r => AreLinear r.1 ∧ Stands p false r.2) (readAlternatives (n + 1) place s) := by
  rw [readAlternatives]
  exact (ih.branches hplace h).bind fun ⟨items, s'⟩ hr =>
    yields_ok.mpr ⟨areLinear_alternatives hr.1, hr.2⟩

theorem ReadsLinear.branches_succ {place : Place}
    (hplace : place.verbose = true → turnsVerbose p = true) (h : Stands p false s) :
    Yields (fun r => (∀ ps ∈ r.1, AreLinear ps) ∧ Stands p false r.2)
      (readBranches (n + 1) place s) := by
  rw [readBranches]
  have hnone : AreLinear (patternsOf []) := fun _ hq => absurd hq List.not_mem_nil
  refine (ih.sequence hplace hnone h).bind fun ⟨item, s₁⟩ ⟨hitem, h₁⟩ => ?_
  dsimp only
  split
  · rename_i hat
    refine (h₁.next (by decide) hat).bind fun s₂ h₂ => ?_
    have hverbose : (if place.nested then place.verbose else s₂.options.verbose) = true →
        turnsVerbose p = true := by
      split
      · exact hplace
      · exact h₂.verbose
    exact (ih.branches hverbose h₂).bind fun ⟨items, s₃⟩ hr =>
      yields_ok.mpr ⟨List.forall_mem_cons.mpr ⟨hitem, hr.1⟩, hr.2⟩
  · exact yields_ok.mpr ⟨List.forall_mem_singleton.mpr hitem, h₁⟩

section

variable {place : Place} {pieces : List Piece} (hplace : place.verbose = true → turnsVerbose p = true)
  (hpieces : AreLinear (patternsOf pieces))

include hplace hpieces

/-- A sequence behind one more group. -/
theorem ReadsLinear.sequence_group {opening : Opening} (ho : ReadsOpening p (opening, s)) :
    Yields (fun r => AreLinear r.1 ∧ Stands p false r.2)
      (readGroup n place.verbose opening s >>= fun r => readSequence n place (pieces ++ [r.1]) r.2) := by
  refine (ih.group hplace ho).bind fun r hr => ih.sequence hplace ?_ hr.2
  rw [patternsOf_append]
  exact List.forall_mem_append.mpr ⟨hpieces, hr.1⟩

omit hplace in
/-- A sequence behind options of the whole pattern. -/
theorem ReadsLinear.sequence_options {o : Options} (ho : ReadsOpening p (.options o, s)) :
    let s' := { s with options := s.options.either o }
    Yields (fun r => AreLinear r.1 ∧ Stands p false r.2)
      (readSequence n { place with verbose := s'.options.verbose } pieces s') := by
  have hverbose (hs : (s.options.either o).verbose = true) : turnsVerbose p = true :=
    (Bool.or_eq_true_iff.mp hs).elim ho.stands.verbose ho.verbose
  exact ih.sequence hverbose hpieces ⟨ho.stands.suffix, ho.stands.passes, hverbose, ho.stands.names⟩

theorem ReadsLinear.sequence_succ (hfree : turnsVerbose p = true → hidesBracket p = false)
    (h : Stands p false s) :
    Yields (fun r => AreLinear r.1 ∧ Stands p false r.2) (readSequence (n + 1) place pieces s) := by
  have hone {q : Pattern} {s : Reading} (hq : q.isLinear = true) (h : Stands p false s) :
      Yields (fun r => AreLinear r.1 ∧ Stands p false r.2)
        (readSequence n place (pieces ++ [.one q]) s) :=
    ih.sequence hplace (areLinear_snoc hpieces hq) h
  rw [readSequence]
  by_cases hend : s.rest = [] ∨ s.isAt '|' ∨ s.isAt ')'
  · rw [if_pos hend]
    exact yields_ok.mpr ⟨hpieces, h⟩
  · rw [if_neg hend]
    refine yields_get.bind ?_
    rintro ⟨l, s₁⟩ ht
    cases l with
    | escaped c =>
      have hdigit : isReferenceDigit c = false := by
        have hpasses := h.passes
        cases ht with
        | escaped hrest hslash =>
          rw [hrest] at hpasses
          exact ((passes_escape hslash).mp hpasses).1 rfl
      have h₁ : Stands p false s₁ := h.takes ht fun c' hc' => by cases hc'
      exact (h₁.readEscape hdigit).bind fun _ hr => hone hr.1 hr.2
    | plain c =>
      have h₁ (hc : c.is '[' = false) : Stands p false s₁ :=
        h.takes ht fun c' hc' => by cases hc'; exact hc
      dsimp only
      by_cases hspace : (place.verbose && c.isAsciiSpace) = true
      · rw [if_pos hspace]
        have hclass : isOrdinaryClass CodePoint.isAsciiSpace = true := by decide
        rw [Bool.and_eq_true] at hspace
        exact ih.sequence hplace hpieces (h.takes_plain ht (isOrdinary_of_class hclass hspace.2))
      rw [if_neg hspace]
      by_cases hcomment : (place.verbose && c.is '#') = true
      · rw [if_pos hcomment]
        rw [Bool.and_eq_true] at hcomment
        exact (h.skipComment ht hcomment.2 (hfree (hplace hcomment.1))).bind fun _ h₂ =>
          ih.sequence hplace hpieces h₂
      rw [if_neg hcomment]
      by_cases hspecial : (!c.isIn specialChars) = true
      · rw [if_pos hspecial]
        refine hone rfl (h₁ (Bool.eq_false_iff.mpr fun hc => ?_))
        rw [eq_ofChar hc] at hspecial
        exact absurd hspecial (by decide)
      rw [if_neg hspecial]
      by_cases hany : c.is '.' = true
      · rw [if_pos hany]
        exact hone rfl (h₁ (is_eq_false_of_ne hany (by decide)))
      rw [if_neg hany]
      by_cases hstart : c.is '^' = true
      · rw [if_pos hstart]
        exact hone rfl (h₁ (is_eq_false_of_ne hstart (by decide)))
      rw [if_neg hstart]
      by_cases hstop : c.is '$' = true
      · rw [if_pos hstop]
        exact hone rfl (h₁ (is_eq_false_of_ne hstop (by decide)))
      rw [if_neg hstop]
      by_cases hset : c.is '[' = true
      · rw [if_pos hset]
        refine (h.readSet ht hset).bind ?_
        rintro ⟨q, s₂⟩ ⟨⟨x, hx⟩, h₂⟩
        exact hone (by rw [hx]; rfl) h₂
      rw [if_neg hset]
      by_cases hgroup : c.is '(' = true
      · rw [if_pos hgroup]
        refine (h.readOpening ht hgroup).bind ?_
        rintro ⟨opening, s₂⟩ ho
        cases opening with
        | comment => cases ho.permitted
        | reference q => cases ho.permitted
        | options o =>
          dsimp only
          split
          · exact yields_error
          · exact ih.sequence_options hpieces ho
        | _ => exact ih.sequence_group hplace hpieces ho
      rw [if_neg hgroup]
      refine ((h₁ (Bool.eq_false_iff.mpr hset)).readRepeat c).bind ?_
      rintro ⟨bounds, s₂⟩ h₂
      cases bounds with
      | none => exact hone rfl h₂
      | some bounds =>
        exact (h₂.repeatLast hpieces).bind fun _ hr => ih.sequence hplace hr.1 hr.2

end

theorem ReadsLinear.group_succ {verbose : Bool} {opening : Opening}
    (hverbose : verbose = true → turnsVerbose p = true) (ho : ReadsOpening p (opening, s)) :
    Yields (fun r => AreLinear (patternsOf [r.1]) ∧ Stands p false r.2)
      (readGroup (n + 1) verbose opening s) := by
  have hsingle {q : Pattern} (hq : q.isLinear = true) : AreLinear (patternsOf [.one q]) :=
    List.forall_mem_singleton.mpr hq
  have hplain {ps : List Pattern} (hps : AreLinear ps) : AreLinear (patternsOf [.group ps]) := by
    simpa [patternsOf] using hps
  have hgroup (hread : readGroup (n + 1) verbose opening s =
        readAlternatives n ⟨true, false, verbose⟩ s >>= fun r =>
          r.2.expect ')' >>= fun s' => .ok (.group r.1, s')) :
      Yields (fun r => AreLinear (patternsOf [r.1]) ∧ Stands p false r.2)
        (readGroup (n + 1) verbose opening s) := by
    rw [hread]
    refine (ih.alternatives hverbose ho.stands).bind ?_
    rintro ⟨ps, s₁⟩ ⟨hps, h₁⟩
    exact (h₁.expect (by decide)).bind fun s₂ h₂ => yields_ok.mpr ⟨hplain hps, h₂⟩
  cases opening with
  | capture name =>
    rw [readGroup]
    have hopen : Yields (fun r => Stands p false r.2) (s.openGroup name) := by
      have h := ho.stands
      unfold Reading.openGroup
      cases name with
      | none => exact yields_ok.mpr ⟨h.suffix, h.passes, h.verbose, h.names⟩
      | some name =>
        dsimp only
        split
        · exact yields_error
        · exact yields_ok.mpr ⟨h.suffix, h.passes, h.verbose, h.names⟩
    refine hopen.bind ?_
    rintro ⟨group, s₁⟩ h₁
    refine (ih.alternatives hverbose h₁).bind ?_
    rintro ⟨ps, s₂⟩ ⟨hps, h₂⟩
    refine (h₂.expect (by decide)).bind fun s₃ h₃ => yields_ok.mpr ⟨?_, ?_⟩
    · exact hsingle (@isLinear_ofList ps hps)
    · exact ⟨h₃.suffix, h₃.passes, h₃.verbose, h₃.names⟩
  | within added removed =>
    rw [readGroup]
    have hinner : ((verbose || added.verbose) && !removed.verbose) = true → turnsVerbose p = true := by
      intro h
      exact (Bool.or_eq_true_iff.mp (Bool.and_eq_true_iff.mp h).1).elim hverbose ho.verbose
    have hread := @ih.alternatives ⟨true, false, _⟩ s hinner ho.stands
    refine hread.bind ?_
    rintro ⟨ps, s₁⟩ ⟨hps, h₁⟩
    refine (h₁.expect (by decide)).bind fun s₂ h₂ => ?_
    split
    · exact yields_ok.mpr ⟨hplain hps, h₂⟩
    · exact yields_ok.mpr ⟨hsingle (isLinear_ofList hps), h₂⟩
  | plain => exact hgroup rfl
  | options o => exact hgroup rfl
  | _ => cases ho.permitted

end

/-- With any fuel the reading gives linear parts. -/
theorem readsLinear (hfree : turnsVerbose p = true → hidesBracket p = false) : ∀ n, ReadsLinear p n
  | 0 => .zero
  | n + 1 =>
    let ih := readsLinear hfree n
    ⟨ih.alternatives_succ, ih.branches_succ, fun hplace hpieces => ih.sequence_succ hplace hpieces hfree,
      ih.group_succ⟩

/-! ### Whole patterns -/

variable {named : Text → Option CodePoint} {r : Parsed}

/-- **A pattern that the scan does not refuse is linear**, unless it passes over comments and there is an
opening bracket in one. -/
theorem parseNaming_isLinear (hnamed : HasPlainNames named) (hscan : refused? p = none)
    (h : parseNaming named p = .ok r) :
    r.pattern.isLinear = true ∨ (turnsVerbose p = true ∧ hidesBracket p = true) := by
  by_cases hfree : turnsVerbose p = true → hidesBracket p = false
  · left
    have hstart : Stands p false { rest := p, named } := ⟨List.suffix_rfl, hscan, nofun, hnamed⟩
    unfold parseNaming at h
    split at h
    · cases h
    · obtain ⟨⟨ps, s⟩, hread, h⟩ := exists_of_bind_eq_ok h
      have hplace : (⟨false, true, false⟩ : Place).verbose = true → turnsVerbose p = true := nofun
      have hps := ((readsLinear hfree _).alternatives hplace hstart _ hread).1
      dsimp only at h
      split_ifs at h <;> cases h
      exact @isLinear_ofList ps hps
  · rw [Classical.not_imp, Bool.not_eq_false] at hfree
    exact .inr hfree

/-- The name of one code point. -/
def nameDigitOne (name : Text) : Option CodePoint :=
  if name = Text.lit "DIGIT ONE" then some (.ofChar '1') else none

theorem parseNaming_isLinear_digitOne :
    HasPlainNames nameDigitOne ∧ refused? (Text.lit "\\N\x7bDIGIT ONE\x7d[(?=]*") = none ∧
      ∃ r, parseNaming nameDigitOne (Text.lit "\\N\x7bDIGIT ONE\x7d[(?=]*") = .ok r ∧
        r.pattern.isLinear = true := by
  have hnames : HasPlainNames nameDigitOne := by
    intro name c hc
    unfold nameDigitOne at hc
    split at hc
    · rename_i hname
      rw [hname]
      exact List.all_eq_true.mp (by decide)
    · cases hc
  have hscan : refused? (Text.lit "\\N\x7bDIGIT ONE\x7d[(?=]*") = none := by decide +kernel
  have hread : (parseNaming nameDigitOne (Text.lit "\\N\x7bDIGIT ONE\x7d[(?=]*")).toOption.any
      (fun _ => true) = true := by decide +kernel
  obtain ⟨r, hr, -⟩ := exists_of_any_toOption hread
  exact ⟨hnames, hscan, r, hr, (parseNaming_isLinear hnames hscan hr).resolve_right (by decide +kernel)⟩

/-- A bracket in a comment hides a look ahead. -/
theorem not_isLinear_of_hidden :
    ¬ ∀ (p : Text) (r : Parsed), refused? p = none → parse p = .ok r → r.pattern.isLinear = true := by
  intro h
  have hread : (parse (Text.lit "(?x)#[\n(?=a)")).toOption.any (fun r => !r.pattern.isLinear) = true := by
    decide +kernel
  obtain ⟨r, hr, hnot⟩ := exists_of_any_toOption hread
  rw [h _ r (by decide +kernel) hr] at hnot
  cases hnot

end LogStream.Regex
