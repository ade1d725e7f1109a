import Mathlib
import LogStream.Filter.Format
import LogStream.Proofs.Outcome
import LogStream.Proofs.Text.Runs

/-! # Templates in pieces

A template is cut into pieces, code points that stand for themselves and clauses (`pieces`), and is filled in piece by
piece (`fillFrom_eq`). A clause with a verb that has a meaning is the same whatever follows it (`readClause_append`), so
templates are cut one by one if all clauses of the first one have such a verb (`pieces_append`). -/

namespace LogStream.Filter

namespace Dyn

/-! ### Cutting -/

/-- A piece of a template. -/
inductive Piece
  | plain (c : CodePoint)
  | clause (c : Clause)

/-- The pieces of a template, of which some code points are still to be passed over. -/
def piecesFrom (skip : Nat) : Text → List Piece
  | [] => []
  | c :: r =>
    if skip ≠ 0 then piecesFrom (skip - 1) r
    else if c.is '%' then .clause (readClause r) :: piecesFrom (readClause r).length r
    else .plain c :: piecesFrom 0 r

def pieces (t : Text) : List Piece := piecesFrom 0 t

section

variable {c : CodePoint} (r : Text)

theorem piecesFrom_skip (c : CodePoint) (skip : Nat) : piecesFrom (skip + 1) (c :: r) = piecesFrom skip r := by
  simp [piecesFrom]

theorem piecesFrom_percent (hc : c.is '%' = true) :
    piecesFrom 0 (c :: r) = .clause (readClause r) :: piecesFrom (readClause r).length r := by
  simp [piecesFrom, hc]

theorem piecesFrom_plain (hc : c.is '%' = false) : piecesFrom 0 (c :: r) = .plain c :: piecesFrom 0 r := by
  simp [piecesFrom, hc]

end

/-- The clause has a meaning. -/
def Clause.stands (c : Clause) : Bool := c.isPercent || c.style?.isSome

/-- The piece has a meaning. -/
def Piece.stands : Piece → Bool
  | plain _ => true
  | clause c => c.stands

/-- How many arguments the piece takes. -/
def Piece.size : Piece → Nat
  | plain _ => 0
  | clause c => if c.isPercent then 0 else 1

/-- How many arguments the pieces take. -/
def sizes (ps : List Piece) : Nat := (ps.map Piece.size).sum

theorem sizes_cons (p : Piece) (ps : List Piece) : sizes (p :: ps) = p.size + sizes ps := rfl

theorem Clause.exists_verb {c : Clause} (h : c.stands = true) :
    ∃ v, c.verb = [v] ∧ v.is '.' = false := by
  rcases (Bool.or_eq_true _ _).mp h with hpercent | hstyle
  · exact ⟨_, beq_iff_eq.mp (Bool.and_eq_true_iff.mp hpercent).2, by decide⟩
  · unfold Clause.style? at hstyle
    split at hstyle
    · next v hv =>
      refine ⟨v, hv, ?_⟩
      rw [Option.isSome_map] at hstyle
      by_contra hpoint
      have hv : v = CodePoint.ofChar '.' := CodePoint.eq_ofChar (Bool.not_eq_false _ ▸ hpoint)
      subst hv
      exact absurd hstyle (by decide)
    · cases hstyle

/-! ### What follows a clause -/

section

variable {p v : CodePoint} {digits rest : Text}

theorem readClause_verb (hv : v.is '.' = false) (r : Text) : readClause (v :: r) = ⟨none, [v]⟩ := by
  simp [readClause, hv]

theorem readClause_point (hp : p.is '.' = true) (hne : digits ≠ []) (hdigits : ∀ d ∈ digits, d.isDecimal = true)
    (hrest : ∀ c ∈ rest.head?, c.isDecimal = false) :
    readClause (p :: (digits ++ rest)) = ⟨some digits, rest.take 1⟩ := by
  have hrun : (digits ++ rest).takeWhile CodePoint.isDecimal = digits := Text.takeWhile_append hdigits hrest
  simp [readClause, hp, hrun, hne]

theorem readClause_lonePoint (hp : p.is '.' = true) (hrest : ∀ c ∈ rest.head?, c.isDecimal = false) :
    readClause (p :: rest) = ⟨none, [p]⟩ := by
  have hrun : rest.takeWhile CodePoint.isDecimal = [] := Text.takeWhile_append (w := []) nofun hrest
  simp [readClause, hp, hrun]

end

/-- The forms of clauses with a meaning: a verb, or a point, a precision and a verb. -/
inductive ClauseForm : Text → Prop
  | verb {v : CodePoint} (hv : v.is '.' = false) (r : Text) : ClauseForm (v :: r)
  | point {p v : CodePoint} {digits : Text} (hp : p.is '.' = true) (hne : digits ≠ [])
      (hdigits : ∀ d ∈ digits, d.isDecimal = true) (hv : v.isDecimal = false) (r : Text) :
      ClauseForm (p :: (digits ++ v :: r))

theorem clauseForm_of_stands {r : Text} (h : (readClause r).stands = true) : ClauseForm r := by
  obtain ⟨v, hverb, hv⟩ := Clause.exists_verb h
  cases r with
  | nil => cases hverb
  | cons p r =>
    by_cases hp : p.is '.' = true
    · obtain ⟨digits, rest, rfl, hdigits, hrest⟩ := Text.exists_run CodePoint.isDecimal r
      by_cases hne : digits = []
      · -- The verb would be the point.
        subst hne
        rw [List.nil_append, readClause_lonePoint hp hrest] at hverb
        obtain rfl : p = v := List.singleton_inj.mp hverb
        exact absurd hp (by simp [hv])
      · rw [readClause_point hp hne hdigits hrest] at hverb
        cases rest with
        | nil => cases hverb
        | cons w rest => exact .point hp hne hdigits (hrest w rfl) rest
    · exact .verb (Bool.eq_false_iff.mpr hp) r

/-- **A clause with a meaning is the same whatever follows.** -/
theorem readClause_append {r : Text} (h : (readClause r).stands = true) (u : Text) :
    readClause (r ++ u) = readClause r := by
  cases clauseForm_of_stands h with
  | verb hv r => rw [List.cons_append, readClause_verb hv, readClause_verb hv]
  | @point p v digits hp hne hdigits hv r =>
    have hrest (r : Text) : ∀ c ∈ (v :: r).head?, c.isDecimal = false := by
      rintro c ⟨⟩
      exact hv
    rw [List.cons_append, List.append_assoc, List.cons_append, readClause_point hp hne hdigits (hrest _),
      readClause_point hp hne hdigits (hrest _)]
    rfl

/-- A clause with a meaning ends within the template. -/
theorem length_readClause_le {r : Text} (h : (readClause r).stands = true) : (readClause r).length ≤ r.length := by
  cases clauseForm_of_stands h with
  | verb hv r =>
    rw [readClause_verb hv]
    simp [Clause.length]
  | @point p v digits hp hne hdigits hv r =>
    have hrest : ∀ c ∈ (v :: r).head?, c.isDecimal = false := by
      rintro c ⟨⟩
      exact hv
    rw [readClause_point hp hne hdigits hrest]
    simp only [Clause.length, Option.elim_some, List.take_succ_cons, List.take_zero, List.length_cons, List.length_nil,
      List.length_append]
    omega

/-- A template in front of another one is cut as it is alone, if its clauses have a meaning. -/
theorem piecesFrom_append (u : Text) : ∀ {t : Text} {skip : Nat}, skip ≤ t.length →
    (∀ p ∈ piecesFrom skip t, p.stands = true) →
    piecesFrom skip (t ++ u) = piecesFrom skip t ++ pieces u
  | [], skip, hskip, _ => by
    obtain rfl : skip = 0 := Nat.le_zero.mp hskip
    rfl
  | c :: r, skip + 1, hskip, hstands => by
    rw [piecesFrom_skip] at hstands
    rw [List.cons_append, piecesFrom_skip, piecesFrom_skip]
    exact piecesFrom_append u (Nat.le_of_succ_le_succ hskip) hstands
  | c :: r, 0, _, hstands => by
    by_cases hc : c.is '%' = true
    · rw [piecesFrom_percent r hc, List.forall_mem_cons] at hstands
      obtain ⟨hclause, hrest⟩ := hstands
      have ih := piecesFrom_append u (length_readClause_le hclause) hrest
      rw [List.cons_append, piecesFrom_percent _ hc, piecesFrom_percent _ hc, readClause_append hclause, ih]
      rfl
    · have hc := Bool.eq_false_iff.mpr hc
      rw [piecesFrom_plain r hc, List.forall_mem_cons] at hstands
      have ih := piecesFrom_append u (Nat.zero_le r.length) hstands.2
      rw [List.cons_append, piecesFrom_plain _ hc, piecesFrom_plain _ hc, ih]
      rfl

/-- **Templates are cut one by one.** -/
theorem pieces_append {t : Text} (h : ∀ p ∈ pieces t, p.stands = true) (u : Text) :
    pieces (t ++ u) = pieces t ++ pieces u := piecesFrom_append u (Nat.zero_le _) h

theorem pieces_plain : ∀ {t : Text}, (∀ c ∈ t, c.is '%' = false) → pieces t = t.map .plain
  | [], _ => rfl
  | c :: r, h => by
    obtain ⟨hc, hr⟩ := List.forall_mem_cons.mp h
    rw [pieces, piecesFrom_plain r hc, List.map_cons, ← pieces_plain hr]
    rfl

/-! ### Filling -/

/-- The text of a piece, and the arguments that it leaves. -/
def Piece.text (used : Nat) (args : List Dyn) : Piece → Eval (Text × List Dyn)
  | plain c => .ok ([c], args)
  | clause c =>
    if c.isPercent then .ok (Text.lit "%", args)
    else
      match c.style?, args with
      | none, _ => Eval.fail (.unknownClause c.verb)
      | some _, [] => Eval.fail (.missingArgument used)
      | some (verb, style), arg :: rest => (c.text verb style arg).map fun t => (t, rest)

section

variable {c : Clause} (used : Nat) (args : List Dyn)

theorem Piece.text_percent (h : c.isPercent = true) : (clause c).text used args = .ok (Text.lit "%", args) :=
  if_pos h

variable (h : c.isPercent = false)
include h

theorem Piece.text_unknown (hstyle : c.style? = none) :
    (clause c).text used args = Eval.fail (.unknownClause c.verb) := by
  unfold Piece.text
  simp only [h, hstyle, Bool.false_eq_true, if_false]

theorem Piece.text_missing {style : CodePoint × Style} (hstyle : c.style? = some style) :
    (clause c).text used [] = Eval.fail (.missingArgument used) := by
  unfold Piece.text
  simp only [h, hstyle, Bool.false_eq_true, if_false]

theorem Piece.text_argument {verb : CodePoint} {style : Style} (hstyle : c.style? = some (verb, style)) (arg : Dyn) :
    (clause c).text used (arg :: args) = (c.text verb style arg).map fun t => (t, args) := by
  unfold Piece.text
  simp only [h, hstyle, Bool.false_eq_true, if_false]

end

/-- The text of pieces, of which those in front have used some arguments. -/
def fill (used : Nat) (args : List Dyn) : List Piece → Eval Text
  | [] => .ok []
  | p :: ps => do
    let (t, rest) ← p.text used args
    return t ++ (← fill (used + p.size) rest ps)

theorem fill_cons (used : Nat) (args : List Dyn) (p : Piece) (ps : List Piece) :
    fill used args (p :: ps) = p.text used args >>= fun a => (fill (used + p.size) a.2 ps).map (a.1 ++ ·) := rfl

/-- **A template is filled in piece by piece.** -/
theorem fillFrom_eq : ∀ (t : Text) (used skip : Nat) (args : List Dyn),
    fillFrom used skip args t = fill used args (piecesFrom skip t)
  | [], _, _, _ => rfl
  | c :: r, used, skip + 1, args => by
    rw [piecesFrom_skip, ← fillFrom_eq r used skip args]
    simp [fillFrom]
  | c :: r, used, 0, args => by
    by_cases hc : c.is '%' = true
    · rw [piecesFrom_percent r hc, fill_cons]
      simp only [fillFrom, hc, ne_eq, not_true_eq_false, if_false, if_true]
      by_cases hpercent : (readClause r).isPercent = true
      · rw [if_pos hpercent, Piece.text_percent used args hpercent, Piece.size, if_pos hpercent,
          fillFrom_eq r used _ args, CodePoint.eq_ofChar hc]
        rfl
      · rw [if_neg hpercent, Piece.size, if_neg hpercent]
        have hpercent := Bool.eq_false_iff.mpr hpercent
        cases hstyle : (readClause r).style? with
        | none => rw [Piece.text_unknown used args hpercent hstyle]; rfl
        | some style =>
          obtain ⟨verb, style⟩ := style
          cases args with
          | nil => rw [Piece.text_missing used hpercent hstyle]; rfl
          | cons arg args =>
            dsimp only
            rw [Piece.text_argument used args hpercent hstyle, fillFrom_eq r (used + 1) _ args]
            cases (readClause r).text verb style arg <;> rfl
    · have hc := Bool.eq_false_iff.mpr hc
      rw [piecesFrom_plain r hc, fill_cons]
      simp only [fillFrom, hc, ne_eq, not_true_eq_false, if_false]
      rw [fillFrom_eq r used 0 args]
      rfl

end Dyn

end LogStream.Filter
