import LogStream.Proofs.Filter.Application
import LogStream.Proofs.Filter.Faults.Basic
import LogStream.Proofs.Filter.Templates.Pieces

/-! # Filling templates

A template is filled in piece by piece, and each piece leaves the arguments it has no use for to those behind
(`fill_append`) or to nobody (`fill_surplus`). What goes before a piece changes only by what number a missing argument
is called (`fill_behind`). So a template in front of another one goes with its own arguments (`fill_pieces_append`), and
`formats_by_clauses` says this of calls. -/

namespace LogStream.Filter

/-! ### Missing arguments -/

/-- The error of a template as it is behind one that takes a number of arguments: a missing argument is told by its
place among all. -/
def EvalError.behind (n : Nat) : EvalError → EvalError
  | .missingArgument i => .missingArgument (n + i)
  | e => e

def EvalFailure.behind (n : Nat) : EvalFailure → EvalFailure
  | .error e => .error (e.behind n)
  | .fault f => .fault f

/-- An argument is missing. -/
def EvalFailure.isMissing : EvalFailure → Bool
  | .error (.missingArgument _) => true
  | _ => false

theorem EvalFailure.behind_of_not_isMissing {f : EvalFailure} (h : f.isMissing = false) (n : Nat) :
    f.behind n = f := by
  cases f with
  | fault f => rfl
  | error e =>
    cases e with
    | missingArgument i => cases h
    | _ => rfl

/-- The evaluation misses no argument. -/
abbrev Eval.MissesNone {α : Type} (x : Eval α) : Prop := Eval.FailsOnly (fun f => f.isMissing = false) x

open Eval (MissesNone)

theorem Eval.missesNone_fail {α : Type} {e : EvalError} (h : ∀ i, e ≠ .missingArgument i) :
    MissesNone (Eval.fail e : Eval α) := by
  refine Eval.failsOnly_error_iff.mpr ?_
  cases e with
  | missingArgument i => exact absurd rfl (h i)
  | _ => rfl

theorem Eval.missesNone_stop {α : Type} (f : Fault) : MissesNone (Eval.stop f : Eval α) :=
  Eval.failsOnly_error_iff.mpr rfl

theorem Eval.MissesNone.mapError_behind {α : Type} {x : Eval α} (h : MissesNone x) (n : Nat) :
    x.mapError (EvalFailure.behind n) = x := by
  cases x with
  | ok a => rfl
  | error f => exact congrArg Except.error (EvalFailure.behind_of_not_isMissing (h f rfl) n)

namespace Dyn

theorem missesNone_text (v : Dyn) : MissesNone v.text := by
  cases v <;> simp [text, Eval.missesNone_fail, Eval.missesNone_stop, Eval.noOverload]

mutual

theorem missesNone_formatText (nested : Bool) : ∀ v : Dyn, MissesNone (formatText nested v)
  | .list xs => by simp [formatText, missesNone_formatTexts xs]
  | .map es => by simp [formatText, missesNone_formatEntries es]
  | .null | .bool _ | .int _ | .double _ | .string _ | .bytes _ | .timestamp _ | .duration _
  | .optional _ | .members _ | .foreign _ => by simp [formatText, missesNone_text]
termination_by structural v => v

theorem missesNone_formatTexts : ∀ xs : List Dyn, MissesNone (formatTexts xs)
  | [] => by simp [formatTexts]
  | x :: xs => by simp [formatTexts, missesNone_formatText true x, missesNone_formatTexts xs]
termination_by structural xs => xs

theorem missesNone_formatEntries : ∀ es : List (Dyn × Dyn), MissesNone (formatEntries es)
  | [] => by simp [formatEntries]
  | (k, v) :: es => by
    simp [formatEntries, missesNone_formatText true k, missesNone_formatText true v, missesNone_formatEntries es]
termination_by structural es => es

end

theorem missesNone_integerText (verb : CodePoint) (base : Nat) (v : Dyn) :
    MissesNone (integerText verb base v) := by
  cases v <;> simp [integerText, utf8, Eval.missesNone_fail, Eval.missesNone_stop]

theorem missesNone_doubleText (scientific : Bool) (precision : Nat) (x : Double) :
    MissesNone (doubleText scientific precision x) := by
  simp [doubleText, Eval.missesNone_stop]

theorem missesNone_ofNumber (x : Number) : MissesNone (ofNumber x) := by
  cases x <;> simp [ofNumber, Eval.missesNone_stop]

/-- What a clause makes of an argument does not want for another one. -/
theorem missesNone_clauseText (c : Clause) (verb : CodePoint) (style : Style) (arg : Dyn) :
    MissesNone (c.text verb style arg) := by
  have hplaces : MissesNone c.places := by
    unfold Clause.places
    split <;> simp [Eval.missesNone_stop]
  unfold Clause.text
  split
  · exact missesNone_formatText false arg
  · exact missesNone_integerText verb _ arg
  · split
    · exact Eval.missesNone_fail nofun
    · simp [missesNone_ofNumber, hplaces, missesNone_doubleText]

/-! ### Pieces -/

/-- The ways of a piece with its arguments. -/
theorem Piece.cases_args {motive : Piece → List Dyn → Prop}
    (plain : ∀ c args, motive (.plain c) args)
    (percent : ∀ c args, c.isPercent = true → motive (.clause c) args)
    (unknown : ∀ c args, c.isPercent = false → c.style? = none → motive (.clause c) args)
    (missing : ∀ c style, c.isPercent = false → c.style? = some style → motive (.clause c) [])
    (argument : ∀ c verb style arg args, c.isPercent = false → c.style? = some (verb, style) →
      motive (.clause c) (arg :: args)) : ∀ p args, motive p args
  | .plain c, args => plain c args
  | .clause c, args => by
    cases hpercent : c.isPercent with
    | true => exact percent c args hpercent
    | false =>
      cases hstyle : c.style? with
      | none => exact unknown c args hpercent hstyle
      | some style =>
        cases args with
        | nil => exact missing c style hpercent hstyle
        | cons arg args => exact argument c style.1 style.2 arg args hpercent hstyle

variable {p : Piece} {ps : List Piece} {args rest : List Dyn} {used : Nat} {t s : Text}

/-- A piece that has a text takes as many arguments as it should, and those behind make no difference. -/
theorem Piece.of_text_eq_ok (h : p.text used args = .ok (t, rest)) :
    p.stands = true ∧ args.length = p.size + rest.length ∧
      ∀ more, p.text used (args ++ more) = .ok (t, rest ++ more) := by
  induction p, args using Piece.cases_args with
  | plain c args =>
    cases h
    exact ⟨rfl, (Nat.zero_add _).symm, fun more => rfl⟩
  | percent c args hpercent =>
    rw [text_percent used args hpercent] at h
    cases h
    refine ⟨by simp [stands, Clause.stands, hpercent], by simp [size, hpercent], fun more => ?_⟩
    exact text_percent used _ hpercent
  | unknown c args hpercent hstyle =>
    rw [text_unknown used args hpercent hstyle] at h
    cases h
  | missing c style hpercent hstyle =>
    rw [text_missing used hpercent hstyle] at h
    cases h
  | argument c verb style arg args hpercent hstyle =>
    rw [text_argument used args hpercent hstyle] at h
    obtain ⟨u, hu, h⟩ := exists_of_map_eq_ok h
    cases h
    refine ⟨by simp [stands, Clause.stands, hstyle], by simp [size, hpercent, Nat.add_comm], fun more => ?_⟩
    rw [List.cons_append, text_argument used _ hpercent hstyle, hu]
    rfl

/-- A piece that fails for another reason than a missing argument does so whatever arguments there are behind. -/
theorem Piece.text_append_eq_error {f : EvalFailure} (h : p.text used args = .error f)
    (hf : f.isMissing = false) (more : List Dyn) : p.text used (args ++ more) = .error f := by
  induction p, args using Piece.cases_args with
  | plain c args => cases h
  | percent c args hpercent =>
    rw [text_percent used args hpercent] at h
    cases h
  | unknown c args hpercent hstyle =>
    rw [text_unknown used args hpercent hstyle] at h
    rw [text_unknown used _ hpercent hstyle, h]
  | missing c style hpercent hstyle =>
    rw [text_missing used hpercent hstyle] at h
    cases h
    cases hf
  | argument c verb style arg args hpercent hstyle =>
    rw [text_argument used args hpercent hstyle] at h
    rw [List.cons_append, text_argument used _ hpercent hstyle, eq_error_of_map h]
    rfl

/-- A piece behind other arguments. -/
theorem Piece.text_behind (p : Piece) (args : List Dyn) (n used : Nat) :
    p.text (n + used) args = (p.text used args).mapError (EvalFailure.behind n) := by
  induction p, args using Piece.cases_args with
  | plain c args => rfl
  | percent c args hpercent =>
    rw [text_percent _ args hpercent, text_percent _ args hpercent]
    rfl
  | unknown c args hpercent hstyle =>
    rw [text_unknown _ args hpercent hstyle, text_unknown _ args hpercent hstyle]
    rfl
  | missing c style hpercent hstyle =>
    rw [text_missing _ hpercent hstyle, text_missing _ hpercent hstyle]
    rfl
  | argument c verb style arg args hpercent hstyle =>
    have hnone : MissesNone ((c.text verb style arg).map fun t => (t, args)) :=
      Eval.failsOnly_map.mpr (missesNone_clauseText c verb style arg)
    rw [text_argument _ args hpercent hstyle, text_argument _ args hpercent hstyle, hnone.mapError_behind]

/-- A piece with an argument for it misses none. -/
theorem Piece.missesNone_text (h : p.size ≤ args.length) : MissesNone (p.text used args) := by
  induction p, args using Piece.cases_args with
  | plain c args => exact Eval.failsOnly_ok _
  | percent c args hpercent =>
    rw [text_percent used args hpercent]
    exact Eval.failsOnly_ok _
  | unknown c args hpercent hstyle =>
    rw [text_unknown used args hpercent hstyle]
    exact Eval.missesNone_fail nofun
  | missing c style hpercent hstyle =>
    rw [size, if_neg (by simp [hpercent])] at h
    cases h
  | argument c verb style arg args hpercent hstyle =>
    rw [text_argument used args hpercent hstyle]
    exact Eval.failsOnly_map.mpr (missesNone_clauseText c verb style arg)

/-! ### All pieces -/

theorem exists_of_fill_cons (h : fill used args (p :: ps) = .ok s) : ∃ t rest u,
    p.text used args = .ok (t, rest) ∧ fill (used + p.size) rest ps = .ok u ∧ s = t ++ u := by
  rw [fill_cons] at h
  obtain ⟨⟨t, rest⟩, ht, h⟩ := exists_of_bind_eq_ok h
  obtain ⟨u, hu, rfl⟩ := exists_of_map_eq_ok h
  exact ⟨t, rest, u, ht, hu, rfl⟩

/-- Pieces that can be filled in have a meaning, and there are arguments for all of them. -/
theorem of_fill_eq_ok : ∀ {ps : List Piece} {used : Nat} {args : List Dyn} {s : Text},
    fill used args ps = .ok s → (∀ p ∈ ps, p.stands = true) ∧ sizes ps ≤ args.length
  | [], _, _, _, _ => ⟨List.forall_mem_nil _, Nat.zero_le _⟩
  | p :: ps, used, args, s, h => by
    obtain ⟨t, rest, u, ht, hu, -⟩ := exists_of_fill_cons h
    obtain ⟨hstands, hlength, -⟩ := Piece.of_text_eq_ok ht
    obtain ⟨hall, hsizes⟩ := of_fill_eq_ok hu
    refine ⟨List.forall_mem_cons.mpr ⟨hstands, hall⟩, ?_⟩
    rw [sizes_cons]
    omega

/-- **The arguments that are left over go to the pieces behind.** -/
theorem fill_append (more : List Dyn) (qs : List Piece) :
    ∀ {ps : List Piece} {used : Nat} {args : List Dyn} {s : Text},
    fill used args ps = .ok s → args.length = sizes ps →
    fill used (args ++ more) (ps ++ qs) = (fill (used + args.length) more qs).map (s ++ ·)
  | [], used, args, s, h, hlength => by
    obtain rfl : args = [] := List.eq_nil_of_length_eq_zero hlength
    cases h
    exact (congrFun Except.map_id (fill used more qs)).symm
  | p :: ps, used, args, s, h, hlength => by
    obtain ⟨t, rest, u, ht, hu, rfl⟩ := exists_of_fill_cons h
    obtain ⟨-, hsize, hmore⟩ := Piece.of_text_eq_ok ht
    rw [sizes_cons] at hlength
    have ih := fill_append more qs hu (by omega)
    have hused : used + args.length = used + p.size + rest.length := by omega
    rw [List.cons_append, fill_cons, hmore more, ok_bind, ih, hused]
    cases fill (used + p.size + rest.length) more qs with
    | error f => rfl
    | ok v => exact congrArg Except.ok (List.append_assoc t u v).symm

/-- **Surplus arguments make no difference.** -/
theorem fill_surplus (more : List Dyn) : ∀ {ps : List Piece} {used : Nat} {args : List Dyn},
    MissesNone (fill used args ps) → fill used (args ++ more) ps = fill used args ps
  | [], _, _, _ => rfl
  | p :: ps, used, args, h => by
    rw [fill_cons] at h ⊢
    rw [fill_cons]
    cases ht : p.text used args with
    | error f =>
      have hf : f.isMissing = false := h f (by rw [ht]; rfl)
      rw [Piece.text_append_eq_error ht hf more]
    | ok a =>
      obtain ⟨-, -, hmore⟩ := Piece.of_text_eq_ok ht
      rw [ht, ok_bind] at h
      rw [hmore more, ok_bind, ok_bind, fill_surplus more (Eval.failsOnly_map.mp h)]

theorem missesNone_fill : ∀ {ps : List Piece} {used : Nat} {args : List Dyn},
    sizes ps ≤ args.length → MissesNone (fill used args ps)
  | [], _, _, _ => Eval.failsOnly_ok _
  | p :: ps, used, args, h => by
    rw [sizes_cons] at h
    rw [fill_cons, MissesNone, Eval.failsOnly_bind]
    refine ⟨Piece.missesNone_text (by omega), ?_⟩
    rintro ⟨t, rest⟩ ht
    obtain ⟨-, hlength, -⟩ := Piece.of_text_eq_ok ht
    exact Eval.failsOnly_map.mpr (missesNone_fill (by dsimp only; omega))

/-- **Pieces behind other arguments** fail in the same way, but for the place of a missing argument. -/
theorem fill_behind (n : Nat) : ∀ (ps : List Piece) (used : Nat) (args : List Dyn),
    fill (n + used) args ps = (fill used args ps).mapError (EvalFailure.behind n)
  | [], _, _ => rfl
  | p :: ps, used, args => by
    rw [fill_cons, fill_cons, Piece.text_behind]
    cases p.text used args with
    | error f => rfl
    | ok a =>
      have ih := fill_behind n ps (used + p.size) a.2
      rw [← Nat.add_assoc] at ih
      change (fill (n + used + p.size) a.2 ps).map _ = ((fill (used + p.size) a.2 ps).map _).mapError _
      rw [ih]
      cases fill (used + p.size) a.2 ps <;> rfl

theorem fill_plain (used : Nat) (args : List Dyn) : ∀ t : Text, fill used args (t.map .plain) = .ok t
  | [] => rfl
  | c :: r => by
    rw [List.map_cons, fill_cons, Piece.text, ok_bind, fill_plain _ args r]
    rfl

/-! ### Templates -/

/-- How many arguments the clauses of a template take. -/
def argumentCount (t : Text) : Nat := sizes (pieces t)

theorem format_eq (t : Text) (args : List Dyn) :
    format (.string t) (.list args) = (fill 0 args (pieces t)).map .string := by
  change (fillFrom 0 0 args t).map Dyn.string = _
  rw [fillFrom_eq]
  rfl

/-- **A template in front of another one takes its own arguments and leaves the rest.** -/
theorem fill_pieces_append {t₁ s₁ : Text} {a₁ : List Dyn} (t₂ : Text) (a₂ : List Dyn)
    (h : fill 0 a₁ (pieces t₁) = .ok s₁) (hall : a₁.length = argumentCount t₁) :
    fill 0 (a₁ ++ a₂) (pieces (t₁ ++ t₂)) =
      ((fill 0 a₂ (pieces t₂)).mapError (EvalFailure.behind a₁.length)).map (s₁ ++ ·) := by
  have hbehind := fill_behind a₁.length (pieces t₂) 0 a₂
  rw [Nat.add_zero] at hbehind
  rw [pieces_append (of_fill_eq_ok h).1, fill_append a₂ _ h hall, Nat.zero_add, hbehind]

end Dyn

/-! ### Calls -/

/-- The call of a template with arguments. -/
def formatCall (pos : Nat) (template args : Expr) : Expr := .method pos (Text.lit "format") template [args]

/-- Expressions of a template and of its arguments. -/
structure AreFormatted (env : Activation) (e f : Expr) (t : Text) (args : List Dyn) : Prop where
  template : eval env e = .ok (.string t)
  args : eval env f = .ok (.list args)

variable {env : Activation} {e f : Expr} {t : Text} {args : List Dyn}

theorem AreFormatted.eval_eq (h : AreFormatted env e f t args) (pos : Nat) :
    eval env (formatCall pos e f) =
      called (Text.lit "format") ((Dyn.fill 0 args (Dyn.pieces t)).map .string) := by
  have hname : Builtin.member? (Text.lit "format") = some .format := by decide
  rw [formatCall, eval_method hname h.template (evalAll_cons h.args evalAll_nil), ← Dyn.format_eq]
  rfl

theorem AreFormatted.eval_eq_ok_iff (h : AreFormatted env e f t args) (pos : Nat) {s : Text} :
    eval env (formatCall pos e f) = .ok (.string s) ↔ Dyn.fill 0 args (Dyn.pieces t) = .ok s := by
  rw [h.eval_eq]
  cases Dyn.fill 0 args (Dyn.pieces t) with
  | ok u =>
    change (Except.ok (Dyn.string u) : Eval Dyn) = .ok (.string s) ↔ (Except.ok u : Eval Text) = .ok s
    simp
  | error x =>
    refine iff_of_false ?_ nofun
    cases x with
    | error err => nofun
    | fault x => cases x <;> nofun

theorem AreFormatted.missesNone_iff (h : AreFormatted env e f t args) (pos : Nat) :
    MissesNone (Dyn.fill 0 args (Dyn.pieces t)) ↔
      ∀ i, eval env (formatCall pos e f) ≠ Eval.fail (.missingArgument i) := by
  rw [h.eval_eq]
  cases Dyn.fill 0 args (Dyn.pieces t) with
  | ok u => exact iff_of_true (Eval.failsOnly_ok u) nofun
  | error x =>
    rw [MissesNone, Eval.failsOnly_error_iff]
    cases x with
    | fault x => cases x <;> exact iff_of_true rfl nofun
    | error err =>
      cases err with
      | missingArgument i => exact iff_of_false nofun fun hnone => hnone i rfl
      | _ => exact iff_of_true rfl nofun

/-- What comes of templates in calls. -/
structure FormatsByClauses (env : Activation) : Prop where
  /-- A template in front of another one that has a text and takes all its arguments: its text stands in front of the
  text of the other one, or the failure of the other one is that of both, but that a missing argument is told by its
  place among all. -/
  append {e e₁ e₂ f f₁ f₂ : Expr} {t₁ t₂ s₁ : Text} {a₁ a₂ : List Dyn} (h₁ : AreFormatted env e₁ f₁ t₁ a₁)
    (h₂ : AreFormatted env e₂ f₂ t₂ a₂) (h : AreFormatted env e f (t₁ ++ t₂) (a₁ ++ a₂)) (pos pos₁ pos₂ : Nat)
    (hs : eval env (formatCall pos₁ e₁ f₁) = .ok (.string s₁)) (hall : a₁.length = Dyn.argumentCount t₁) :
    (∃ s₂, eval env (formatCall pos₂ e₂ f₂) = .ok (.string s₂) ∧
      eval env (formatCall pos e f) = .ok (.string (s₁ ++ s₂))) ∨
    ∃ x, eval env (formatCall pos₂ e₂ f₂) = .error x ∧
      eval env (formatCall pos e f) = .error (x.behind a₁.length)
  /-- Text without a percent sign stands for itself. -/
  plain {e f : Expr} {t : Text} {a : List Dyn} (h : AreFormatted env e f t a) (pos : Nat)
    (ht : ∀ c ∈ t, c.is '%' = false) : eval env (formatCall pos e f) = .ok (.string t)
  /-- Two percent signs stand for one. -/
  percent {e f : Expr} {a : List Dyn} (h : AreFormatted env e f (Text.lit "%%") a) (pos : Nat) :
    eval env (formatCall pos e f) = .ok (.string (Text.lit "%"))
  /-- A template that has a text had an argument for each of its clauses. -/
  taken {e f : Expr} {t s : Text} {a : List Dyn} (h : AreFormatted env e f t a) (pos : Nat)
    (hs : eval env (formatCall pos e f) = .ok (.string s)) : Dyn.argumentCount t ≤ a.length
  /-- No argument is missing where there is one for each clause. -/
  enough {e f : Expr} {t : Text} {a : List Dyn} (h : AreFormatted env e f t a) (pos : Nat)
    (ha : Dyn.argumentCount t ≤ a.length) (i : Nat) : eval env (formatCall pos e f) ≠ Eval.fail (.missingArgument i)
  /-- Where no argument is missing, more of them make no difference. -/
  surplus {e f g : Expr} {t : Text} {a b : List Dyn} (h : AreFormatted env e f t a)
    (hmore : AreFormatted env e g t (a ++ b)) (pos : Nat)
    (ha : ∀ i, eval env (formatCall pos e f) ≠ Eval.fail (.missingArgument i)) :
    eval env (formatCall pos e g) = eval env (formatCall pos e f)

/-- **Formatting goes clause by clause.** -/
theorem formats_by_clauses (env : Activation) : FormatsByClauses env where
  append {e e₁ e₂ f f₁ f₂ t₁ t₂ s₁ a₁ a₂} h₁ h₂ h pos pos₁ pos₂ hs hall := by
    have hfill := Dyn.fill_pieces_append t₂ a₂ ((h₁.eval_eq_ok_iff pos₁).mp hs) hall
    rw [h.eval_eq, h₂.eval_eq, hfill]
    cases Dyn.fill 0 a₂ (Dyn.pieces t₂) with
    | ok s₂ => exact .inl ⟨s₂, rfl, rfl⟩
    | error x =>
      refine .inr ?_
      cases x with
      | error err => exact ⟨_, rfl, rfl⟩
      | fault x => cases x <;> exact ⟨_, rfl, rfl⟩
  plain h pos ht := by
    rw [h.eval_eq_ok_iff, Dyn.pieces_plain ht]
    exact Dyn.fill_plain 0 _ _
  percent h pos := by
    rw [h.eval_eq_ok_iff]
    rfl
  taken h pos hs := (Dyn.of_fill_eq_ok ((h.eval_eq_ok_iff pos).mp hs)).2
  enough h pos ha i := (h.missesNone_iff pos).mp (Dyn.missesNone_fill ha) i
  surplus h hmore pos ha := by
    rw [hmore.eval_eq, h.eval_eq, Dyn.fill_surplus _ ((h.missesNone_iff pos).mpr ha)]

/-- A template with the argument it takes, in front of one that takes two and has one. -/
theorem formats_by_clauses_wanting :
    eval [] (formatCall 0 (.literal 0 (.string (Text.lit "%d%%"))) (.list 0 [.literal 0 (.int 7)])) =
      .ok (.string (Text.lit "7%")) ∧
    eval [] (formatCall 0 (.literal 0 (.string (Text.lit "%s%s"))) (.list 0 [.literal 0 (.string (Text.lit "x"))])) =
      Eval.fail (.missingArgument 1) ∧
    eval [] (formatCall 0 (.literal 0 (.string (Text.lit "%d%%%s%s")))
      (.list 0 [.literal 0 (.int 7), .literal 0 (.string (Text.lit "x"))])) = Eval.fail (.missingArgument 2) := by
  have hfront : AreFormatted [] (.literal 0 (.string (Text.lit "%d%%"))) (.list 0 [.literal 0 (.int 7)])
      (Text.lit "%d%%") [.int 7] := ⟨rfl, rfl⟩
  have hbehind : AreFormatted [] (.literal 0 (.string (Text.lit "%s%s")))
      (.list 0 [.literal 0 (.string (Text.lit "x"))]) (Text.lit "%s%s") [.string (Text.lit "x")] := ⟨rfl, rfl⟩
  have hboth : AreFormatted [] (.literal 0 (.string (Text.lit "%d%%%s%s")))
      (.list 0 [.literal 0 (.int 7), .literal 0 (.string (Text.lit "x"))])
      (Text.lit "%d%%" ++ Text.lit "%s%s") ([.int 7] ++ [.string (Text.lit "x")]) := ⟨rfl, rfl⟩
  have htext : eval [] (formatCall 0 (.literal 0 (.string (Text.lit "%d%%"))) (.list 0 [.literal 0 (.int 7)])) =
      .ok (.string (Text.lit "7%")) := rfl
  have hwants : eval [] (formatCall 0 (.literal 0 (.string (Text.lit "%s%s")))
      (.list 0 [.literal 0 (.string (Text.lit "x"))])) = Eval.fail (.missingArgument 1) := rfl
  refine ⟨htext, hwants, ?_⟩
  obtain ⟨s₂, hs₂, -⟩ | ⟨x, hx, h⟩ :=
    (formats_by_clauses []).append hfront hbehind hboth 0 0 0 htext (by decide)
  · rw [hwants] at hs₂
    cases hs₂
  · rw [hwants] at hx
    cases hx
    exact h

/-- The failure of a template behind another one is not its own: a missing argument is told by its place among all. -/
theorem not_formats_alike_wanting :
    eval [] (formatCall 0 (.literal 0 (.string (Text.lit "%s"))) (.list 0 [.literal 0 (.string (Text.lit "a"))])) =
      .ok (.string (Text.lit "a")) ∧ Dyn.argumentCount (Text.lit "%s") = 1 ∧
    eval [] (formatCall 0 (.literal 0 (.string (Text.lit "%s"))) (.list 0 [])) = Eval.fail (.missingArgument 0) ∧
    eval [] (formatCall 0 (.literal 0 (.string (Text.lit "%s%s")))
      (.list 0 [.literal 0 (.string (Text.lit "a"))])) ≠ Eval.fail (.missingArgument 0) := by
  refine ⟨rfl, rfl, rfl, fun h => ?_⟩
  have hone : eval [] (formatCall 0 (.literal 0 (.string (Text.lit "%s%s")))
      (.list 0 [.literal 0 (.string (Text.lit "a"))])) = Eval.fail (.missingArgument 1) := rfl
  rw [hone] at h
  cases h

end LogStream.Filter
