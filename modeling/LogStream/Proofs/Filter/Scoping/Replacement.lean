import LogStream.Filter.Checker
import LogStream.Filter.Evaluator
import LogStream.Proofs.Filter.Parts
import LogStream.Proofs.Outcome

/-! # Replacing what a name stands for

The value of an expression and its type depend on names in one way: by the values or the types that the
open names have, wherever the expression stands. So both are instances of one notion (`IsLexical`): of
two expressions that mean the same under all names bound around them, one can be put in for the other.
This says that names that are not open do not matter (`IsLexical.eq_of_free`), that a name can be
replaced by what it stands for (`IsLexical.eq_replace`), and that parts of one meaning can be exchanged
(`IsLexical.replace_congr`). -/

namespace LogStream.Filter

/-! ### What is put in for a name -/

section

variable {β γ : Type} {sem : List (Text × β) → Expr → γ} {x : Text} {put put' : Nat → Expr}
  {env env' : List (Text × β)}

/-- What is put in for `x` means the same for two lists of variables, at any place that some names are
bound around. The other names that are left open agree. -/
structure Interchangeable (sem : List (Text × β) → Expr → γ) (x : Text) (put put' : Nat → Expr)
    (env env' : List (Text × β)) (free bound : List Text) : Prop where
  lookup_eq : ∀ n ∈ free, n ≠ x → env.lookup n = env'.lookup n
  put_eq : x ∈ free → ∀ names : List (Text × β), (∀ b ∈ names, b.1 ∈ bound ∧ b.1 ≠ x) →
    ∀ pos, sem (names ++ env) (put pos) = sem (names ++ env') (put' pos)

/-- The meaning of a name depends on what is looked up for it. -/
def LooksUp (sem : List (Text × β) → Expr → γ) : Prop :=
  ∀ {env env' : List (Text × β)} {n : Text} (pos : Nat), env.lookup n = env'.lookup n →
    sem env (.ident pos n) = sem env' (.ident pos n)

/-- Expressions that are interchangeable can be put in for the name. -/
def Respects (sem : List (Text × β) → Expr → γ) (x : Text) (e : Expr) : Prop :=
  ∀ {put put' : Nat → Expr} {env env' : List (Text × β)},
    Interchangeable sem x put put' env env' e.free e.bound →
    sem env (e.replace x put) = sem env' (e.replace x put')

theorem lookup_append_of_ne {names : List (Text × β)} {n : Text} (h : ∀ b ∈ names, b.1 ≠ n) :
    (names ++ env).lookup n = env.lookup n := by
  have hnone : names.lookup n = none :=
    List.lookup_eq_none_iff.mpr fun b hb => bne_iff_ne.mpr (h b hb).symm
  rw [List.lookup_append, hnone, Option.none_or]

theorem lookup_append_congr {n : Text} (h : env.lookup n = env'.lookup n)
    (names : List (Text × β)) : (names ++ env).lookup n = (names ++ env').lookup n := by
  rw [List.lookup_append, List.lookup_append, h]

namespace Interchangeable

variable {free free' bound bound' : List Text} {var : Text} {body : Expr}

theorem append
    (h : Interchangeable sem x put put' env env' (free ++ free') (bound ++ bound')) :
    Interchangeable sem x put put' env env' free bound ∧
      Interchangeable sem x put put' env env' free' bound' := by
  constructor
  · refine ⟨fun n hn => h.lookup_eq n (List.mem_append_left _ hn), fun hx names hnames => ?_⟩
    exact h.put_eq (List.mem_append_left _ hx) names fun b hb =>
      ⟨List.mem_append_left _ (hnames b hb).1, (hnames b hb).2⟩
  · refine ⟨fun n hn => h.lookup_eq n (List.mem_append_right _ hn), fun hx names hnames => ?_⟩
    exact h.put_eq (List.mem_append_right _ hx) names fun b hb =>
      ⟨List.mem_append_right _ (hnames b hb).1, (hnames b hb).2⟩

/-- A name is interchangeable with itself, if what is looked up for the open names is the same. -/
theorem self (hsem : LooksUp sem) (h : ∀ n ∈ free, env.lookup n = env'.lookup n) :
    Interchangeable sem x (.ident · x) (.ident · x) env env' free bound where
  lookup_eq n hn _ := h n hn
  put_eq hx names _ pos := hsem pos (lookup_append_congr (h x hx) names)

/-- In a body that is in the scope of one more variable, another one than the name. -/
theorem bind (h : Interchangeable sem x put put' env env' (free.filter (· ≠ var)) (var :: bound))
    (hvar : var ≠ x) (v : β) :
    Interchangeable sem x put put' ((var, v) :: env) ((var, v) :: env') free bound := by
  constructor
  · intro n hn hnx
    rw [List.lookup_cons, List.lookup_cons]
    split
    · rfl
    · next hne =>
      have hnvar : n ≠ var := ne_of_beq_false hne
      exact h.lookup_eq n (List.mem_filter.mpr ⟨hn, decide_eq_true hnvar⟩) hnx
  · intro hx names hnames pos
    have hput := h.put_eq (List.mem_filter.mpr ⟨hx, decide_eq_true hvar.symm⟩)
      (names ++ [(var, v)]) (fun b hb => ?_) pos
    · rwa [List.append_assoc, List.append_assoc] at hput
    · rcases List.mem_append.mp hb with hb | hb
      · exact ⟨List.mem_cons_of_mem _ (hnames b hb).1, (hnames b hb).2⟩
      · cases List.mem_singleton.mp hb
        exact ⟨List.mem_cons_self, hvar⟩

/-- A body in the scope of one more variable. Where the variable is the name itself, nothing is put
in. -/
theorem inBody (hsem : LooksUp sem)
    (h : Interchangeable sem x put put' env env' (body.free.filter (· ≠ var)) (var :: body.bound))
    (ih : Respects sem x body) (v : β) :
    sem ((var, v) :: env) (if var = x then body else body.replace x put) =
      sem ((var, v) :: env') (if var = x then body else body.replace x put') := by
  by_cases hvar : var = x
  · subst hvar
    have hlookup : ∀ n ∈ body.free,
        List.lookup n ((var, v) :: env) = List.lookup n ((var, v) :: env') := by
      intro n hn
      rw [List.lookup_cons, List.lookup_cons]
      split
      · rfl
      · next hne =>
        have hnvar : n ≠ var := ne_of_beq_false hne
        exact h.lookup_eq n (List.mem_filter.mpr ⟨hn, decide_eq_true hnvar⟩) hnvar
    have hself := ih (.self hsem hlookup)
    rw [Expr.replace_self] at hself
    rwa [if_pos rfl, if_pos rfl]
  · rw [if_neg hvar, if_neg hvar]
    exact ih (h.bind hvar v)

end Interchangeable

end

/-! ### Values -/

theorem looksUp_eval : LooksUp eval := by
  intro env env' n pos h
  rw [eval, eval, h]

mutual

theorem respects_eval (x : Text) : ∀ e : Expr, Respects eval x e
  | .literal _ _, _, _, _, _, _ => rfl
  | .ident pos name, _, _, env, env', h => by
    unfold Expr.replace
    split
    · next hname => exact h.put_eq (List.mem_singleton.mpr hname.symm) [] nofun pos
    · next hname => exact looksUp_eval pos (h.lookup_eq name (List.mem_singleton_self name) hname)
  | .select _ operand _ _, _, _, _, _, h => by
    simp only [Expr.replace, eval]
    rw [respects_eval x operand h]
  | .index _ operand key _, _, _, _, _, h => by
    obtain ⟨ho, hk⟩ := h.append
    simp only [Expr.replace, eval]
    rw [respects_eval x operand ho, respects_eval x key hk]
  | .call _ _ args, _, _, _, _, h => by
    simp only [Expr.replace, eval]
    rw [evalAll_replaceAll x args h]
  | .method _ _ receiver args, _, _, _, _, h => by
    obtain ⟨hr, ha⟩ := h.append
    simp only [Expr.replace, eval]
    rw [respects_eval x receiver hr, evalAll_replaceAll x args ha]
  | .list _ elements, _, _, _, _, h => by
    simp only [Expr.replace, eval]
    rw [evalAll_replaceAll x elements h]
  | .map _ entries, _, _, _, _, h => by
    simp only [Expr.replace, eval]
    rw [evalEntries_replaceEntries x entries h]
  | .unary _ op operand, _, _, _, _, h => by
    cases op <;> simp only [Expr.replace, eval] <;> rw [respects_eval x operand h]
  | .binary _ op left right, _, _, _, _, h => by
    obtain ⟨hl, hr⟩ := h.append
    cases op <;> simp only [Expr.replace, eval] <;>
      rw [respects_eval x left hl, respects_eval x right hr]
  | .conditional _ condition yes no, _, _, _, _, h => by
    obtain ⟨hc, h⟩ := h.append
    obtain ⟨hy, hn⟩ := h.append
    simp only [Expr.replace, eval]
    rw [respects_eval x condition hc, respects_eval x yes hy, respects_eval x no hn]
  | .has _ _ operand _, _, _, _, _, h => by
    simp only [Expr.replace, eval]
    rw [respects_eval x operand h]
  | .walk _ _ range _ body, _, _, _, _, h => by
    obtain ⟨hr, hb⟩ := h.append
    simp only [Expr.replace, eval]
    rw [respects_eval x range hr, funext (hb.inBody looksUp_eval (respects_eval x body))]
  | .bind _ _ init body, _, _, _, _, h => by
    obtain ⟨hi, hb⟩ := h.append
    simp only [Expr.replace, eval]
    rw [respects_eval x init hi, funext (hb.inBody looksUp_eval (respects_eval x body))]
termination_by structural e => e

theorem evalAll_replaceAll (x : Text) : ∀ (es : List Expr) {put put' : Nat → Expr}
    {env env' : Activation},
    Interchangeable eval x put put' env env' (Expr.freeAll es) (Expr.boundAll es) →
    evalAll env (Expr.replaceAll x put es) = evalAll env' (Expr.replaceAll x put' es)
  | [], _, _, _, _, _ => rfl
  | e :: es, _, _, _, _, h => by
    obtain ⟨he, hes⟩ := h.append
    simp only [Expr.replaceAll, evalAll]
    rw [respects_eval x e he, evalAll_replaceAll x es hes]
termination_by structural es => es

theorem evalEntries_replaceEntries (x : Text) : ∀ (es : List (Expr × Expr))
    {put put' : Nat → Expr} {env env' : Activation} {done : List (Dyn × Dyn)},
    Interchangeable eval x put put' env env' (Expr.freeEntries es) (Expr.boundEntries es) →
    evalEntries env done (Expr.replaceEntries x put es) =
      evalEntries env' done (Expr.replaceEntries x put' es)
  | [], _, _, _, _, _, _ => rfl
  | (key, content) :: es, _, _, _, _, _, h => by
    obtain ⟨hk, h⟩ := h.append
    obtain ⟨hc, hes⟩ := h.append
    simp only [Expr.replaceEntries, evalEntries]
    rw [respects_eval x key hk, respects_eval x content hc]
    simp only [evalEntries_replaceEntries x es hes]
termination_by structural es => es

end

/-! ### Types -/

/-- The type of an expression, if there is one. -/
def Expr.type? (scope : Scope) (e : Expr) : Option Ty := (check scope e).toOption

theorem type?_ident {scope : Scope} {pos : Nat} {name : Text} :
    (Expr.ident pos name).type? scope = scope.lookup name := by
  rw [Expr.type?, check]
  cases scope.lookup name <;> rfl

theorem looksUp_type? : LooksUp Expr.type? := by
  intro scope scope' n pos h
  rw [type?_ident, type?_ident, h]

/-- Whether a walk has a type depends on the types alone. -/
theorem toOption_walkType (pos pos' : Nat) (kind : Walk) (elem t : Ty) :
    (walkType pos kind elem t).toOption = (walkType pos' kind elem t).toOption := by
  cases kind <;> unfold walkType <;> dsimp only <;> split <;> rfl

mutual

theorem respects_type? (x : Text) : ∀ e : Expr, Respects Expr.type? x e
  | .literal _ _, _, _, _, _, _ => rfl
  | .ident pos name, _, _, _, _, h => by
    unfold Expr.replace
    split
    · next hname => exact h.put_eq (List.mem_singleton.mpr hname.symm) [] nofun pos
    · next hname => exact looksUp_type? pos (h.lookup_eq name (List.mem_singleton_self name) hname)
  | .select _ operand _ _, _, _, _, _, h => by
    have ih := respects_type? x operand h
    simp only [Expr.type?, Expr.replace, check, toOption_bind] at ih ⊢
    rw [ih]
  | .index _ operand key _, _, _, _, _, h => by
    obtain ⟨ho, hk⟩ := h.append
    have iho := respects_type? x operand ho
    have ihk := respects_type? x key hk
    simp only [Expr.type?, Expr.replace, check, toOption_bind] at iho ihk ⊢
    rw [iho, ihk]
  | .call _ _ args, _, _, _, _, h => by
    simp only [Expr.type?, Expr.replace, check, toOption_bind]
    rw [checkAll_replaceAll x args h]
  | .method _ _ receiver args, _, _, _, _, h => by
    obtain ⟨hr, ha⟩ := h.append
    have ih := respects_type? x receiver hr
    simp only [Expr.type?, Expr.replace, check, toOption_bind] at ih ⊢
    rw [ih, checkAll_replaceAll x args ha]
  | .list _ elements, _, _, _, _, h => by
    simp only [Expr.type?, Expr.replace, check, toOption_bind]
    rw [checkAll_replaceAll x elements h]
  | .map _ entries, _, _, _, _, h => by
    simp only [Expr.type?, Expr.replace, check, toOption_bind]
    rw [checkEntries_replaceEntries x entries h]
  | .unary _ op operand, _, _, _, _, h => by
    have ih := respects_type? x operand h
    simp only [Expr.type?, Expr.replace, check, toOption_bind] at ih ⊢
    rw [ih]
  | .binary _ op left right, _, _, _, _, h => by
    obtain ⟨hl, hr⟩ := h.append
    have ihl := respects_type? x left hl
    have ihr := respects_type? x right hr
    simp only [Expr.type?, Expr.replace, check, toOption_bind] at ihl ihr ⊢
    rw [ihl, ihr]
  | .conditional _ condition yes no, _, _, _, _, h => by
    obtain ⟨hc, h⟩ := h.append
    obtain ⟨hy, hn⟩ := h.append
    have ihc := respects_type? x condition hc
    have ihy := respects_type? x yes hy
    have ihn := respects_type? x no hn
    simp only [Expr.type?, Expr.replace, check, toOption_bind] at ihc ihy ihn ⊢
    rw [ihc]
    refine congrArg _ (funext fun c => ?_)
    split
    · simp only [toOption_bind]
      rw [ihy, ihn]
    · rfl
  | .has _ _ operand _, _, _, _, _, h => by
    have ih := respects_type? x operand h
    simp only [Expr.type?, Expr.replace, check, toOption_bind] at ih ⊢
    rw [ih]
  | .walk _ kind range _ body, _, _, _, _, h => by
    obtain ⟨hr, hb⟩ := h.append
    have ihr := respects_type? x range hr
    have ihb := hb.inBody looksUp_type? (respects_type? x body)
    simp only [Expr.type?, Expr.replace, check, toOption_bind] at ihr ihb ⊢
    rw [ihr]
    refine congrArg _ (funext fun a => congrArg _ (funext fun elem => ?_))
    rw [ihb elem]
    exact congrArg _ (funext fun t => toOption_walkType _ _ kind elem t)
  | .bind _ _ init body, _, _, _, _, h => by
    obtain ⟨hi, hb⟩ := h.append
    have ihi := respects_type? x init hi
    have ihb := hb.inBody looksUp_type? (respects_type? x body)
    simp only [Expr.type?, Expr.replace, check, toOption_bind] at ihi ihb ⊢
    rw [ihi, funext ihb]
termination_by structural e => e

theorem checkAll_replaceAll (x : Text) : ∀ (es : List Expr) {put put' : Nat → Expr}
    {scope scope' : Scope},
    Interchangeable Expr.type? x put put' scope scope' (Expr.freeAll es) (Expr.boundAll es) →
    (checkAll scope (Expr.replaceAll x put es)).toOption =
      (checkAll scope' (Expr.replaceAll x put' es)).toOption
  | [], _, _, _, _, _ => rfl
  | e :: es, _, _, _, _, h => by
    obtain ⟨he, hes⟩ := h.append
    have ih := respects_type? x e he
    simp only [Expr.type?, Expr.replaceAll, checkAll, toOption_bind] at ih ⊢
    rw [ih, checkAll_replaceAll x es hes]
termination_by structural es => es

theorem checkEntries_replaceEntries (x : Text) : ∀ (es : List (Expr × Expr))
    {put put' : Nat → Expr} {scope scope' : Scope},
    Interchangeable Expr.type? x put put' scope scope' (Expr.freeEntries es)
      (Expr.boundEntries es) →
    (checkEntries scope (Expr.replaceEntries x put es)).toOption =
      (checkEntries scope' (Expr.replaceEntries x put' es)).toOption
  | [], _, _, _, _, _ => rfl
  | (key, content) :: es, _, _, _, _, h => by
    obtain ⟨hk, h⟩ := h.append
    obtain ⟨hc, hes⟩ := h.append
    have ihk := respects_type? x key hk
    have ihc := respects_type? x content hc
    simp only [Expr.type?, Expr.replaceEntries, checkEntries, toOption_bind] at ihk ihc ⊢
    rw [ihk]
    refine congrArg _ (funext fun k => ?_)
    split
    · simp only [toOption_bind]
      rw [ihc, checkEntries_replaceEntries x es hes]
    · rfl
termination_by structural es => es

end

/-! ### Scoping -/

/-- The meaning of an expression depends on the meanings of its open names, wherever it stands. -/
structure IsLexical {β γ : Type} (sem : List (Text × β) → Expr → γ) (value : β → γ) : Prop where
  looksUp : LooksUp sem
  of_lookup : ∀ {env : List (Text × β)} {n : Text} {v : β} (pos : Nat), env.lookup n = some v →
    sem env (.ident pos n) = value v
  respects : ∀ (x : Text) (e : Expr), Respects sem x e

theorem isLexical_eval : IsLexical eval .ok where
  looksUp := looksUp_eval
  of_lookup pos h := by
    rw [eval, h]
    rfl
  respects := respects_eval

theorem isLexical_type? : IsLexical Expr.type? some where
  looksUp := looksUp_type?
  of_lookup pos h := by rw [type?_ident, h]
  respects := respects_type?

namespace IsLexical

variable {β γ : Type} {sem : List (Text × β) → Expr → γ} {value : β → γ} {x : Text} {v : β}
  {put put' : Nat → Expr} {e : Expr} {env env' : List (Text × β)}

/-- Names that are not open do not matter. -/
theorem eq_of_free (hsem : IsLexical sem value)
    (h : ∀ n ∈ e.free, env.lookup n = env'.lookup n) : sem env e = sem env' e := by
  have heq := hsem.respects [] e (.self hsem.looksUp h)
  rwa [Expr.replace_self] at heq

/-- Parts of one meaning can be exchanged. -/
theorem replace_congr (hsem : IsLexical sem value)
    (h : ∀ env pos, sem env (put pos) = sem env (put' pos)) (x : Text) (e : Expr)
    (env : List (Text × β)) : sem env (e.replace x put) = sem env (e.replace x put') :=
  hsem.respects x e ⟨fun _ _ _ => rfl, fun _ _ _ pos => h _ pos⟩

/-- **A name can be replaced by what it stands for**, if this leaves no name open that is bound where
the name stands. -/
theorem eq_replace (hsem : IsLexical sem value) (hx : env.lookup x = some v)
    (hothers : ∀ n ∈ e.free, n ≠ x → env.lookup n = env'.lookup n)
    (hput : ∀ pos, sem env' (put pos) = value v)
    (hcapture : ∀ n ∈ e.bound, ∀ pos, n ∉ (put pos).free) :
    sem env e = sem env' (e.replace x put) := by
  have h : Interchangeable sem x (.ident · x) put env env' e.free e.bound := by
    refine ⟨hothers, fun _ names hnames pos => ?_⟩
    have hname : (names ++ env).lookup x = some v := by
      rw [lookup_append_of_ne fun b hb => (hnames b hb).2, hx]
    have hunder : sem (names ++ env') (put pos) = sem env' (put pos) := by
      refine hsem.eq_of_free fun n hn => lookup_append_of_ne fun b hb => ?_
      rintro rfl
      exact hcapture _ (hnames b hb).1 pos hn
    rw [hsem.of_lookup pos hname, hunder, hput]
  have heq := hsem.respects x e h
  rwa [Expr.replace_self] at heq

/-- A variable can have another name, one that does not occur in the scope of the variable. -/
theorem eq_rename (hsem : IsLexical sem value) {y : Text} (hfree : y ∉ e.free)
    (hbound : y ∉ e.bound) (v : β) (env : List (Text × β)) :
    sem ((x, v) :: env) e = sem ((y, v) :: env) (e.rename x y) := by
  refine hsem.eq_replace List.lookup_cons_self (fun n hn hnx => ?_)
    (fun pos => hsem.of_lookup pos List.lookup_cons_self) fun n hn pos hny => ?_
  · have hny : n ≠ y := fun h => hfree (h ▸ hn)
    rw [List.lookup_cons, List.lookup_cons, beq_false_of_ne hnx, beq_false_of_ne hny]
  · rw [Expr.free, List.mem_singleton] at hny
    exact hbound (hny ▸ hn)

end IsLexical

end LogStream.Filter
