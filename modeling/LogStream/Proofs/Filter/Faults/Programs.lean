import Mathlib
import LogStream.Proofs.Filter.Faults.Functions
import LogStream.Proofs.Filter.Parts
import LogStream.Proofs.Filter.Visits
import LogStream.Proofs.Reader.Contents
import LogStream.Proofs.Reader.Failures
import LogStream.Proofs.Wire.Image
import LogStream.Reader.Select

/-! # Faults that get through a program

An evaluation fails ordinarily, or an open name of the expression has no value, or a call in it has
arguments for whose values the function overreaches (`failsOnly_eval`): operators and walks leak
nothing of their own (`leaksOnly_eval`). A record that was decoded gives values to all variables, so a
program gives a truth value or an error on it, or a call overreaches (`selects_contained`). The last
may happen (`not_contained_of_zoneOfList`). -/

namespace LogStream.Filter

/-! ### Calls -/

/-- The expression is a call whose function overreaches for the values of its arguments. -/
def Expr.Overreaches (env : Activation) (e : Expr) (x : Fault) : Prop :=
  ∃ f es args, e.call? = some (f, es) ∧ evalAll env es = .ok args ∧ f.Overreaches args x

open Eval (FailsOnly LeaksOnly)

variable {leaked : Fault → Prop} {env : Activation}

/-- Whatever the expressions overreach for is among the given faults, with any names in front of the
variables. -/
def Admits (leaked : Fault → Prop) (env : Activation) (nodes : List Expr) : Prop :=
  ∀ e ∈ nodes, ∀ (names : Activation) (x : Fault), e.Overreaches (names ++ env) x → leaked x

theorem Admits.bind {nodes : List Expr} (h : Admits leaked env nodes) (binding : Text × Dyn) :
    Admits leaked (binding :: env) nodes := by
  intro e he names x hx
  refine h e he (names ++ [binding]) x ?_
  rwa [List.append_assoc, List.singleton_append]

theorem admits_cons {e : Expr} {nodes : List Expr} : Admits leaked env (e :: nodes) ↔
    (∀ names x, e.Overreaches (names ++ env) x → leaked x) ∧ Admits leaked env nodes :=
  List.forall_mem_cons

theorem admits_append {xs ys : List Expr} :
    Admits leaked env (xs ++ ys) ↔ Admits leaked env xs ∧ Admits leaked env ys :=
  List.forall_mem_append

/-! ### Walks, calls and logical operators -/

section

variable {allowed : EvalFailure → Prop}

theorem failsOnly_keyed {body : Dyn → Eval Dyn} (hbody : ∀ x, FailsOnly allowed (body x))
    (items : List Dyn) : FailsOnly allowed (keyed body items) := by
  induction items with
  | nil => simp [keyed]
  | cons x xs ih => simp [keyed, hbody x, ih]

variable [Tolerant allowed]

@[simp] theorem failsOnly_called {function : Text} {x : Eval Dyn} (h : FailsOnly allowed x) :
    FailsOnly allowed (called function x) := by
  unfold called
  split
  · simp
  · exact h

theorem failsOnly_logical {op : BinaryOp} {left right : Eval Dyn} (hl : FailsOnly allowed left)
    (hr : FailsOnly allowed right) : FailsOnly allowed (logical op left fun _ => right) := by
  have hfirst : FailsOnly allowed (left >>= Dyn.truth s!"_{op.symbol}_") := by simp [hl]
  unfold logical
  dsimp only
  split
  · next f hf => exact Eval.failsOnly_error_iff.mpr (hfirst _ hf)
  · next e he =>
    have hfail : FailsOnly allowed (Eval.fail e : Eval Dyn) :=
      Eval.failsOnly_error_iff.mpr (hfirst _ he)
    simp [hr, hfail]
  · simp [hr]

@[simp] theorem failsOnly_iterated (v : Dyn) : FailsOnly allowed (iterated v) := by
  cases v <;> simp [iterated]

section Walks

variable {body : Dyn → Eval Dyn} (hbody : ∀ x, FailsOnly allowed (body x))

include hbody

theorem failsOnly_filtered (name : String) (items : List Dyn) :
    FailsOnly allowed (filtered name body items) := by
  induction items with
  | nil => simp [filtered]
  | cons x xs ih => simp [filtered, hbody x, ih]

theorem failsOnly_reaches (name : String) (sought : Bool) (items : List Dyn) :
    FailsOnly allowed (reaches name sought body items) := by
  induction items with
  | nil => simp [reaches]
  | cons x xs ih => simp [reaches, hbody x, ih]

theorem failsOnly_walk (kind : Walk) (items : List Dyn) :
    FailsOnly allowed (walk kind body items) := by
  have hkeyed := failsOnly_keyed hbody items
  have hfiltered := fun name => failsOnly_filtered hbody name items
  have hreaches := fun name sought => failsOnly_reaches hbody name sought items
  cases kind <;> simp [walk, hkeyed, hfiltered, hreaches]

end Walks

theorem failsOnly_addEntry (entries : List (Dyn × Dyn)) (key : Dyn) {content : Eval Dyn}
    (hcontent : FailsOnly allowed content) :
    FailsOnly allowed (addEntry entries key content) := by
  simp [addEntry, hcontent]

/-- A call fails as its arguments do, ordinarily, or because its function overreaches. -/
theorem failsOnly_applyNamed {function? : Option Builtin} {args : List Dyn}
    (h : ∀ f x, function? = some f → f.Overreaches args x → allowed (.fault x)) :
    FailsOnly allowed (applyNamed function? args) := by
  cases function? with
  | none => exact Eval.failsOnly_stop rfl
  | some f =>
    refine (f.failsOnly_apply args).mono fun x hx => ?_
    rcases hx with hx | ⟨y, rfl, hy⟩
    · exact Tolerant.of_isOrdinary hx
    · exact h f y rfl hy

end

/-! ### Expressions -/

/-- The open names have values, or it is allowed to miss them. -/
def Names (allowed : EvalFailure → Prop) (env : Activation) (names : List Text) : Prop :=
  ∀ n ∈ names, env.lookup n = none → allowed (.error (.noSuchAttribute n))

section

variable {allowed : EvalFailure → Prop} {env : Activation}

theorem names_append {xs ys : List Text} :
    Names allowed env (xs ++ ys) ↔ Names allowed env xs ∧ Names allowed env ys :=
  List.forall_mem_append

theorem Names.bind {names : List Text} {var : Text} (h : Names allowed env (names.filter (· ≠ var)))
    (v : Dyn) : Names allowed ((var, v) :: env) names := by
  intro n hn hnone
  by_cases hvar : n = var
  · subst hvar
    rw [List.lookup_cons_self] at hnone
    cases hnone
  · rw [List.lookup_cons, beq_false_of_ne hvar] at hnone
    exact h n (List.mem_filter.mpr ⟨hn, decide_eq_true hvar⟩) hnone

variable [Tolerant allowed]

set_option linter.unusedSectionVars false in
mutual

/-- **An evaluation fails ordinarily**, or an open name has no value, or a call in the expression
overreaches. -/
theorem failsOnly_eval : ∀ (e : Expr) {env : Activation}, Names allowed env e.free →
    Admits (fun x => allowed (.fault x)) env e.nodes → FailsOnly allowed (eval env e)
  | .literal _ _, _, _, _ => by simp [eval]
  | .ident _ name, env, hn, _ => by
    unfold eval
    cases h : env.lookup name with
    | some v => simp
    | none => exact Eval.failsOnly_error_iff.mpr (hn name (List.mem_singleton_self name) h)
  | .select _ operand _ _, _, hn, h => by
    simp [eval, failsOnly_eval operand hn (admits_cons.mp h).2]
  | .index _ operand key _, _, hn, h => by
    obtain ⟨hno, hnk⟩ := names_append.mp hn
    obtain ⟨hoperand, hkey⟩ := admits_append.mp (admits_cons.mp h).2
    simp [eval, failsOnly_eval operand hno hoperand, failsOnly_eval key hnk hkey]
  | .call pos f args, env, hn, h => by
    obtain ⟨hself, hargs⟩ := admits_cons.mp h
    unfold eval
    refine failsOnly_called (Eval.failsOnly_bind.mpr ⟨failsOnly_evalAll args hn hargs, ?_⟩)
    intro vs hvs
    refine failsOnly_applyNamed fun g x hg hx => hself [] x ⟨g, args, vs, ?_, hvs, hx⟩
    rw [Expr.call?, hg]
    rfl
  | .method pos f receiver args, env, hn, h => by
    obtain ⟨hnr, hna⟩ := names_append.mp hn
    obtain ⟨hself, h⟩ := admits_cons.mp h
    obtain ⟨hreceiver, hargs⟩ := admits_append.mp h
    unfold eval
    refine failsOnly_called (Eval.failsOnly_bind.mpr ⟨failsOnly_eval receiver hnr hreceiver, ?_⟩)
    intro v hv
    refine Eval.failsOnly_bind.mpr ⟨failsOnly_evalAll args hna hargs, fun vs hvs => ?_⟩
    refine failsOnly_applyNamed fun g x hg hx =>
      hself [] x ⟨g, receiver :: args, v :: vs, ?_, ?_, hx⟩
    · rw [Expr.call?, hg]
      rfl
    · rw [List.nil_append, evalAll, hv, ok_bind, hvs, ok_bind]
      rfl
  | .list _ elements, _, hn, h => by
    simp [eval, failsOnly_evalAll elements hn (admits_cons.mp h).2]
  | .map _ entries, _, hn, h => by
    simp [eval, failsOnly_evalEntries entries hn (admits_cons.mp h).2]
  | .unary _ op operand, _, hn, h => by
    cases op <;> simp [eval, failsOnly_eval operand hn (admits_cons.mp h).2]
  | .binary _ op left right, _, hn, h => by
    obtain ⟨hnl, hnr⟩ := names_append.mp hn
    obtain ⟨hleft, hright⟩ := admits_append.mp (admits_cons.mp h).2
    have hl := failsOnly_eval left hnl hleft
    have hr := failsOnly_eval right hnr hright
    cases op <;> simp [eval, hl, hr, failsOnly_logical hl hr]
  | .conditional _ condition yes no, _, hn, h => by
    obtain ⟨hnc, hn⟩ := names_append.mp hn
    obtain ⟨hny, hnn⟩ := names_append.mp hn
    obtain ⟨hcondition, h⟩ := admits_append.mp (admits_cons.mp h).2
    obtain ⟨hyes, hno⟩ := admits_append.mp h
    simp [eval, failsOnly_eval condition hnc hcondition, failsOnly_eval yes hny hyes,
      failsOnly_eval no hnn hno]
  | .has _ _ operand _, _, hn, h => by
    simp [eval, failsOnly_eval operand hn (admits_cons.mp h).2]
  | .walk _ kind range var body, _, hn, h => by
    obtain ⟨hnr, hnb⟩ := names_append.mp hn
    obtain ⟨hrange, hbody⟩ := admits_append.mp (admits_cons.mp h).2
    have hb := fun x => failsOnly_eval body (hnb.bind x) (hbody.bind (var, x))
    simp [eval, failsOnly_eval range hnr hrange, failsOnly_walk hb]
  | .bind _ var init body, _, hn, h => by
    obtain ⟨hni, hnb⟩ := names_append.mp hn
    obtain ⟨hinit, hbody⟩ := admits_append.mp (admits_cons.mp h).2
    have hb := fun v => failsOnly_eval body (hnb.bind v) (hbody.bind (var, v))
    simp [eval, failsOnly_eval init hni hinit, hb]
termination_by structural e => e

theorem failsOnly_evalAll : ∀ (es : List Expr) {env : Activation},
    Names allowed env (Expr.freeAll es) →
    Admits (fun x => allowed (.fault x)) env (Expr.nodesAll es) →
    FailsOnly allowed (evalAll env es)
  | [], _, _, _ => by simp [evalAll]
  | e :: es, _, hn, h => by
    obtain ⟨hne, hnes⟩ := names_append.mp hn
    obtain ⟨he, hes⟩ := admits_append.mp h
    simp [evalAll, failsOnly_eval e hne he, failsOnly_evalAll es hnes hes]
termination_by structural es => es

theorem failsOnly_evalEntries : ∀ (es : List (Expr × Expr)) {env : Activation}
    {done : List (Dyn × Dyn)}, Names allowed env (Expr.freeEntries es) →
    Admits (fun x => allowed (.fault x)) env (Expr.nodesEntries es) →
    FailsOnly allowed (evalEntries env done es)
  | [], _, _, _, _ => by simp [evalEntries]
  | (key, content) :: es, _, _, hn, h => by
    obtain ⟨hnk, hn⟩ := names_append.mp hn
    obtain ⟨hnc, hnes⟩ := names_append.mp hn
    obtain ⟨hkey, h⟩ := admits_append.mp h
    obtain ⟨hcontent, hes⟩ := admits_append.mp h
    have hc := failsOnly_eval content hnc hcontent
    simp [evalEntries, failsOnly_eval key hnk hkey, failsOnly_addEntry _ _ hc,
      failsOnly_evalEntries es hnes hes]
termination_by structural es => es

end

end

/-- The failure is an error or a fault that may be leaked. -/
def EvalFailure.Leaks (leaked : Fault → Prop) : EvalFailure → Prop
  | .error _ => True
  | .fault x => escapes x = true → leaked x

instance (leaked : Fault → Prop) : Tolerant (EvalFailure.Leaks leaked) where
  of_isOrdinary {f} hf := by
    cases f with
    | error e => trivial
    | fault x => exact fun he => absurd (he.symm.trans hf) nofun

/-- **What an evaluation leaks, a call in the expression overreaches for.** -/
theorem leaksOnly_eval (e : Expr) {env : Activation} (h : Admits leaked env e.nodes) :
    LeaksOnly leaked (eval env e) := by
  have hfails : FailsOnly (EvalFailure.Leaks leaked) (eval env e) :=
    failsOnly_eval e (fun _ _ _ => trivial) fun m hm names x hx _ => h m hm names x hx
  exact fun x hx => hfails _ hx

/-! ### Programs -/

/-- Some call in a program overreaches, where names for values stand in front of the variables. -/
def Program.Overreaches (p : Program) (env : Activation) (x : Fault) : Prop :=
  ∃ e ∈ p.tree.nodes, ∃ names : Activation, e.Overreaches (names ++ env) x

/-- **A program gives a truth value or tells why it does not**, unless a call in it overreaches. -/
theorem evaluate_cases (p : Program) (env : Activation) :
    (∃ b, p.evaluate env = .ok b) ∨ (∃ e, p.evaluate env = .error (.eval e)) ∨
      ∃ x, p.evaluate env = .error (.fault x) ∧ p.Overreaches env x := by
  have hleaks : LeaksOnly (p.Overreaches env) (eval env p.tree) :=
    leaksOnly_eval p.tree fun e he names x hx => ⟨e, he, names, hx⟩
  unfold Program.evaluate
  split
  · exact Or.inl ⟨_, rfl⟩
  · exact Or.inr (Or.inl ⟨_, rfl⟩)
  · exact Or.inr (Or.inl ⟨_, rfl⟩)
  · next x hx =>
    by_cases he : escapes x = true
    · exact Or.inr (Or.inr ⟨x, by rw [if_pos he], hleaks x hx he⟩)
    · exact Or.inr (Or.inl ⟨_, by rw [if_neg he]⟩)

/-! ### Records -/

/-- A value that was decoded is a value of an expression. -/
theorem exists_ofValue {v : Value} (h : v.IsDecoded) : ∃ d, ofValue v = .ok d := by
  induction h with
  | @group as _ _ _ ih =>
    have hmembers : ∀ {ms : List Attr}, (∀ a ∈ ms, ∃ d, ofValue a.2 = .ok d) →
        ∃ ds, ofMembers ms = .ok ds := by
      intro ms hms
      induction ms with
      | nil => exact ⟨[], rfl⟩
      | cons m ms ihms =>
        obtain ⟨⟨d, hd⟩, hrest⟩ := List.forall_mem_cons.mp hms
        obtain ⟨ds, hds⟩ := ihms hrest
        exact ⟨(m.1, d) :: ds, by rw [ofMembers, hd, ok_bind, hds]; rfl⟩
    obtain ⟨ds, hds⟩ := hmembers ih
    exact ⟨textMap ds, by rw [ofValue, hds]; rfl⟩
  | _ => exact ⟨_, rfl⟩

/-- **A record that was decoded gives values to all variables.** -/
theorem exists_activation {r : Record} (h : r.IsDecoded) : ∃ env, activation r = .ok env := by
  obtain ⟨l, hl⟩ := h.level
  obtain ⟨d, hd⟩ := exists_ofValue h.attrs
  obtain ⟨attrs, hattrs, -⟩ := exists_of_bind_eq_ok hd
  unfold activation
  rw [hl, hattrs]
  exact ⟨_, rfl⟩

/-- A program ends in a fault on a record only where a call in it overreaches. -/
def Program.Escapes (p : Program) (r : Record) (x : Fault) : Prop :=
  ∃ env, activation r = .ok env ∧ p.Overreaches env x

theorem selects_cases (p : Program) {r : Record} (h : r.IsDecoded) :
    (∃ b, Program.selects (some p) r = .ok b) ∨
      (∃ e, Program.selects (some p) r = .error (.eval e)) ∨
      ∃ x, Program.selects (some p) r = .error (.fault x) ∧ p.Escapes r x := by
  obtain ⟨env, henv⟩ := exists_activation h
  have hs : Program.selects (some p) r = p.evaluate env := by
    unfold Program.selects
    rw [henv]
  rw [hs]
  rcases evaluate_cases p env with hb | he | ⟨x, hx, ho⟩
  · exact Or.inl hb
  · exact Or.inr (Or.inl he)
  · exact Or.inr (Or.inr ⟨x, hx, env, henv, ho⟩)

theorem Reply.behindFilter_ne_select {ε : Type} (r : Reply ε) (s : SelectError) :
    r.behindFilter ≠ .fail (.select s) := by
  cases r <;> nofun

/-- A client that passes over the records on which the program has an error fails on a record only
where the program escapes. -/
theorem select_skip_cases {σ ε : Type} (c : Client σ ε) (p : Program) {r : Record}
    (h : r.IsDecoded) {st : σ} {s : SelectError}
    (hs : ((c.select (some p) .skip).take st r).1 = .fail (.select s)) :
    ∃ x, s = .fault x ∧ p.Escapes r x := by
  unfold Client.select at hs
  dsimp only at hs
  rcases selects_cases p h with ⟨b, hb⟩ | ⟨e, he⟩ | ⟨x, hx, ho⟩
  · rw [hb] at hs
    cases b with
    | true => exact absurd hs (Reply.behindFilter_ne_select (c.take st r).1 s)
    | false => cases hs
  · rw [he] at hs; cases hs
  · rw [hx] at hs
    cases hs
    exact ⟨x, rfl, ho⟩

/-- **Failures are contained.** On every record that was decoded, a program gives a truth value or
an error of the language, unless a call in it overreaches for the values of its arguments: then it
ends in the fault of this call. So a reading through a filter that passes over records with errors
is not ended by the filter, unless on some record that was decoded a call overreaches. -/
theorem selects_contained (p : Program) :
    (∀ bs r, Record.decode bs = .ok r →
      (∃ b, Program.selects (some p) r = .ok b) ∨
      (∃ e, Program.selects (some p) r = .error (.eval e)) ∨
      ∃ x, Program.selects (some p) r = .error (.fault x) ∧ p.Escapes r x) ∧
    ∀ {σ ε : Type} (c : Client σ ε) (st : σ) (size : Nat) (limit : Int) (chunks : List Bytes)
      (s : SelectError),
      (readChunks (c.select (some p) .skip) st size limit chunks).failure =
        some (.client (.select s)) →
      ∃ bs r x, Record.decode bs = .ok r ∧ s = .fault x ∧ p.Escapes r x := by
  refine ⟨fun bs r hr => selects_cases p (Record.isDecoded_of_decode hr), ?_⟩
  intro σ ε c st size limit chunks s hs
  obtain ⟨bs, r, st', hr, ht⟩ := fails_of_readPieces _ _ _ hs
  obtain ⟨x, hx, he⟩ := select_skip_cases c p (Record.isDecoded_of_decode hr) ht
  exact ⟨bs, r, x, hr, hx, he⟩

/-! ### A zone that is no text -/

/-- The hour in a zone that is a list: it begins as the name of an offset does. -/
def zoneOfList : Text := Text.lit "time.getHours(dyn(['+', ':'])) == 0"

theorem decode_nil : Record.decode [] = .ok {} := by cbv

theorem exists_compile_zoneOfList : ∃ p, Program.compile zoneOfList = .ok p ∧
    Program.selects (some p) {} = .error (.fault .noAttribute) := by
  have h : (Program.compile zoneOfList).toOption.any (fun p =>
      decide (Program.selects (some p) {} = .error (.fault .noAttribute))) = true := by
    decide +kernel
  obtain ⟨p, hp, hselects⟩ := exists_of_any_toOption h
  exact ⟨p, hp, of_decide_eq_true hselects⟩

/-- A fault on a record without content ends a reading that passes over records with errors. -/
theorem failure_readChunks_blank {p : Program} {x : Fault}
    (h : Program.selects (some p) {} = .error (.fault x)) :
    (readChunks (Client.keeper.select (some p) .skip) [] 4 0 [[0, 0, 0, 0]]).failure =
      some (.client (.select (.fault x))) := by
  have ht : ((Client.keeper.select (some p) .skip).take [] {}).1 = .fail (.select (.fault x)) := by
    unfold Client.select
    dsimp only
    rw [h]
  have hreceived : received (pieces 4 [[0, 0, 0, 0]]) = [0, 0, 0, 0] := by cbv
  have hnext : (Splitter.feed { limit := 0 } [0, 0, 0, 0]).next =
      .ok (some ([], { limit := 0 })) := by cbv
  exact failure_readPieces_of_first (fun _ => rfl) rfl (hreceived ▸ hnext) decode_nil ht

theorem selects_contained_zoneOfList :
    ∃ p, Program.compile zoneOfList = .ok p ∧ Record.decode [] = .ok {} ∧
      p.Escapes {} .noAttribute ∧
      ∃ bs r x, Record.decode bs = .ok r ∧ SelectError.fault .noAttribute = .fault x ∧
        p.Escapes r x := by
  obtain ⟨p, hp, h⟩ := exists_compile_zoneOfList
  obtain ⟨hselects, hread⟩ := selects_contained p
  refine ⟨p, hp, decode_nil, ?_, hread Client.keeper [] 4 0 _ _ (failure_readChunks_blank h)⟩
  rcases hselects [] {} decode_nil with ⟨b, hb⟩ | ⟨e, he⟩ | ⟨x, hx, hescapes⟩
  · rw [h] at hb; cases hb
  · rw [h] at he; cases he
  · rw [h] at hx
    cases hx
    exact hescapes

/-- A program may end in a fault on a record that was decoded, and then it ends a reading that
passes over records with errors. -/
theorem not_contained_of_zoneOfList :
    ∃ p, Program.compile zoneOfList = .ok p ∧ Record.decode [] = .ok {} ∧
      (∀ b, Program.selects (some p) {} ≠ .ok b) ∧
      (∀ e, Program.selects (some p) {} ≠ .error (.eval e)) ∧
      (readChunks (Client.keeper.select (some p) .skip) [] 4 0 [[0, 0, 0, 0]]).failure =
        some (.client (.select (.fault .noAttribute))) := by
  obtain ⟨p, hp, h⟩ := exists_compile_zoneOfList
  refine ⟨p, hp, decode_nil, fun b hb => ?_, fun e he => ?_, failure_readChunks_blank h⟩
  · rw [h] at hb; cases hb
  · rw [h] at he; cases he

end LogStream.Filter
