import LogStream.Proofs.Filter.Hereditary.Functions
import LogStream.Proofs.Filter.Visits

/-! # Evaluation and properties that values hand down

Where the literals that an evaluation visits have a hereditary property, and the integers that nothing
checks, all values on the way have it (`Hereditary.gives_visited`): an expression makes its value of those
that it asks for. -/

namespace LogStream.Filter

open Eval (Gives)

namespace Hereditary

variable (p : Hereditary)

/-- The values of all variables have the property. -/
def HoldsIn (env : Activation) : Prop := ∀ name v, env.lookup name = some v → p.holds v

/-- A literal has the property, and a call whose integers nothing checks keeps it. -/
structure KeptAt (env : Activation) (e : Expr) : Prop where
  literal : ∀ {pos c}, e = .literal pos c → p.holds c.value
  call : ∀ {f es args n}, e.call? = some (f, es) → evalAll env es = .ok args → p.AllHold args →
    f.isUnchecked = true → f.apply args = .ok (.int n) → p.holds (.int n)

/-- The property is kept by all that the evaluation visits. -/
def KeptBy (env : Activation) (e : Expr) : Prop := ∀ env' e', Visits env e env' e' → p.KeptAt env' e'

variable {p} {env env' : Activation} {e e' : Expr}

theorem HoldsIn.bind (h : p.HoldsIn env) {v : Dyn} (hv : p.holds v) (var : Text) :
    p.HoldsIn ((var, v) :: env) := by
  intro name w hw
  rw [List.lookup_cons] at hw
  split at hw
  · cases hw
    exact hv
  · exact h name w hw

theorem KeptBy.at (h : p.KeptBy env e) : p.KeptAt env e := h env e .self

theorem KeptBy.of_asks (h : p.KeptBy env e) (hasks : Asks env e env' e') : p.KeptBy env' e' :=
  fun env'' e'' hvisits => h env'' e'' (.of_asks hasks hvisits)

/-! ### Entries, walks and calls -/

/-- An entry with a new key is put behind the others. -/
theorem gives_addEntry {done : List (Dyn × Dyn)} {key : Dyn} {content : Eval Dyn}
    (hdone : p.holds (.map done)) (hkey : p.holds key)
    (hcontent : key.isHashable = true → ¬ (Dyn.binding? key done).isSome → Gives p.holds content) :
    Gives (fun es => p.holds (.map es)) (addEntry done key content) := by
  unfold addEntry
  refine Eval.gives_ite.mpr ⟨fun _ => by simp, fun hhash => ?_⟩
  refine Eval.gives_ite.mpr ⟨fun _ => by simp, fun hnew => ?_⟩
  refine Eval.gives_bind.mpr fun v hv => Eval.gives_pure.mpr ?_
  exact p.holds_snoc hdone hnew hkey (hcontent (by simpa using hhash) hnew v hv)

theorem gives_called {function : Text} {x : Eval Dyn} (h : Gives p.holds x) :
    Gives p.holds (called function x) := by
  unfold called
  split
  · simp
  · exact h

/-- A logical operator gives a truth value. -/
theorem gives_logical (op : BinaryOp) (left : Eval Dyn) (right : Unit → Eval Dyn) :
    Gives p.holds (logical op left right) := by
  unfold logical
  dsimp only
  split <;> simp

theorem gives_iterated {v : Dyn} (h : p.holds v) : Gives p.AllHold (iterated v) := by
  cases v with
  | list xs => exact Eval.gives_ok.mpr (p.holds_list_iff.mp h)
  | map es => exact Eval.gives_ok.mpr (allHold_map_iff.mpr fun e he => (p.holds_entry h e he).1)
  | _ => simp [iterated]

section Walks

variable {body : Dyn → Eval Dyn} {items : List Dyn}

/-- What a body gives for the items, one after the other. -/
theorem gives_keyed (hbody : ∀ before x after, items = before ++ x :: after →
    (∀ y ∈ before, Walk.map.goesPast (body y)) → Gives p.holds (body x)) :
    Gives (fun r => ∀ a ∈ r, p.holds a.1) (keyed body items) := by
  induction items with
  | nil => simp [keyed]
  | cons x xs ih =>
    refine Eval.gives_bind.mpr fun k hk => Eval.gives_bind.mpr fun r hr => Eval.gives_pure.mpr ?_
    refine List.forall_mem_cons.mpr ⟨hbody [] x xs rfl (List.forall_mem_nil _) k hk, ih ?_ r hr⟩
    rintro before y after rfl hpast
    exact hbody (x :: before) y after rfl (List.forall_mem_cons.mpr ⟨⟨k, hk⟩, hpast⟩)

theorem gives_keyed_items (hitems : p.AllHold items) :
    Gives (fun r => ∀ a ∈ r, p.holds a.2) (keyed body items) := by
  induction items with
  | nil => simp [keyed]
  | cons x xs ih =>
    obtain ⟨hx, hxs⟩ := List.forall_mem_cons.mp hitems
    refine Eval.gives_bind.mpr fun k _ => Eval.gives_bind.mpr fun r hr => Eval.gives_pure.mpr ?_
    exact List.forall_mem_cons.mpr ⟨hx, ih hxs r hr⟩

theorem gives_filtered (name : String) (hitems : p.AllHold items) :
    Gives p.AllHold (filtered name body items) := by
  induction items with
  | nil => exact Eval.gives_ok.mpr hitems
  | cons x xs ih =>
    obtain ⟨hx, hxs⟩ := List.forall_mem_cons.mp hitems
    refine Eval.gives_bind.mpr fun _ _ => Eval.gives_bind.mpr fun b _ =>
      Eval.gives_bind.mpr fun r hr => Eval.gives_pure.mpr ?_
    split
    · exact List.forall_mem_cons.mpr ⟨hx, ih hxs r hr⟩
    · exact ih hxs r hr

/-- A walk gives what its body does, some of the items, or a truth value. -/
theorem gives_walk (kind : Walk) (hbody : ∀ before x after, items = before ++ x :: after →
    (∀ y ∈ before, kind.goesPast (body y)) → Gives p.holds (body x)) (hitems : p.AllHold items) :
    Gives p.holds (walk kind body items) := by
  cases kind with
  | map =>
    refine Eval.gives_bind.mpr fun r hr => Eval.gives_pure.mpr (p.holds_list_iff.mpr ?_)
    exact allHold_map_iff.mpr fun a ha => gives_keyed hbody r hr a ha
  | sortBy =>
    refine Eval.gives_bind.mpr fun r hr => Eval.gives_bind.mpr fun ys hys => ?_
    refine Eval.gives_pure.mpr (p.holds_list_iff.mpr ?_)
    exact gives_sortBy (fun a ha => gives_keyed_items hitems r hr a ha) _ ys hys
  | filter =>
    exact Eval.gives_bind.mpr fun ys hys => Eval.gives_pure.mpr
      (p.holds_list_iff.mpr (gives_filtered _ hitems ys hys))
  | _ => simp [walk]

end Walks

/-! ### Expressions -/

/-- A call gives a value with the property for arguments with it. -/
theorem gives_applyNamed {function? : Option Builtin} {es : List Expr} {args : List Dyn}
    (hcall : ∀ f, function? = some f → e.call? = some (f, es)) (hkept : p.KeptAt env e)
    (hargs : evalAll env es = .ok args) (h : p.AllHold args) :
    Gives p.holds (applyNamed function? args) := by
  cases function? with
  | none => exact Eval.gives_stop _
  | some f => exact gives_apply f h fun hf n hn => hkept.call (hcall f rfl) hargs h hf hn

mutual

/-- **An expression gives a value with the property where its variables have it**, if all that is visited
keeps it. -/
theorem gives_eval : ∀ (e : Expr) {env : Activation}, p.KeptBy env e → p.HoldsIn env →
    Gives p.holds (eval env e)
  | .literal _ c, env, hkept, h => by
    rw [eval]
    exact Eval.gives_ok.mpr (hkept.at.literal rfl)
  | .ident _ name, env, hkept, h => by
    rw [eval]
    exact Eval.gives_elim.mpr ⟨fun _ => by simp, fun v hv => Eval.gives_ok.mpr (h name v hv)⟩
  | .select _ operand field lenient, env, hkept, h => by
    rw [eval]
    refine Eval.gives_bind.mpr fun v hv => ?_
    have hholds := gives_eval operand (hkept.of_asks (.select ..)) h v hv
    split
    · exact gives_selectLenient hholds field
    · exact gives_select hholds field
  | .index _ operand key lenient, env, hkept, h => by
    rw [eval]
    refine Eval.gives_bind.mpr fun v hv => Eval.gives_bind.mpr fun k _ => ?_
    have hholds := gives_eval operand (hkept.of_asks (.indexed ..)) h v hv
    split
    · exact gives_indexLenient hholds k
    · exact gives_index hholds k
  | .call _ f args, env, hkept, h => by
    rw [eval]
    refine gives_called (Eval.gives_bind.mpr fun vs hvs => ?_)
    have hall := gives_evalAll args (fun before d after hes hbefore =>
      hkept.of_asks (hes ▸ .arg hbefore ..)) h vs hvs
    exact gives_applyNamed (fun g hg => by rw [Expr.call?, hg]; rfl) hkept.at hvs hall
  | .method _ f receiver args, env, hkept, h => by
    rw [eval]
    refine gives_called (Eval.gives_bind.mpr fun v hv => Eval.gives_bind.mpr fun vs hvs => ?_)
    have hall := gives_evalAll args (fun before d after hes hbefore =>
      hkept.of_asks (hes ▸ .methodArg ⟨v, hv⟩ hbefore ..)) h vs hvs
    have hholds := gives_eval receiver (hkept.of_asks (.receiver ..)) h v hv
    have hargs : evalAll env (receiver :: args) = .ok (v :: vs) := by
      rw [evalAll, hv, ok_bind, hvs]
      rfl
    exact gives_applyNamed (fun g hg => by rw [Expr.call?, hg]; rfl) hkept.at hargs
      (List.forall_mem_cons.mpr ⟨hholds, hall⟩)
  | .list _ elements, env, hkept, h => by
    rw [eval]
    refine Eval.gives_bind.mpr fun vs hvs => Eval.gives_pure.mpr (p.holds_list_iff.mpr ?_)
    exact gives_evalAll elements (fun before d after hes hbefore =>
      hkept.of_asks (hes ▸ .element hbefore ..)) h vs hvs
  | .map _ entries, env, hkept, h => by
    rw [eval]
    refine Eval.gives_bind.mpr fun es hes => Eval.gives_pure.mpr ?_
    exact gives_evalEntries entries
      (fun hentries hbefore => hkept.of_asks (hentries ▸ .entryKey hbefore ..))
      (fun hentries hbefore hkey hhash hnew =>
        hkept.of_asks (hentries ▸ .entryContent hbefore hkey hhash hnew ..)) h p.holds_nil es hes
  | .unary _ op operand, env, hkept, h => by
    cases op <;> simp [eval]
  | .binary _ op left right, env, hkept, h => by
    cases hop : op with
    | or => exact gives_logical .or (eval env left) fun _ => eval env right
    | and => exact gives_logical .and (eval env left) fun _ => eval env right
    | mem => simp [eval]
    | _ =>
      subst hop
      refine Eval.gives_bind.mpr fun v hv => Eval.gives_bind.mpr fun w hw => ?_
      refine gives_operate (gives_eval left (hkept.of_asks (.left (by decide) ..)) h v hv) ?_ _
      exact gives_eval right (hkept.of_asks (.right (by decide) ⟨v, hv⟩ ..)) h w hw
  | .conditional _ condition yes no, env, hkept, h => by
    rw [eval]
    refine Eval.gives_bind.mpr fun c hc => Eval.gives_bind.mpr fun b hb => ?_
    have hcondition : eval env condition = .ok (.bool b) := by
      rw [hc]
      cases c <;> cases hb
      rfl
    cases b with
    | true => exact gives_eval yes (hkept.of_asks (.yes hcondition ..)) h
    | false => exact gives_eval no (hkept.of_asks (.no hcondition ..)) h
  | .has _ _ operand field, env, hkept, h => by
    simp [eval]
  | .walk _ kind range var body, env, hkept, h => by
    rw [eval]
    refine Eval.gives_bind.mpr fun v hv => Eval.gives_bind.mpr fun items hitems => ?_
    -- The variable of the walk has the items as its values, which are parts of the range.
    have hholds := gives_eval range (hkept.of_asks (.range ..)) h v hv
    have hall := gives_iterated hholds items hitems
    refine gives_walk kind (fun before x after hsplit hpast => ?_) hall
    refine gives_eval body (hkept.of_asks (.body hv (hsplit ▸ hitems) hpast _)) (h.bind ?_ var)
    exact hall x (hsplit ▸ List.mem_append_right before List.mem_cons_self)
  | .bind _ var init body, env, hkept, h => by
    rw [eval]
    refine Eval.gives_bind.mpr fun v hv => ?_
    have hholds := gives_eval init (hkept.of_asks (.init ..)) h v hv
    exact gives_eval body (hkept.of_asks (.bound hv ..)) (h.bind hholds var)
termination_by structural e => e

theorem gives_evalAll : ∀ (es : List Expr) {env : Activation},
    (∀ before e after, es = before ++ e :: after → (∀ d ∈ before, HasValue env d) → p.KeptBy env e) →
      p.HoldsIn env → Gives p.AllHold (evalAll env es)
  | [], env, hkept, h => Eval.gives_ok.mpr (List.forall_mem_nil _)
  | e :: es, env, hkept, h => by
    rw [evalAll]
    refine Eval.gives_bind.mpr fun v hv => Eval.gives_bind.mpr fun vs hvs => Eval.gives_pure.mpr ?_
    refine List.forall_mem_cons.mpr ⟨gives_eval e (hkept [] e es rfl (List.forall_mem_nil _)) h v hv, ?_⟩
    refine gives_evalAll es (fun before d after hes hbefore => ?_) h vs hvs
    exact hkept (e :: before) d after (by rw [hes]; rfl) (List.forall_mem_cons.mpr ⟨⟨v, hv⟩, hbefore⟩)
termination_by structural es => es

theorem gives_evalEntries : ∀ (es : List (Expr × Expr)) {env : Activation} {done : List (Dyn × Dyn)},
    (∀ {before key content after done'}, es = before ++ (key, content) :: after →
      evalEntries env done before = .ok done' → p.KeptBy env key) →
    (∀ {before key content after done' k}, es = before ++ (key, content) :: after →
      evalEntries env done before = .ok done' → eval env key = .ok k → k.isHashable = true →
      ¬ (Dyn.binding? k done').isSome → p.KeptBy env content) →
    p.HoldsIn env → p.holds (.map done) →
    Gives (fun es => p.holds (.map es)) (evalEntries env done es)
  | [], env, done, hkeys, hcontents, h, hdone => by
    rw [evalEntries]
    exact Eval.gives_ok.mpr hdone
  | (key, content) :: es, env, done, hkeys, hcontents, h, hdone => by
    rw [evalEntries]
    refine Eval.gives_bind.mpr fun k hk => Eval.gives_bind.mpr fun done' hdone' => ?_
    have hkey := gives_eval key (@hkeys [] key content es done rfl rfl) h k hk
    have hcontent (hhash : k.isHashable = true) (hnew : ¬ (Dyn.binding? k done).isSome) :=
      gives_eval content (@hcontents [] key content es done k rfl rfl hk hhash hnew) h
    have hadded : p.holds (.map done') := gives_addEntry hdone hkey hcontent done' hdone'
    have hbefore (before : List (Expr × Expr)) : evalEntries env done ((key, content) :: before) =
        evalEntries env done' before := by
      rw [evalEntries, hk, ok_bind, hdone', ok_bind]
    refine gives_evalEntries es (fun hes hd => ?_) (fun hes hd => ?_) h hadded
    · exact hkeys (congrArg ((key, content) :: ·) hes) ((hbefore _).trans hd)
    · exact hcontents (congrArg ((key, content) :: ·) hes) ((hbefore _).trans hd)
termination_by structural es => es

end

/-! ### What is visited -/

theorem HoldsIn.of_asks (hkept : p.KeptBy env e) (h : p.HoldsIn env) (hasks : Asks env e env' e') :
    p.HoldsIn env' := by
  cases hasks with
  | body hv hitems _ _ =>
    have hholds := gives_eval _ (hkept.of_asks (.range ..)) h _ hv
    have hall := gives_iterated hholds _ hitems
    exact h.bind (hall _ (List.mem_append_right _ List.mem_cons_self)) _
  | bound hv => exact h.bind (gives_eval _ (hkept.of_asks (.init ..)) h _ hv) _
  | _ => exact h

/-- **All variables and values on the way have the property.** -/
theorem gives_visited (hkept : p.KeptBy env e) (h : p.HoldsIn env) (hvisits : Visits env e env' e') :
    p.HoldsIn env' ∧ Gives p.holds (eval env' e') := by
  have hreached : p.HoldsIn env' ∧ p.KeptBy env' e' := by
    induction hvisits with
    | self => exact ⟨h, hkept⟩
    | step _ hasks ih => exact ⟨ih.1.of_asks ih.2 hasks, ih.2.of_asks hasks⟩
  exact ⟨hreached.1, gives_eval e' hreached.2 hreached.1⟩

end Hereditary

end LogStream.Filter
