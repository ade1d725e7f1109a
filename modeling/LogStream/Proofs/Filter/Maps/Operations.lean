import LogStream.Proofs.Filter.Application
import LogStream.Proofs.Filter.Maps.Records

/-! # Keys in operations on maps

Membership, indexing, literals and equality each look for keys in their own way, which is stated for the
evaluation of expressions (`eval_mem`, `eval_index_iff`, `evalEntries_cases`, `eval_eq_maps`). Together they
tell keys apart as equality does, with one exception: a truth value and the number that it counts as are not
equal, but often taken for the same key (`Reaches.identifiesKeys`, `not_equals_of_trueKey`). -/

namespace LogStream.Filter

open LogStream.Filter.Dyn (HasDistinctKeys HasPlainKeys)

variable {env : Activation} {es fs : List (Dyn × Dyn)} {key : Dyn}

theorem Eval.failShowing_ne_ok {α : Type} (v : Dyn) (e : EvalError) (a : α) :
    failShowing v e ≠ .ok a := by
  unfold failShowing
  split <;> nofun

theorem Eval.failShowing_bind {α β : Type} (v : Dyn) (e : EvalError) (f : α → Eval β) :
    (failShowing v e >>= f) = failShowing v e := by
  unfold failShowing
  split <;> rfl

/-! ### Looking up -/

namespace Dyn

theorem isHashable_of_isPlainKey (h : key.isPlainKey = true) : key.isHashable = true := by
  cases key with
  | bool b => rfl
  | int n => rfl
  | double x => rfl
  | string t => rfl
  | bytes bs => rfl
  | _ => cases h

/-- A key leads to a content if it finds a key of the map. -/
theorem isSome_contentAt? (h : key.isPlainKey = true) :
    (contentAt? key es).isSome = es.any fun e => key.finds e.1 := by
  have hlookup : (lookup? key es).isSome = es.any fun e => key.countsAs e.1 := by
    unfold lookup? binding?
    rw [Option.isSome_map, List.isSome_find?]
    exact congrArg es.any (funext fun e => sameKey_eq h)
  cases key with
  | bool b =>
    -- A truth value does not go by the keys as they count, but by the truth values among them.
    unfold contentAt?
    rw [Option.isSome_map, List.isSome_find?]
    refine congrArg es.any (funext fun e => ?_)
    cases e.1 <;> rfl
  | int n => exact hlookup
  | double x => exact hlookup
  | string t => exact hlookup
  | bytes bs => exact hlookup
  | _ => cases h

theorem element?_map (h : key.isPlainKey = true) :
    (map es).element? key = .ok (contentAt? key es) := if_pos (isHashable_of_isPlainKey h)

end Dyn

section

variable {m k : Expr} (hm : eval env m = .ok (.map es)) (hk : eval env k = .ok key)

include hm hk

/-- **A value is in a map if it is equal to a key.** -/
theorem eval_mem (pos : Nat) :
    eval env (.binary pos .mem k m) = .ok (.bool (es.any fun e => key.equals e.1)) := by
  rw [eval, hm, ok_bind, hk, ok_bind, Dyn.isIn, Dyn.isAmong, List.any_map]
  rfl

/-- **A map has a value under a key that finds one of its keys.** -/
theorem eval_hasValue_index (hkey : key.isPlainKey = true) (pos pos' : Nat) :
    eval env (.method pos (Text.lit "hasValue") (.index pos' m k true) []) =
      .ok (.bool (es.any fun e => key.finds e.1)) := by
  have hindex : eval env (.index pos' m k true) = .ok (.optional (Dyn.contentAt? key es)) := by
    rw [eval, hm, ok_bind, hk, ok_bind, if_pos rfl]
    exact congrArg (Except.map Dyn.optional) (Dyn.element?_map hkey)
  have hname : Builtin.member? (Text.lit "hasValue") = some .hasValue := by decide
  rw [eval_method hname hindex evalAll_nil, ← Dyn.isSome_contentAt? hkey]
  rfl

/-- **A key leads to a value of a map if it finds one of its keys.** -/
theorem eval_index_iff (hkey : key.isPlainKey = true) (pos : Nat) :
    (∃ v, eval env (.index pos m k false) = .ok v) ↔ es.any (fun e => key.finds e.1) = true := by
  rw [eval, hm, ok_bind, hk, ok_bind, if_neg Bool.false_ne_true, Dyn.index,
    if_neg (show ¬ (Dyn.map es).isOptional = true from Bool.false_ne_true), Dyn.element?_map hkey, ok_bind,
    ← Dyn.isSome_contentAt? hkey]
  cases Dyn.contentAt? key es with
  | some w => exact iff_of_true ⟨w, rfl⟩ rfl
  | none => exact iff_of_false (fun ⟨_, hv⟩ => Eval.failShowing_ne_ok _ _ _ hv) nofun

end

/-! ### Literals -/

/-- The keys and the contents of the entries have the given values. -/
abbrev Evaluates (env : Activation) (entries : List (Expr × Expr)) (es : List (Dyn × Dyn)) : Prop :=
  List.Forall₂ (fun e f => eval env e.1 = .ok f.1 ∧ eval env e.2 = .ok f.2) entries es

/-- The entries before the given one have distinct keys, and one of them is the same as its key. -/
def RepeatsKey (earlier : List (Dyn × Dyn)) (f : Dyn × Dyn) : Prop :=
  HasDistinctKeys earlier ∧ ∃ e ∈ earlier, f.1.sameKey e.1 = true

/-- Entries are put behind those of a map one after the other, up to the first one that repeats a key. -/
theorem evalEntries_cases {entries : List (Expr × Expr)} (h : Evaluates env entries es)
    (hes : HasPlainKeys es) {done : List (Dyn × Dyn)} (hdone : HasDistinctKeys done) :
    (HasDistinctKeys (done ++ es) ∧ evalEntries env done entries = .ok (done ++ es)) ∨
    ∃ before f after, es = before ++ f :: after ∧ RepeatsKey (done ++ before) f ∧
      evalEntries env done entries = Eval.failShowing f.1 (.duplicateKey f.1.shown) := by
  -- The keys that are done stay distinct as long as no entry repeats one of them.
  induction h generalizing done with
  | nil =>
    rw [List.append_nil]
    exact .inl ⟨hdone, rfl⟩
  | @cons e f entries es hef h ih =>
    obtain ⟨hf, hes⟩ := List.forall_mem_cons.mp hes
    have hadd : evalEntries env done (e :: entries) =
        addEntry done f.1 (.ok f.2) >>= fun done => evalEntries env done entries := by
      rw [evalEntries, hef.1, ok_bind, hef.2]
    rw [hadd, addEntry, if_neg (by simp [Dyn.isHashable_of_isPlainKey hf])]
    by_cases hrepeats : ∃ e ∈ done, f.1.sameKey e.1 = true
    · refine .inr ⟨[], f, es, rfl, ⟨by simpa using hdone, by simpa using hrepeats⟩, ?_⟩
      rw [if_pos (Dyn.isSome_binding?_iff.mpr hrepeats), Eval.failShowing_bind]
    · rw [if_neg fun hsome => hrepeats (Dyn.isSome_binding?_iff.mp hsome), ok_bind]
      rcases ih hes (hdone.snoc hrepeats) with ⟨hdistinct, hok⟩ | ⟨before, g, after, rfl, hg, hfail⟩
      · rw [List.append_assoc, List.singleton_append] at hdistinct hok
        exact .inl ⟨hdistinct, hok⟩
      · rw [List.append_assoc, List.singleton_append] at hg
        exact .inr ⟨f :: before, g, after, rfl, hg, hfail⟩

/-! ### Equality -/

/-- **Maps are equal if their entries correspond to each other.** -/
theorem eval_eq_maps {a b : Expr} (henv : env.IsWellKeyed) (ha : eval env a = .ok (.map es))
    (hb : eval env b = .ok (.map fs)) (hes : HasPlainKeys es) (hfs : HasPlainKeys fs) (pos : Nat) :
    ∃ r, eval env (.binary pos .eq a b) = .ok (.bool r) ∧ (r = true ↔ Dyn.Corresponds es fs) := by
  have hdistinct := (Dyn.isWellKeyed_map_iff.mp (gives_eval a henv _ ha)).1
  have hdistinct' := (Dyn.isWellKeyed_map_iff.mp (gives_eval b henv _ hb)).1
  refine ⟨_, ?_, Dyn.equals_map_iff hdistinct hdistinct' hes hfs⟩
  rw [eval_operate (by decide) ha hb]
  rfl

/-! ### All operations -/

/-- What the operations on maps with plain keys take for the same key, for variables with given values. -/
structure IdentifiesKeys (env : Activation) : Prop where
  /-- A value is in a map if it is equal to a key; it has a content, and leads to one, if it finds a key. -/
  lookup : ∀ m k es key, eval env m = .ok (.map es) → HasPlainKeys es → eval env k = .ok key →
    key.isPlainKey = true → ∀ pos pos',
      eval env (.binary pos .mem k m) = .ok (.bool (es.any fun e => key.equals e.1)) ∧
      eval env (.method pos (Text.lit "hasValue") (.index pos' m k true) []) =
        .ok (.bool (es.any fun e => key.finds e.1)) ∧
      ((∃ v, eval env (.index pos m k false) = .ok v) ↔ es.any (fun e => key.finds e.1) = true)
  /-- A literal gives its entries if no key counts as an earlier one, and fails at the first that does. -/
  literal : ∀ pos entries es, Evaluates env entries es → HasPlainKeys es →
    (es.Pairwise (fun e f => f.1.countsAs e.1 = false) ∧ eval env (.map pos entries) = .ok (.map es)) ∨
    ∃ before f after, es = before ++ f :: after ∧
      before.Pairwise (fun e f => f.1.countsAs e.1 = false) ∧
      (∃ e ∈ before, f.1.countsAs e.1 = true) ∧
      eval env (.map pos entries) = Eval.failShowing f.1 (.duplicateKey f.1.shown)
  /-- Two maps are equal if each key counts as one of the other map, with an equal content. -/
  equality : ∀ pos a b es fs, eval env a = .ok (.map es) → eval env b = .ok (.map fs) →
    HasPlainKeys es → HasPlainKeys fs →
    ∃ r, eval env (.binary pos .eq a b) = .ok (.bool r) ∧ (r = true ↔ Dyn.Corresponds es fs)

theorem pairwise_countsAs (hes : HasPlainKeys es) :
    es.Pairwise (fun e f => f.1.countsAs e.1 = false) ↔ HasDistinctKeys es := by
  refine List.Pairwise.iff_of_mem fun {e f} _ hf => ?_
  rw [Dyn.sameKey_eq (hes f hf)]

theorem IdentifiesKeys.of_isWellKeyed (henv : env.IsWellKeyed) : IdentifiesKeys env where
  lookup m k es key hm hes hk hkey pos pos' :=
    ⟨eval_mem hm hk pos, eval_hasValue_index hm hk hkey pos pos', eval_index_iff hm hk hkey pos⟩
  literal pos entries es h hes := by
    have hliteral : eval env (.map pos entries) = (do return .map (← evalEntries env [] entries)) := rfl
    rcases evalEntries_cases h hes List.Pairwise.nil with
      ⟨hdistinct, hok⟩ | ⟨before, f, after, rfl, ⟨hdistinct, e, he, hsame⟩, hfail⟩
    · refine .inl ⟨(pairwise_countsAs hes).mpr hdistinct, ?_⟩
      rw [hliteral, hok]
      rfl
    · have hf : f.1.isPlainKey = true := hes f (by simp)
      have hbefore : HasPlainKeys before := fun e he => hes e (List.mem_append_left _ he)
      refine .inr ⟨before, f, after, rfl, (pairwise_countsAs hbefore).mpr hdistinct, ?_, ?_⟩
      · exact ⟨e, he, Dyn.sameKey_eq hf ▸ hsame⟩
      · rw [hliteral, hfail, Eval.failShowing_bind]
  equality pos a b es fs ha hb hes hfs := eval_eq_maps henv ha hb hes hfs pos

/-- **Operations on maps tell keys apart as equality does, but for truth values among numbers.** Membership
goes by equality alone. Literals and the equality of maps also take a truth value and the number that it
counts as for the same key, and so does indexing by a number, though not by a truth value. -/
theorem Reaches.identifiesKeys {r : Record} (hr : r.IsWellKeyed) (h : Reaches r env) :
    IdentifiesKeys env :=
  .of_isWellKeyed (h.isWellKeyed hr)

/-- A map with a truth value as its key. -/
def trueKey : Dyn := .map [(.bool true, .string (Text.lit "x"))]

/-- The number one is not in the map, but has a content there. -/
theorem Reaches.identifiesKeys_trueKey :
    ∃ env, Reaches {} env ∧ eval env (.ident 0 (Text.lit "m")) = .ok trueKey ∧
      eval env (.binary 0 .mem (.literal 0 (.int 1)) (.ident 0 (Text.lit "m"))) = .ok (.bool false) ∧
      eval env (.method 0 (Text.lit "hasValue")
        (.index 0 (.ident 0 (Text.lit "m")) (.literal 0 (.int 1)) true) []) = .ok (.bool true) := by
  have hrecord : Record.IsWellKeyed {} := fun a ha => absurd ha List.not_mem_nil
  have hinit (env : Activation) : eval env (.map 0
      [(.literal 0 (.bool true), .literal 0 (.string (Text.lit "x")))]) = .ok trueKey := rfl
  have hreaches := (Reaches.record (r := {}) rfl).bind (Text.lit "m") (hinit _)
  have hkeys : HasPlainKeys [(.bool true, .string (Text.lit "x"))] :=
    List.forall_mem_singleton.mpr rfl
  obtain ⟨hmem, hhas, -⟩ := (Reaches.identifiesKeys hrecord hreaches).lookup
    (.ident 0 (Text.lit "m")) (.literal 0 (.int 1)) _ (.int 1) rfl hkeys rfl rfl 0 0
  exact ⟨_, hreaches, rfl, hmem, hhas⟩

theorem exists_selects {source : Text} {r : Record} {x : Except SelectError Bool}
    (h : (Program.compile source).toOption.any (fun p => decide (Program.selects (some p) r = x)) = true) :
    ∃ p, Program.compile source = .ok p ∧ Program.selects (some p) r = x := by
  obtain ⟨p, hp, hx⟩ := exists_of_any_toOption h
  exact ⟨p, hp, of_decide_eq_true hx⟩

/-- A truth value is no number, and a number is not in a map with a truth value as its key. Yet it leads to
a content there, a literal with both as its keys fails, and maps with the one and the other are equal. -/
theorem not_equals_of_trueKey :
    (∃ p, Program.compile (Text.lit "dyn(1) == dyn(true)") = .ok p ∧
      Program.selects (some p) {} = .ok false) ∧
    (∃ p, Program.compile (Text.lit "dyn(1) in \x7btrue: 'x'\x7d") = .ok p ∧
      Program.selects (some p) {} = .ok false) ∧
    (∃ p, Program.compile (Text.lit "\x7btrue: 'x'\x7d[?dyn(1)].hasValue()") = .ok p ∧
      Program.selects (some p) {} = .ok true) ∧
    (∃ p, Program.compile (Text.lit "size(\x7bdyn(1): 'x', dyn(true): 'y'\x7d) == 2") = .ok p ∧
      Program.selects (some p) {} = .error (.eval (.duplicateKey (Text.lit "True")))) ∧
    ∃ p, Program.compile (Text.lit "dyn(\x7b1: 'x'\x7d) == dyn(\x7btrue: 'x'\x7d)") = .ok p ∧
      Program.selects (some p) {} = .ok true := by
  refine ⟨exists_selects ?_, exists_selects ?_, exists_selects ?_, exists_selects ?_, exists_selects ?_⟩
  · decide +kernel
  · decide +kernel
  · decide +kernel
  · decide +kernel
  · decide +kernel

end LogStream.Filter
