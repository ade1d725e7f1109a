import Mathlib
import LogStream.Proofs.Filter.Application
import LogStream.Proofs.Filter.Faults.Programs
import LogStream.Proofs.Filter.Maps.Records

/-! # Paths of optional steps

A path of keys leads from a value to another one, or breaks off where a map lacks its key, or is blocked by a
value that is no map (`Dyn.path_cases`). Behind an optional value all forms of a step do the same: they go into
the content, and hand on that there is none (`eval_behind`). So a chain of steps ends in what its path leads
to, and an error is never taken for absence (`chain_follows_path`). -/

namespace LogStream.Filter

/-! ### Paths -/

namespace Dyn

/-- Each key is found in the map that the keys in front of it lead to. -/
inductive LeadsTo : Dyn → List Text → Dyn → Prop
  | done {v : Dyn} : LeadsTo v [] v
  | step {es : List (Dyn × Dyn)} {k : Text} {ks : List Text} {x v : Dyn} (h : (string k, x) ∈ es)
      (hx : LeadsTo x ks v) : LeadsTo (map es) (k :: ks) v

/-- Some key is not in its map, and all keys in front of it are found. -/
inductive BreaksOff : Dyn → List Text → Prop
  | here {es : List (Dyn × Dyn)} {k : Text} {ks : List Text} (h : ∀ x, (string k, x) ∉ es) :
      BreaksOff (map es) (k :: ks)
  | step {es : List (Dyn × Dyn)} {k : Text} {ks : List Text} {x : Dyn} (h : (string k, x) ∈ es)
      (hx : BreaksOff x ks) : BreaksOff (map es) (k :: ks)

/-- The keys in front of some key lead to a value that is no map. -/
inductive IsBlocked : Dyn → List Text → Dyn → Prop
  | here {v : Dyn} {k : Text} {ks : List Text} (h : ∀ es, v ≠ map es) : IsBlocked v (k :: ks) v
  | step {es : List (Dyn × Dyn)} {k : Text} {ks : List Text} {x v : Dyn} (h : (string k, x) ∈ es)
      (hx : IsBlocked x ks v) : IsBlocked (map es) (k :: ks) v

/-- **A path leads somewhere, or breaks off, or is blocked.** -/
theorem path_cases : ∀ (v : Dyn) (keys : List Text),
    (∃ w, LeadsTo v keys w) ∨ BreaksOff v keys ∨ ∃ w, IsBlocked v keys w
  | v, [] => .inl ⟨v, .done⟩
  | v, k :: ks => by
    by_cases hmap : ∃ es, v = map es
    · obtain ⟨es, rfl⟩ := hmap
      by_cases hk : ∃ x, (string k, x) ∈ es
      · obtain ⟨x, hx⟩ := hk
        rcases path_cases x ks with ⟨w, hw⟩ | hw | ⟨w, hw⟩
        · exact .inl ⟨w, .step hx hw⟩
        · exact .inr (.inl (.step hx hw))
        · exact .inr (.inr ⟨w, .step hx hw⟩)
      · exact .inr (.inl (.here (not_exists.mp hk)))
    · exact .inr (.inr ⟨v, .here (not_exists.mp hmap)⟩)

variable {k : Text} {x : Dyn} {es : List (Dyn × Dyn)}

theorem sameKey_string_iff {w : Dyn} : (string k).sameKey w = true ↔ w = string k := by
  cases w with
  | string t => simp [sameKey, eq_comm (a := k)]
  | _ => simp [sameKey]

/-- A string finds the entry under it, the only one. -/
theorem lookup?_string_iff (h : HasDistinctKeys es) : lookup? (string k) es = some x ↔ (string k, x) ∈ es := by
  unfold lookup? binding?
  induction h with
  | nil => simp
  | @cons e es hne _ ih =>
    rw [List.find?_cons, List.mem_cons]
    cases hk : (string k).sameKey e.1 with
    | true =>
      have hkey := sameKey_string_iff.mp hk
      have hnot : (string k, x) ∉ es := by
        intro hmem
        have hdiffers := hne _ hmem
        rw [hkey, sameKey_string_iff.mpr rfl] at hdiffers
        cases hdiffers
      simp [hnot, Prod.ext_iff, hkey, eq_comm (a := x)]
    | false =>
      have hhead : (string k, x) ≠ e := by
        rintro rfl
        rw [sameKey_string_iff.mpr rfl] at hk
        cases hk
      simpa [hhead] using ih

theorem lookup?_string_eq_none (h : HasDistinctKeys es) (hnone : ∀ x, (string k, x) ∉ es) :
    lookup? (string k) es = none := by
  rw [Option.eq_none_iff_forall_ne_some]
  intro x hx
  exact hnone x ((lookup?_string_iff h).mp hx)

end Dyn

/-! ### Steps -/

/-- A step to what is under a key: a selection or an index, lenient or not. -/
inductive PathStep
  | select (pos : Nat) (key : Text) (lenient : Bool)
  | index (pos keyPos : Nat) (key : Text) (lenient : Bool)

namespace PathStep

def key : PathStep → Text
  | select _ key _ => key
  | index _ _ key _ => key

/-- The step behind an operand. -/
def behind (operand : Expr) : PathStep → Expr
  | select pos key lenient => .select pos operand key lenient
  | index pos keyPos key lenient => .index pos operand (.literal keyPos (.string key)) lenient

/-- What is under the key in a value, if there is something. -/
def into (v : Dyn) : PathStep → Eval (Option Dyn)
  | select _ key _ => v.field? key
  | index _ _ key _ => v.element? (.string key)

/-- The error of a step into something that is no map. -/
def refusal (v : Dyn) : PathStep → EvalError
  | select _ _ _ => .noSelection v.typeName
  | index _ _ key _ => .noOverload "_[_]" [v.typeName, (Dyn.string key).typeName]

theorem refusal_mem (v : Dyn) (s : PathStep) :
    s.refusal v ∈ [.noSelection v.typeName, .noOverload "_[_]" [v.typeName, "string"]] := by
  cases s <;> simp [refusal, Dyn.typeName]

theorem into_map (es : List (Dyn × Dyn)) (s : PathStep) :
    s.into (.map es) = .ok (Dyn.lookup? (.string s.key) es) := by
  cases s <;> rfl

theorem into_other {v : Dyn} (hv : ∀ es, v ≠ .map es) (s : PathStep) :
    s.into v = .error (.error (s.refusal v)) := by
  cases v with
  | map es => exact absurd rfl (hv es)
  | _ => cases s <;> rfl

end PathStep

/-- Steps one behind the other. -/
def chain (operand : Expr) (steps : List PathStep) : Expr := steps.foldl PathStep.behind operand

/-- What steps lead to from a value, if all of it is there. -/
def followed : Dyn → List PathStep → Eval (Option Dyn)
  | v, [] => .ok (some v)
  | v, s :: steps => do
    match ← s.into v with
    | none => return none
    | some x => followed x steps

section Evaluation

variable {env : Activation} {operand : Expr} {v : Dyn}

/-- **Behind an optional value all forms of a step do the same**: they hand on that there is no content. -/
theorem eval_behind_none (h : eval env operand = .ok (.optional none)) (s : PathStep) :
    eval env (s.behind operand) = .ok (.optional none) := by
  cases s with
  | select pos key lenient =>
    rw [PathStep.behind, eval, h, ok_bind]
    cases lenient <;> rfl
  | index pos keyPos key lenient =>
    rw [PathStep.behind, eval, h, ok_bind, eval, ok_bind]
    cases lenient <;> rfl

/-- **Behind an optional value all forms of a step do the same**: they go into the content. -/
theorem eval_behind_some (h : eval env operand = .ok (.optional (some v))) (s : PathStep) :
    eval env (s.behind operand) = (s.into v).map .optional := by
  cases s with
  | select pos key lenient =>
    rw [PathStep.behind, eval, h, ok_bind]
    cases lenient <;> rfl
  | index pos keyPos key lenient =>
    rw [PathStep.behind, eval, h, ok_bind, eval, ok_bind]
    cases lenient <;> rfl

theorem eval_behind_error {f : EvalFailure} (h : eval env operand = .error f) (s : PathStep) :
    eval env (s.behind operand) = .error f := by
  cases s <;> rw [PathStep.behind, eval, h] <;> rfl

theorem eval_chain_none (h : eval env operand = .ok (.optional none)) (steps : List PathStep) :
    eval env (chain operand steps) = .ok (.optional none) := by
  induction steps generalizing operand with
  | nil => exact h
  | cons s steps ih => exact ih (eval_behind_none h s)

theorem eval_chain_error {f : EvalFailure} (h : eval env operand = .error f) (steps : List PathStep) :
    eval env (chain operand steps) = .error f := by
  induction steps generalizing operand with
  | nil => exact h
  | cons s steps ih => exact ih (eval_behind_error h s)

/-- **A chain ends in what its steps lead to.** -/
theorem eval_chain (h : eval env operand = .ok (.optional (some v))) (steps : List PathStep) :
    eval env (chain operand steps) = (followed v steps).map .optional := by
  induction steps generalizing operand v with
  | nil => exact h
  | cons s steps ih =>
    have hstep := eval_behind_some h s
    rw [followed]
    cases hinto : s.into v with
    | error f =>
      rw [hinto] at hstep
      exact eval_chain_error hstep steps
    | ok c =>
      rw [hinto] at hstep
      cases c with
      | none => exact eval_chain_none hstep steps
      | some x => exact ih hstep

/-- The first step asks a map whether it has its key. -/
theorem eval_chain_lenient {es : List (Dyn × Dyn)} (h : eval env operand = .ok (.map es)) (pos : Nat)
    (key : Text) (steps : List PathStep) :
    eval env (chain (.select pos operand key true) steps) =
      (followed (.map es) (.select pos key true :: steps)).map .optional := by
  have hfirst : eval env (.select pos operand key true) =
      .ok (.optional (Dyn.lookup? (.string key) es)) := by
    rw [eval, h, ok_bind]
    rfl
  rw [followed, PathStep.into_map, ok_bind]
  cases hlookup : Dyn.lookup? (.string key) es with
  | none =>
    rw [hlookup] at hfirst
    rw [eval_chain_none hfirst]
    simp [PathStep.key, hlookup]
    rfl
  | some x =>
    rw [hlookup] at hfirst
    rw [eval_chain hfirst]
    simp [PathStep.key, hlookup]

end Evaluation

/-! ### What is done with a chain -/

/-- What a chain leads to, or the value of another expression. -/
def orValue (pos : Nat) (path default : Expr) : Expr := .method pos (Text.lit "orValue") path [default]

/-- Whether a chain leads to something. -/
def hasValue (pos : Nat) (path : Expr) : Expr := .method pos (Text.lit "hasValue") path []

theorem member?_orValue : Builtin.member? (Text.lit "orValue") = some .orValue := by decide

theorem member?_hasValue : Builtin.member? (Text.lit "hasValue") = some .hasValue := by decide

section Methods

variable {env : Activation} {path d : Expr} {c : Option Dyn} {w : Dyn} {t : Ty}

theorem eval_orValue (h : eval env path = .ok (.optional c)) (hd : eval env d = .ok w) (pos : Nat) :
    eval env (orValue pos path d) = .ok (c.getD w) := by
  rw [orValue, eval_method member?_orValue h (evalAll_cons hd evalAll_nil)]
  cases c <;> rfl

theorem eval_hasValue (h : eval env path = .ok (.optional c)) (pos : Nat) :
    eval env (hasValue pos path) = .ok (.bool c.isSome) := by
  rw [hasValue, eval_method member?_hasValue h evalAll_nil]
  rfl

/-- An error of the receiver is one of the call. -/
theorem eval_method_error {e : EvalError} (h : eval env path = .error (.error e)) (pos : Nat)
    (name : Text) (args : List Expr) : eval env (.method pos name path args) = .error (.error e) :=
  eval_method_of_error h pos

theorem check_orValue (h : check recordScope path = .ok (.optional .dyn))
    (hd : check recordScope d = .ok t) (pos : Nat) : check recordScope (orValue pos path d) = .ok t := by
  have hargs : checkAll recordScope [d] = .ok [t] := by
    rw [checkAll, hd]
    rfl
  rw [orValue, check, hargs, ok_bind, h, ok_bind, member?_orValue]
  rfl

theorem check_hasValue (h : check recordScope path = .ok (.optional .dyn)) (pos : Nat) :
    check recordScope (hasValue pos path) = .ok .bool := by
  rw [hasValue, check, checkAll, ok_bind, h, ok_bind, member?_hasValue]
  rfl

end Methods

/-! ### Steps along a path -/

section Paths

variable {v w : Dyn} {keys : List Text}

theorem followed_cons_of_mem {es : List (Dyn × Dyn)} {x : Dyn} {s : PathStep}
    (hes : (Dyn.map es).IsWellKeyed) (hk : (.string s.key, x) ∈ es) (steps : List PathStep) :
    x.IsWellKeyed ∧ followed (.map es) (s :: steps) = followed x steps := by
  obtain ⟨hdistinct, -, hcontents⟩ := Dyn.isWellKeyed_map_iff.mp hes
  refine ⟨hcontents _ hk, ?_⟩
  rw [followed, PathStep.into_map, (Dyn.lookup?_string_iff hdistinct).mpr hk]
  rfl

theorem followed_of_leadsTo (h : v.LeadsTo keys w) (hv : v.IsWellKeyed) {steps : List PathStep}
    (hkeys : steps.map PathStep.key = keys) : followed v steps = .ok (some w) := by
  induction h generalizing steps with
  | done =>
    rw [List.map_eq_nil_iff.mp hkeys]
    rfl
  | step hk _ ih =>
    obtain ⟨s, steps, rfl, rfl, hrest⟩ := List.map_eq_cons_iff.mp hkeys
    obtain ⟨hx, hstep⟩ := followed_cons_of_mem hv hk steps
    rw [hstep, ih hx hrest]

theorem followed_of_breaksOff (h : v.BreaksOff keys) (hv : v.IsWellKeyed) {steps : List PathStep}
    (hkeys : steps.map PathStep.key = keys) : followed v steps = .ok none := by
  induction h generalizing steps with
  | here hnone =>
    obtain ⟨s, steps, rfl, rfl, -⟩ := List.map_eq_cons_iff.mp hkeys
    obtain ⟨hdistinct, -⟩ := Dyn.isWellKeyed_map_iff.mp hv
    rw [followed, PathStep.into_map, Dyn.lookup?_string_eq_none hdistinct hnone]
    rfl
  | step hk _ ih =>
    obtain ⟨s, steps, rfl, rfl, hrest⟩ := List.map_eq_cons_iff.mp hkeys
    obtain ⟨hx, hstep⟩ := followed_cons_of_mem hv hk steps
    rw [hstep, ih hx hrest]

theorem followed_of_isBlocked (h : v.IsBlocked keys w) (hv : v.IsWellKeyed) {steps : List PathStep}
    (hkeys : steps.map PathStep.key = keys) :
    ∃ s ∈ steps, followed v steps = .error (.error (s.refusal w)) := by
  induction h generalizing steps with
  | here hother =>
    obtain ⟨s, steps, rfl, -⟩ := List.map_eq_cons_iff.mp hkeys
    refine ⟨s, by simp, ?_⟩
    rw [followed, PathStep.into_other hother]
    rfl
  | step hk _ ih =>
    obtain ⟨s, steps, rfl, rfl, hrest⟩ := List.map_eq_cons_iff.mp hkeys
    obtain ⟨hx, hstep⟩ := followed_cons_of_mem hv hk steps
    obtain ⟨s', hs', herror⟩ := ih hx hrest
    exact ⟨s', List.mem_cons_of_mem _ hs', hstep.trans herror⟩

end Paths

/-! ### Records -/

/-- The name of the attributes. -/
abbrev attrsName : Text := Text.lit "attrs"

/-- The attributes of a record are a map. -/
theorem exists_attrs {r : Record} {env : Activation} (h : activation r = .ok env) :
    ∃ es, env.lookup attrsName = some (.map es) := by
  unfold activation at h
  split at h
  · cases h
  · split at h
    · cases h
    · cases h
      exact ⟨_, rfl⟩

/-- The steps of a path from the attributes of a record: the first one is an optional selection, and further
ones have any form. -/
def attrsPath (pos identPos : Nat) (key : Text) (steps : List PathStep) : Expr :=
  chain (.select pos (.ident identPos attrsName) key true) steps

/-- A chain has the type of an optional value whatever its steps are. -/
theorem check_attrsPath (pos identPos : Nat) (key : Text) (steps : List PathStep) :
    check recordScope (attrsPath pos identPos key steps) = .ok (.optional .dyn) := by
  have hchain {operand : Expr} (h : check recordScope operand = .ok (.optional .dyn)) :
      check recordScope (chain operand steps) = .ok (.optional .dyn) := by
    induction steps generalizing operand with
    | nil => exact h
    | cons s steps ih =>
      apply ih
      cases s with
      | select pos key lenient =>
        rw [PathStep.behind, check, h]
        rfl
      | index pos keyPos key lenient =>
        rw [PathStep.behind, check, h, check]
        rfl
  exact hchain rfl

/-- What `orValue` and `hasValue` make of a chain of steps: they go by what the path leads to, or by its
breaking off, and fail with an error that names the type of the value where the path is blocked. -/
structure FollowsPath (env : Activation) (attrs : Dyn) (keys : List Text) (path : Expr) : Prop where
  leads : ∀ v, attrs.LeadsTo keys v →
    (∀ pos d w, eval env d = .ok w → eval env (orValue pos path d) = .ok v) ∧
      ∀ pos, eval env (hasValue pos path) = .ok (.bool true)
  breaks : attrs.BreaksOff keys →
    (∀ pos d w, eval env d = .ok w → eval env (orValue pos path d) = .ok w) ∧
      ∀ pos, eval env (hasValue pos path) = .ok (.bool false)
  blocked : ∀ v, attrs.IsBlocked keys v →
    ∃ e ∈ [.noSelection v.typeName, .noOverload "_[_]" [v.typeName, "string"]],
      (∀ pos d, eval env (orValue pos path d) = .error (.error e)) ∧
        ∀ pos, eval env (hasValue pos path) = .error (.error e)

/-- The steps go by what is followed from the value. -/
theorem FollowsPath.of_eval {env : Activation} {attrs : Dyn} (hattrs : attrs.IsWellKeyed)
    {steps : List PathStep} {path : Expr} (h : eval env path = (followed attrs steps).map .optional) :
    FollowsPath env attrs (steps.map PathStep.key) path where
  leads v hv := by
    rw [followed_of_leadsTo hv hattrs rfl] at h
    exact ⟨fun pos d w hd => eval_orValue h hd pos, eval_hasValue h⟩
  breaks hv := by
    rw [followed_of_breaksOff hv hattrs rfl] at h
    exact ⟨fun pos d w hd => eval_orValue h hd pos, eval_hasValue h⟩
  blocked v hv := by
    obtain ⟨s, -, herror⟩ := followed_of_isBlocked hv hattrs rfl
    rw [herror] at h
    exact ⟨s.refusal v, s.refusal_mem v, fun pos d => eval_method_error h pos _ _,
      fun pos => eval_method_error h pos _ _⟩

/-- **A chain of optional steps follows its path**, from the attributes of every record that was decoded and
whatever forms its steps have. The path leads to something, or breaks off, or is blocked, and the chain is well
typed in any case. -/
theorem chain_follows_path {bs : Bytes} {r : Record} (hr : Record.decode bs = .ok r) :
    ∃ env es, activation r = .ok env ∧ env.lookup attrsName = some (.map es) ∧
      ∀ (pos identPos : Nat) (key : Text) (steps : List PathStep),
        let path := attrsPath pos identPos key steps
        let keys := key :: steps.map PathStep.key
        ((∃ v, (Dyn.map es).LeadsTo keys v) ∨ (Dyn.map es).BreaksOff keys ∨
            ∃ v, (Dyn.map es).IsBlocked keys v) ∧
          FollowsPath env (.map es) keys path ∧
          ∀ callPos d t, check recordScope d = .ok t →
            check recordScope (orValue callPos path d) = .ok t ∧
              check recordScope (hasValue callPos path) = .ok .bool := by
  have hdecoded := Record.isDecoded_of_decode hr
  obtain ⟨env, henv⟩ := exists_activation hdecoded
  obtain ⟨es, hes⟩ := exists_attrs henv
  have hkeyed : (Dyn.map es).IsWellKeyed :=
    isWellKeyed_activation hdecoded.isWellKeyed henv _ _ hes
  refine ⟨env, es, henv, hes, fun pos identPos key steps => ⟨Dyn.path_cases _ _, ?_, fun callPos d t hd => ?_⟩⟩
  · have hident : eval env (.ident identPos attrsName) = .ok (.map es) := by
      rw [eval, hes]
      rfl
    exact .of_eval hkeyed (eval_chain_lenient hident pos key steps)
  · have hpath := check_attrsPath pos identPos key steps
    exact ⟨check_orValue hpath hd callPos, check_hasValue hpath callPos⟩

/-- A record with a group that holds an empty value. -/
def groupRecord : Record := { attrs := [(Text.lit "g", .group [(Text.lit "k", .empty)])] }

def groupBytes : Bytes :=
  [0x22, 0x0E, 0x0A, 0x01, 0x67, 0x12, 0x09, 0x42, 0x07, 0x0A, 0x05, 0x0A, 0x01, 0x6B, 0x12, 0x00]

def groupAttrs : List (Dyn × Dyn) := [(.string (Text.lit "g"), .map [(.string (Text.lit "k"), .null)])]

theorem lookup_groupRecord {env : Activation} (h : activation groupRecord = .ok env) :
    env.lookup attrsName = some (.map groupAttrs) := by
  cases h
  rfl

/-- The path `g.k` leads to the empty value, `g.x` breaks off, and `g.k.x` is blocked by the empty value: the
chains are those of `attrs.?g['k'].orValue(true)`, `attrs.?g.x.hasValue()` and
`attrs.?g.?k[?'x'].hasValue()`. -/
theorem chain_follows_path_group : Record.decode groupBytes = .ok groupRecord ∧
    ∃ env, activation groupRecord = .ok env ∧
      eval env (orValue 13 (attrsPath 5 0 (Text.lit "g") [.index 8 9 (Text.lit "k") false])
        (.literal 22 (.bool true))) = .ok .null ∧
      eval env (hasValue 10 (attrsPath 5 0 (Text.lit "g") [.select 8 (Text.lit "x") false])) =
        .ok (.bool false) ∧
      ∃ e, eval env (hasValue 17 (attrsPath 5 0 (Text.lit "g")
        [.select 8 (Text.lit "k") true, .index 11 13 (Text.lit "x") true])) = .error (.error e) := by
  have hdecode : Record.decode groupBytes = .ok groupRecord := by cbv
  obtain ⟨env, es, henv, hes, hpaths⟩ := chain_follows_path hdecode
  rw [lookup_groupRecord henv] at hes
  cases hes
  refine ⟨hdecode, env, henv, ?_, ?_, ?_⟩
  · obtain ⟨-, hpath, -⟩ := hpaths 5 0 (Text.lit "g") [.index 8 9 (Text.lit "k") false]
    have hleads : (Dyn.map groupAttrs).LeadsTo [Text.lit "g", Text.lit "k"] .null :=
      .step (List.mem_singleton.mpr rfl) (.step (List.mem_singleton.mpr rfl) .done)
    exact (hpath.leads _ hleads).1 _ _ _ rfl
  · obtain ⟨-, hpath, -⟩ := hpaths 5 0 (Text.lit "g") [.select 8 (Text.lit "x") false]
    have hnone : ∀ x, (Dyn.string (Text.lit "x"), x) ∉ [(Dyn.string (Text.lit "k"), Dyn.null)] := by
      intro x hx
      have hkey : Dyn.string (Text.lit "x") = .string (Text.lit "k") :=
        congrArg Prod.fst (List.mem_singleton.mp hx)
      exact absurd (Dyn.string.inj hkey) (by decide)
    exact (hpath.breaks (.step (List.mem_singleton.mpr rfl) (.here hnone))).2 _
  · obtain ⟨-, hpath, -⟩ := hpaths 5 0 (Text.lit "g")
      [.select 8 (Text.lit "k") true, .index 11 13 (Text.lit "x") true]
    have hnull : ∀ es, Dyn.null ≠ .map es := by
      intro es hes
      cases hes
    have hblocked : (Dyn.map groupAttrs).IsBlocked [Text.lit "g", Text.lit "k", Text.lit "x"] .null :=
      .step (List.mem_singleton.mpr rfl) (.step (List.mem_singleton.mpr rfl) (.here hnull))
    obtain ⟨e, -, -, he⟩ := hpath.blocked _ hblocked
    exact ⟨e, he _⟩

end LogStream.Filter
