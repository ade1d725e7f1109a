import LogStream.Handler.Basic
import LogStream.Proofs.Handler.Merge

/-! # Derived handlers and nested groups

Attributes that a handler carries and groups that it has open are the same as attributes and groups
written out in each call: the attributes that a derived handler builds for a call are those of a
merge of `nested steps call`, in which each opened group is one attribute with everything behind it
as members (`buildAttrs_derived`). The walk along the lineage is followed from any scope
(`build_follow`): what is merged goes into the innermost mapping, and the open groups are closed
around it. -/

namespace LogStream

/-- The attributes of a call behind those of some derivation steps; a group that is opened holds
everything behind it. -/
def nested : List Derivation → List Attr → List Attr
  | [], call => call
  | .attrs added :: steps, call => added ++ nested steps call
  | .group name :: steps, call => [(name, .group (nested steps call))]

/-! ### The lineage of a derived handler -/

theorem Handler.steps_derive (h : Handler) (step : Derivation) :
    (h.derive step).lineage.steps = h.lineage.steps ++ [step].filter (!·.isIdle) := by
  unfold Handler.derive Handler.derive?
  by_cases hi : step.isIdle
  · simp [hi]
  · simp [hi, Lineage.steps]

/-- The lineage of a derived handler holds the steps that add something, in their order. -/
theorem Handler.steps_foldl_derive (steps : List Derivation) : ∀ h : Handler,
    (steps.foldl Handler.derive h).lineage.steps = h.lineage.steps ++ steps.filter (!·.isIdle) := by
  induction steps with
  | nil => intro h; simp
  | cons step steps ih =>
    intro h
    rw [List.foldl_cons, ih, Handler.steps_derive, List.append_assoc, ← List.filter_append,
      List.singleton_append]

/-- Steps that add nothing can be left out. -/
theorem merge?_nested_filter (call : List Attr) : ∀ (steps : List Derivation) (target : List Attr),
    merge? target (nested (steps.filter (!·.isIdle)) call) = merge? target (nested steps call)
  | [], target => rfl
  | .attrs added :: steps, target => by
    by_cases hi : added = []
    · subst hi
      exact merge?_nested_filter call steps target
    · rw [List.filter_cons_of_pos (by simpa [Derivation.isIdle] using hi), nested, nested,
        merge?_append, merge?_append]
      congr 1
      funext t
      exact merge?_nested_filter call steps t
  | .group name :: steps, target => by
    by_cases hi : name = []
    · subst hi
      rw [nested, merge?_group_nil]
      exact merge?_nested_filter call steps target
    · rw [List.filter_cons_of_pos (by simpa [Derivation.isIdle] using hi), nested, nested,
        merge?_group, merge?_group, merge?_nested_filter call steps []]

/-! ### The walk along the lineage -/

namespace Handler

theorem Scope.close_enter (current inner : List Attr) (outer : List (Text × List Attr))
    {name : Text} (hn : name ≠ []) :
    Scope.close ⟨inner, (name, current) :: outer⟩ =
      Scope.close ⟨putGroup current name inner, outer⟩ := by
  unfold Scope.close
  rw [List.foldl_cons, Scope.leave]
  unfold putGroup
  by_cases hi : inner = []
  · rw [if_pos hi, if_pos hi]
  · rw [if_neg hi, if_neg hi, if_neg hn]

/-- What a call builds from a scope on. -/
def buildFrom (s : Scope) (steps : List Derivation) (call : List Attr) :
    Except ResolveError (List Attr) := do
  let s ← steps.foldlM Scope.follow s
  let s ← s.add call
  return s.close

/-- **From any scope on, the steps and the call are merged into the innermost mapping as nested
groups**, and the groups that are open around it are closed. -/
theorem build_follow (call : List Attr) : ∀ (steps : List Derivation) (s : Scope),
    (∀ step ∈ steps, step.isIdle = false) →
      buildFrom s steps call =
        (merge? s.current (nested steps call)).map fun m => Scope.close ⟨m, s.outer⟩
  | [], s, _ => by
    unfold buildFrom
    simp only [List.foldlM_nil, pure_bind, Scope.add, nested]
    cases merge? s.current call <;> rfl
  | .attrs added :: steps, s, h => by
    have ih := fun t => build_follow call steps t fun d hd => h d (by simp [hd])
    unfold buildFrom
    rw [List.foldlM_cons, bind_assoc, nested, merge?_append, Scope.follow, Scope.add]
    cases merge? s.current added with
    | error e => rfl
    | ok current => exact ih { s with current }
  | .group name :: steps, s, h => by
    have ih := build_follow call steps (s.enter name) fun d hd => h d (by simp [hd])
    have hn : name ≠ [] := by simpa [Derivation.isIdle] using h (.group name) (by simp)
    unfold buildFrom
    rw [List.foldlM_cons, bind_assoc, nested, merge?_group]
    refine ih.trans ?_
    cases h : merge? [] (nested steps call) with
    | error e => simp only [Scope.enter, h]; rfl
    | ok inner =>
      simp only [Scope.enter, h, Except.map]
      rw [Scope.close_enter _ _ _ hn]

end Handler

/-- **A derived handler builds the attributes of nested groups**: same keys, contents and order at
every level, and the same failure of a lazy value. -/
theorem buildAttrs_derived (level : LevelMark) (steps : List Derivation) (call : List Attr) :
    (steps.foldl Handler.derive { level }).buildAttrs call = merge? [] (nested steps call) := by
  have hs := Handler.steps_foldl_derive steps { level }
  have hb := Handler.build_follow call (steps.filter (!·.isIdle)) {} fun d hd => by
    simpa using (List.mem_filter.mp hd).2
  unfold Handler.buildAttrs
  rw [hs, ← merge?_nested_filter]
  refine hb.trans ?_
  cases merge? [] (nested (steps.filter (!·.isIdle)) call) <;> rfl

end LogStream
