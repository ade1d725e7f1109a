import LogStream.Handler.Merge
import LogStream.Proofs.Datum.Mapping
import LogStream.Proofs.Value.Settled

/-! # Laws of merging

What a merge puts into a mapping does not depend on the mapping: the attributes can be merged on
their own and the result put into it binding by binding (`merge?_eq_map_putAll`). Attributes can be
merged in two parts (`merge?_append`), and a group is merged on its own before it is put under its
key (`merge?_group`). -/

namespace LogStream

/-! ### Putting one attribute -/

theorem putPlain_eq_putAll (target : List Attr) (key : Text) (v : Value) :
    putPlain target key v = Attrs.putAll target (putPlain [] key v) := by
  unfold putPlain
  by_cases h : key = []
  · rw [if_pos h, if_pos h, Attrs.putAll_nil]
  · rw [if_neg h, if_neg h, Attrs.putAll_put, Attrs.putAll_nil]

theorem putGroup_eq_putAll (target : List Attr) (key : Text) (members : List Attr) :
    putGroup target key members = Attrs.putAll target (putGroup [] key members) := by
  unfold putGroup
  by_cases hm : members = []
  · rw [if_pos hm, if_pos hm, Attrs.putAll_nil]
  · rw [if_neg hm, if_neg hm]
    by_cases hk : key = []
    · rw [if_pos hk, if_pos hk, Attrs.putAll_putAll, Attrs.putAll_nil]
    · rw [if_neg hk, if_neg hk, Attrs.putAll_put, Attrs.putAll_nil]

/-- A merge into a mapping, from the same merge into an empty one. -/
def Merged.into (m : Merged) (target : List Attr) : Merged :=
  ⟨Attrs.putAll target m.attrs, m.error⟩

theorem mergeOne_eq_into (target : List Attr) (key : Text) (s : Settled) :
    mergeOne target key s = (mergeOne [] key s).into target := by
  cases s with
  | empty => rw [mergeOne, mergeOne, putPlain_eq_putAll]; rfl
  | held kind d => rw [mergeOne, mergeOne, putPlain_eq_putAll]; rfl
  | foreign name => rw [mergeOne, mergeOne, putPlain_eq_putAll]; rfl
  | failed e => rw [mergeOne, mergeOne]; rfl
  | group ms =>
    rw [mergeOne, mergeOne]
    obtain ⟨attrs, error⟩ := mergeSettled [] ms
    cases error with
    | some e => rfl
    | none => exact congrArg (Merged.mk · none) (putGroup_eq_putAll target key attrs)

/-! ### Putting many attributes -/

theorem mergeSettled_cons (target : List Attr) (k : Text) (s : Settled)
    (ms : List (Text × Settled)) :
    mergeSettled target ((k, s) :: ms) =
      if (mergeOne target k s).error.isSome then mergeOne target k s
      else mergeSettled (mergeOne target k s).attrs ms := by
  rw [mergeSettled]
  obtain ⟨attrs, error⟩ := mergeOne target k s
  cases error <;> rfl

theorem mergeSettled_eq_into (ms : List (Text × Settled)) : ∀ target : List Attr,
    mergeSettled target ms = (mergeSettled [] ms).into target := by
  induction ms with
  | nil => intro target; rfl
  | cons a ms ih =>
    intro target
    obtain ⟨k, s⟩ := a
    rw [mergeSettled_cons, mergeSettled_cons, mergeOne_eq_into target]
    by_cases h : (mergeOne [] k s).error.isSome
    · have h' : ((mergeOne [] k s).into target).error.isSome := h
      rw [if_pos h, if_pos h']
    · have h' : ¬ ((mergeOne [] k s).into target).error.isSome := h
      rw [if_neg h, if_neg h', ih, ih (mergeOne [] k s).attrs]
      simp only [Merged.into, Attrs.putAll_putAll]

theorem mergeSettled_append (xs ys : List (Text × Settled)) : ∀ target : List Attr,
    mergeSettled target (xs ++ ys) =
      if (mergeSettled target xs).error.isSome then mergeSettled target xs
      else mergeSettled (mergeSettled target xs).attrs ys := by
  induction xs with
  | nil => intro target; rfl
  | cons a xs ih =>
    intro target
    obtain ⟨k, s⟩ := a
    rw [List.cons_append, mergeSettled_cons, mergeSettled_cons]
    by_cases h : (mergeOne target k s).error.isSome
    · rw [if_pos h, if_pos h, if_pos h]
    · rw [if_neg h, if_neg h, ih]

/-! ### Merging as a function that can fail -/

/-- The mapping after a merge, unless that failed. -/
def Merged.toExcept (m : Merged) : Except ResolveError (List Attr) :=
  match m.error with
  | some e => .error e
  | none => .ok m.attrs

theorem merge?_eq_toExcept (target attrs : List Attr) :
    merge? target attrs = (mergeSettled target (Value.settleMembers attrs)).toExcept := rfl

theorem Merged.toExcept_into (m : Merged) (target : List Attr) :
    (m.into target).toExcept = m.toExcept.map (Attrs.putAll target) := by
  obtain ⟨attrs, error⟩ := m
  cases error <;> rfl

/-- **Attributes can be merged on their own and the result put into a mapping.** -/
theorem merge?_eq_map_putAll (target attrs : List Attr) :
    merge? target attrs = (merge? [] attrs).map (Attrs.putAll target) := by
  rw [merge?_eq_toExcept, merge?_eq_toExcept, mergeSettled_eq_into, Merged.toExcept_into]

/-- **Attributes can be merged in two parts.** -/
theorem merge?_append (target as bs : List Attr) :
    merge? target (as ++ bs) = (merge? target as).bind fun t => merge? t bs := by
  rw [merge?_eq_toExcept, merge?_eq_toExcept, Value.settleMembers_append, mergeSettled_append]
  obtain ⟨attrs, error⟩ := mergeSettled target (Value.settleMembers as)
  cases error <;> rfl

/-- **A group is merged on its own before it is put under its key.** -/
theorem merge?_group (target : List Attr) (key : Text) (members : List Attr) :
    merge? target [(key, .group members)] = (merge? [] members).map (putGroup target key) := by
  rw [merge?_eq_toExcept, merge?_eq_toExcept, Value.settleMembers, Value.settleMembers,
    Value.settle, mergeSettled_cons, mergeOne]
  obtain ⟨attrs, error⟩ := mergeSettled [] (Value.settleMembers members)
  cases error <;> rfl

/-- A group with an empty key is merged as its members are. -/
theorem merge?_group_nil (target members : List Attr) :
    merge? target [([], .group members)] = merge? target members := by
  rw [merge?_group, merge?_eq_map_putAll target members]
  cases merge? [] members with
  | error e => rfl
  | ok ms =>
    by_cases h : ms = []
    · simp [Except.map, putGroup, h]
    · simp [Except.map, putGroup, h]

end LogStream
