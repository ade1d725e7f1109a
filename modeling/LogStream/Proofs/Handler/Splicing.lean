import LogStream.Proofs.Handler.Merge
import LogStream.Proofs.Outcome
import Mathlib.Data.List.ReduceOption

/-! # Spliced attributes

A group under an empty key is merged as if its members stood in its place (`merge?_inline`). Once all
such groups are spliced, all the way down (`Splices`), each attribute that is left contributes one
binding or none (`contribution?`), and a merge puts these into the mapping one after the other
(`merge?_eq_contributions`): the last one to a key counts, and the first one decides its place
(`merge?_spliced`). -/

namespace LogStream

variable {attrs flat ms : List Attr} {key : Text} {v w : Value}

/-! ### What values resolve to -/

theorem settleMembers_singleton (key : Text) (v : Value) :
    Value.settleMembers [(key, v)] = [(key, v.settle)] := rfl

/-- A merge only sees what values resolve to. -/
theorem merge?_singleton_of_resolve (target : List Attr) (key : Text) (h : v.resolve = .ok w) :
    merge? target [(key, v)] = merge? target [(key, w)] := by
  have hsettle : v.settle = w.settle := by rw [Value.settle_eq_ofResolved, h, Settled.ofResolved]
  rw [merge?_eq_toExcept, merge?_eq_toExcept, settleMembers_singleton, settleMembers_singleton,
    hsettle]

/-- **A group under an empty key is merged as its members are.** -/
theorem merge?_inline (target : List Attr) (h : v.resolve = .ok (.group ms)) :
    merge? target [([], v)] = merge? target ms := by
  rw [merge?_singleton_of_resolve target [] h, merge?_group_nil]

theorem merge?_singleton_of_error (target : List Attr) (key : Text) {e : ResolveError}
    (h : v.resolve = .error e) : merge? target [(key, v)] = .error e := by
  have hsettle : v.settle = .failed e := by rw [Value.settle_eq_ofResolved, h, Settled.ofResolved]
  rw [merge?_eq_toExcept, settleMembers_singleton, hsettle]
  rfl

theorem merge?_singleton_plain (target : List Attr) (key : Text) (h : v.resolve = .ok w)
    (hw : ∀ ms, w ≠ .group ms) : merge? target [(key, v)] = .ok (putPlain target key w) := by
  rw [merge?_singleton_of_resolve target key h, merge?_eq_toExcept, settleMembers_singleton]
  cases w with
  | empty => rfl
  | foreign name => rfl
  | group ms => exact absurd rfl (hw ms)
  | held k d =>
    rw [Value.settle_held (Value.ne_lazy_of_resolve h)]
    rfl

/-! ### Contributions -/

/-- The binding that an attribute contributes to a mapping: a group as it is after its own merge, if
there are members left, and any other value, if its key is not empty. -/
def contribution? (a : Attr) : Except ResolveError (Option Attr) := do
  match ← a.2.resolve with
  | .group ms =>
    (merge? [] ms).map fun members => if members = [] then none else some (a.1, .group members)
  | v => return if a.1 = [] then none else some (a.1, v)

/-- The attribute is a group under an empty key. -/
def IsInline (a : Attr) : Prop := a.1 = [] ∧ ∃ ms, a.2.resolve = .ok (.group ms)

theorem contribution?_of_error {e : ResolveError} (h : v.resolve = .error e) :
    contribution? (key, v) = .error e := by
  unfold contribution?
  rw [h]
  rfl

theorem contribution?_group (h : v.resolve = .ok (.group ms)) :
    contribution? (key, v) =
      (merge? [] ms).map fun members => if members = [] then none else some (key, .group members) := by
  unfold contribution?
  rw [h]
  rfl

theorem contribution?_plain (h : v.resolve = .ok w) (hw : ∀ ms, w ≠ .group ms) :
    contribution? (key, v) = .ok (if key = [] then none else some (key, w)) := by
  unfold contribution?
  rw [h, ok_bind]
  cases w with
  | group ms => exact absurd rfl (hw ms)
  | _ => rfl

/-- An attribute that is no group under an empty key puts what it contributes into the mapping. -/
theorem merge?_singleton (target : List Attr) {a : Attr} (ha : ¬ IsInline a) :
    merge? target [a] = (contribution? a).map fun c => Attrs.putAll target c.toList := by
  obtain ⟨key, v⟩ := a
  cases h : v.resolve with
  | error e => rw [merge?_singleton_of_error target key h, contribution?_of_error h]; rfl
  | ok w =>
    by_cases hw : ∃ ms, w = .group ms
    · obtain ⟨ms, rfl⟩ := hw
      have hkey : key ≠ [] := fun hk => ha ⟨hk, ms, h⟩
      rw [merge?_singleton_of_resolve target key h, merge?_group, contribution?_group h]
      cases merge? [] ms with
      | error e => rfl
      | ok members =>
        by_cases hm : members = []
        · simp [Except.map, putGroup, hm]
        · simp [Except.map, putGroup, hm, hkey, Attrs.putAll_cons]
    · have hplain : ∀ ms, w ≠ .group ms := fun ms hms => hw ⟨ms, hms⟩
      rw [merge?_singleton_plain target key h hplain, contribution?_plain h hplain]
      by_cases hk : key = []
      · simp [Except.map, putPlain, hk]
      · simp [Except.map, putPlain, hk, Attrs.putAll_cons]

/-- **Attributes put what they contribute into the mapping, one after the other.** -/
theorem merge?_eq_contributions : ∀ {flat : List Attr} (target : List Attr),
    (∀ a ∈ flat, ¬ IsInline a) → merge? target flat =
      (flat.mapM contribution?).map fun cs => Attrs.putAll target cs.reduceOption
  | [], _, _ => rfl
  | a :: flat, target, h => by
    obtain ⟨ha, hflat⟩ := List.forall_mem_cons.mp h
    have ih := fun t => merge?_eq_contributions t hflat
    rw [← List.singleton_append, merge?_append, merge?_singleton target ha, List.singleton_append,
      List.mapM_cons]
    cases contribution? a with
    | error e => rfl
    | ok c =>
      simp only [Except.map, Except.bind, ih, ok_bind]
      cases List.mapM contribution? flat with
      | error e => rfl
      | ok cs => cases c <;> rfl

/-! ### Splicing -/

/-- The second list is the first with the members of each group under an empty key in its place, and
the same done to these members. -/
inductive Splices : List Attr → List Attr → Prop
  | nil : Splices [] []
  | keep {a : Attr} {as bs : List Attr} (ha : ¬ IsInline a) (h : Splices as bs) :
      Splices (a :: as) (a :: bs)
  | inline {v : Value} {ms members as bs : List Attr} (hv : v.resolve = .ok (.group ms))
      (hm : Splices ms members) (h : Splices as bs) : Splices (([], v) :: as) (members ++ bs)

namespace Splices

/-- No group under an empty key is left. -/
theorem not_isInline (h : Splices attrs flat) : ∀ a ∈ flat, ¬ IsInline a := by
  induction h with
  | nil => exact List.forall_mem_nil _
  | keep ha _ ih => exact List.forall_mem_cons.mpr ⟨ha, ih⟩
  | inline _ _ _ ihm ih => exact List.forall_mem_append.mpr ⟨ihm, ih⟩

/-- **Spliced attributes are merged as they were before.** -/
theorem merge?_eq (h : Splices attrs flat) : ∀ target, merge? target attrs = merge? target flat := by
  induction h with
  | nil => exact fun _ => rfl
  | @keep a as bs _ _ ih =>
    intro target
    rw [← List.singleton_append, ← List.singleton_append (l := bs), merge?_append, merge?_append]
    congr 1
    funext t
    exact ih t
  | @inline v ms members as bs hv _ _ ihm ih =>
    intro target
    rw [← List.singleton_append, merge?_append, merge?_append, merge?_inline target hv, ihm]
    congr 1
    funext t
    exact ih t

end Splices

mutual

theorem exists_splices_group : ∀ (s : Settled) {ms : List Attr},
    s = .group (Value.settleMembers ms) → ∃ members, Splices ms members
  | .group ns, _, h => exists_splices_of_settled ns (Settled.group.inj h).symm
  | .empty, _, h | .held _ _, _, h | .foreign _, _, h | .failed _, _, h => by cases h
termination_by structural s => s

-- The recursion is on the trees behind the attributes: a lazy value may hide groups of any depth.
theorem exists_splices_of_settled : ∀ (ns : List (Text × Settled)) {attrs : List Attr},
    Value.settleMembers attrs = ns → ∃ flat, Splices attrs flat
  | _, [], _ => ⟨[], .nil⟩
  | (_, s) :: ns, (key, v) :: attrs, h => by
    rw [Value.settleMembers] at h
    obtain ⟨hfirst, hrest⟩ := List.cons.inj h
    obtain ⟨flat, hflat⟩ := exists_splices_of_settled ns hrest
    by_cases hinline : IsInline (key, v)
    · obtain ⟨rfl, ms, hms⟩ := hinline
      have hs : s = .group (Value.settleMembers ms) := by
        rw [← (Prod.mk.inj hfirst).2, Value.settle_eq_ofResolved, hms]
        rfl
      obtain ⟨members, hmembers⟩ := exists_splices_group s hs
      exact ⟨members ++ flat, .inline hms hmembers hflat⟩
    · exact ⟨(key, v) :: flat, .keep hinline hflat⟩
termination_by structural ns => ns

end

/-- All groups under an empty key can be spliced. -/
theorem exists_splices (attrs : List Attr) : ∃ flat, Splices attrs flat :=
  exists_splices_of_settled _ rfl

/-! ### The law of merging -/

/-- **The law of merging.** A group under an empty key, if need be behind lazy values, is merged as its
members are in its place: to the same mapping with the same order of keys, or to the same failure. All
such groups can be spliced, all the way down. Then the merge fails as the first attribute that cannot
contribute, or else each key has what was contributed to it last, or what it had, and behind the keys
that were there stand the new ones in the order of their first contributions. -/
theorem merge?_spliced (target attrs : List Attr) :
    (∀ (xs ys ms : List Attr) (v : Value), v.resolve = .ok (.group ms) →
      merge? target (xs ++ ([], v) :: ys) = merge? target (xs ++ ms ++ ys)) ∧
    (∃ flat, Splices attrs flat) ∧
    ∀ flat, Splices attrs flat → (∀ a ∈ flat, ¬ IsInline a) ∧
      merge? target attrs = merge? target flat ∧
      (∀ e, flat.mapM contribution? = .error e → merge? target attrs = .error e) ∧
      ∀ cs, flat.mapM contribution? = .ok cs → ∃ result, merge? target attrs = .ok result ∧
        (∀ key, result.lookup key =
          (cs.reduceOption.reverse.lookup key).or (target.lookup key)) ∧
        result.map Prod.fst = target.map Prod.fst ++ Attrs.newKeys target cs.reduceOption := by
  refine ⟨fun xs ys ms v hv => ?_, exists_splices attrs, fun flat h => ?_⟩
  · rw [List.append_assoc, merge?_append, merge?_append target xs]
    congr 1
    funext t
    rw [← List.singleton_append, merge?_append, merge?_append t ms, merge?_inline t hv]
  · have hmerge := (h.merge?_eq target).trans (merge?_eq_contributions target h.not_isInline)
    refine ⟨h.not_isInline, h.merge?_eq target, fun e he => ?_, fun cs hcs => ?_⟩
    · rw [hmerge, he]
      rfl
    · rw [hcs] at hmerge
      exact ⟨_, hmerge, Attrs.lookup_putAll target _, Attrs.map_fst_putAll target _⟩

/-- An empty group leaves what stands under its key, and a group under an empty key brings its own keys:
the last value of each key is left, in the place of the first. -/
example :
    merge? [] [(Text.lit "a", .foreign []), (Text.lit "b", .empty), (Text.lit "a", .group []),
      ([], .group [(Text.lit "c", .empty), (Text.lit "b", .foreign [])])] =
    .ok [(Text.lit "a", .foreign []), (Text.lit "b", .foreign []), (Text.lit "c", .empty)] := rfl

end LogStream
