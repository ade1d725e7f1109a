import LogStream.Proofs.Handler.Lineage
import LogStream.Proofs.Outcome
import LogStream.Proofs.Value.Built

/-! # The normal form of attributes

Whatever attributes are merged, what comes of them is built (`areBuilt_of_merge?`), and built attributes are
merged as they are (`AreBuilt.merge?_eq`): the same keys in the same order, at every level. So what a
handler builds for a call is built, however it was derived (`Handler.areBuilt_of_buildAttrs`). To be built
is to be in normal form at each level of nesting (`AreBuilt.level`, `AreBuilt.isNormal`). -/

namespace LogStream

/-! ### What is merged is built -/

theorem areBuilt_putPlain {target : List Attr} {key : Text} {v : Value} (h : AreBuilt target)
    (hv : v.IsBuilt) : AreBuilt (putPlain target key v) := by
  unfold putPlain
  split
  · exact h
  · next hk => exact h.put hk hv

theorem areBuilt_putGroup {target ms : List Attr} {key : Text} (h : AreBuilt target)
    (hm : AreBuilt ms) : AreBuilt (putGroup target key ms) := by
  unfold putGroup
  split
  · exact h
  · next hne =>
    split
    · exact h.putAll hm
    · next hk => exact h.put hk (hm.group hne)

theorem areBuilt_mergeSettled_of_forall : ∀ {ms : List (Text × Settled)},
    (∀ a ∈ ms, ∀ target, AreBuilt target → AreBuilt (mergeOne target a.1 a.2).attrs) →
    ∀ {target : List Attr}, AreBuilt target → AreBuilt (mergeSettled target ms).attrs
  | [], _, _, ht => ht
  | (k, s) :: ms, h, target, ht => by
    rw [List.forall_mem_cons] at h
    have hfirst := h.1 target ht
    rw [mergeSettled_cons]
    split
    · exact hfirst
    · exact areBuilt_mergeSettled_of_forall h.2 hfirst

/-- A tree without lazy values that is merged leaves built attributes. -/
theorem Settled.IsForced.areBuilt_mergeOne {s : Settled} (h : s.IsForced) (key : Text) :
    ∀ target, AreBuilt target → AreBuilt (mergeOne target key s).attrs := by
  induction h generalizing key with
  | empty => exact fun _ ht => areBuilt_putPlain ht .empty
  | held hk d => exact fun _ ht => areBuilt_putPlain ht (.held hk d)
  | foreign name => exact fun _ ht => areBuilt_putPlain ht (.foreign name)
  | failed e => exact fun _ ht => ht
  | @group ms _ ih =>
    intro target ht
    have hms : AreBuilt (mergeSettled [] ms).attrs :=
      areBuilt_mergeSettled_of_forall (fun a ha => ih a ha a.1) .nil
    rw [mergeOne]
    split
    · exact ht
    · exact areBuilt_putGroup ht hms

/-- **What is merged is built.** -/
theorem areBuilt_of_merge? {target attrs as : List Attr} (ht : AreBuilt target)
    (h : merge? target attrs = .ok as) : AreBuilt as := by
  have hmerged : AreBuilt (mergeSettled target (Value.settleMembers attrs)).attrs :=
    areBuilt_mergeSettled_of_forall
      (fun a ha => (Value.isForced_settleMembers attrs a ha).areBuilt_mergeOne a.1) ht
  rw [merge?_eq_toExcept] at h
  unfold Merged.toExcept at h
  split at h
  · cases h
  · cases h
    exact hmerged

/-! ### What is built is merged as it is -/

/-- Values that are merged as they are one by one are so one after the other. -/
theorem mergeSettled_settleMembers : ∀ {as : List Attr} {target : List Attr},
    (∀ a ∈ as, ∀ target, mergeOne target a.1 a.2.settle = ⟨Attrs.put target a.1 a.2, none⟩) →
    mergeSettled target (Value.settleMembers as) = ⟨Attrs.putAll target as, none⟩
  | [], _, _ => rfl
  | (k, v) :: as, target, h => by
    rw [List.forall_mem_cons] at h
    rw [Value.settleMembers, mergeSettled_cons, h.1, if_neg nofun, mergeSettled_settleMembers h.2,
      Attrs.putAll_cons]

theorem Value.IsBuilt.mergeOne_eq {v : Value} (h : v.IsBuilt) {key : Text} (hkey : key ≠ []) :
    ∀ target, mergeOne target key v.settle = ⟨Attrs.put target key v, none⟩ := by
  induction h generalizing key with
  | empty =>
    intro target
    rw [Value.settle, mergeOne, putPlain, if_neg hkey]
  | held hk d =>
    intro target
    rw [Value.settle_held hk, mergeOne, putPlain, if_neg hkey]
  | foreign name =>
    intro target
    rw [Value.settle, mergeOne, putPlain, if_neg hkey]
  | @group ms hne hn hk hv ih =>
    intro target
    have hkeys := (AreBuilt.mk hn hk hv).key_ne_nil
    have hmerged : mergeSettled [] (Value.settleMembers ms) = ⟨ms, none⟩ := by
      rw [mergeSettled_settleMembers fun a ha => ih a ha (hkeys a ha), Attrs.putAll_nil_left hn]
    rw [Value.settle, mergeOne, hmerged]
    dsimp only
    rw [putGroup, if_neg hne, if_neg hkey]

/-- **Built attributes are merged as they are.** -/
theorem AreBuilt.merge?_eq {as : List Attr} (h : AreBuilt as) : merge? [] as = .ok as := by
  rw [merge?_eq_toExcept,
    mergeSettled_settleMembers fun a ha => (h.values a ha).mergeOne_eq (h.key_ne_nil a ha),
    Attrs.putAll_nil_left h.nodup]
  rfl

/-! ### Levels -/

/-- The attributes at some level of nesting: those given, and the members of each group among them. -/
inductive Attrs.LevelOf (as : List Attr) : List Attr → Prop
  | top : LevelOf as as
  | inside {bs ms : List Attr} {key : Text} (h : LevelOf as bs) (hm : (key, .group ms) ∈ bs) :
      LevelOf as ms

/-- No key is empty or bound twice, no value is lazy and no group is without members. -/
structure Attrs.IsNormal (bs : List Attr) : Prop where
  keys_nodup : (bs.map Prod.fst).Nodup
  key_ne_nil : ∀ b ∈ bs, b.1 ≠ []
  not_lazy : ∀ b ∈ bs, ∀ d, b.2 ≠ .held .lazy d
  not_empty : ∀ b ∈ bs, b.2 ≠ .group []

namespace AreBuilt

variable {as bs : List Attr}

/-- What is built is built at each level. -/
theorem level (h : AreBuilt as) (hl : Attrs.LevelOf as bs) : AreBuilt bs := by
  induction hl with
  | top => exact h
  | inside _ hm ih =>
    cases ih.values _ hm with
    | group _ hn hk hv => exact ⟨hn, hk, hv⟩

theorem isNormal (h : AreBuilt bs) : Attrs.IsNormal bs where
  keys_nodup := h.nodup
  key_ne_nil := h.key_ne_nil
  not_lazy b hb d hd := by
    have hbuilt := h.values b hb
    rw [hd] at hbuilt
    cases hbuilt with
    | held hk => exact hk rfl
  not_empty b hb hempty := by
    have hbuilt := h.values b hb
    rw [hempty] at hbuilt
    cases hbuilt with
    | group hne => exact hne rfl

end AreBuilt

/-! ### What handlers build -/

namespace Handler

/-- **What a derived handler builds for a call is built.** -/
theorem areBuilt_of_buildAttrs {level : LevelMark} {steps : List Derivation} {call as : List Attr}
    (h : (steps.foldl Handler.derive { level }).buildAttrs call = .ok as) : AreBuilt as := by
  have hsteps := steps_foldl_derive steps { level }
  have hbuild := build_follow call (steps.filter (!·.isIdle)) {} fun d hd => by
    simpa using (List.mem_filter.mp hd).2
  unfold buildAttrs at h
  rw [hsteps] at h
  obtain ⟨built, hmerge, rfl⟩ := exists_of_map_eq_ok (hbuild.symm.trans h)
  exact areBuilt_of_merge? .nil hmerge

/-- **What a handler builds is in normal form and is merged as it is.** However the handler was derived,
at no level of what it builds for a call is a key empty or bound twice, a value lazy or a group without
members; and the attributes that were built, merged on their own, are the same with the same order of
keys at every level. -/
theorem normalForm_of_buildAttrs {level : LevelMark} {steps : List Derivation} {call as : List Attr}
    (h : (steps.foldl Handler.derive { level }).buildAttrs call = .ok as) :
    (∀ bs, Attrs.LevelOf as bs → Attrs.IsNormal bs) ∧ merge? [] as = .ok as := by
  have hbuilt := areBuilt_of_buildAttrs h
  exact ⟨fun bs hlevel => (hbuilt.level hlevel).isNormal, hbuilt.merge?_eq⟩

/-- A handler with a group that is open behind lazy attributes: one hides a group with a lazy member, one
an empty group. -/
def unfoldingSteps : List Derivation :=
  [.attrs [(Text.lit "u", .held .lazy (.lazy (.map [(.text (Text.lit "id"), .lazy (.int 7))]))),
    (Text.lit "e", .held .lazy (.lazy (.map [])))], .group (Text.lit "g")]

/-- A call with a key that is given twice, a group under an empty key and a group of empty groups. -/
def unfoldingCall : List Attr :=
  [(Text.lit "n", .empty), (Text.lit "n", .held .bool (.bool true)), ([], .held .int (.int 1)),
    ([], .group [(Text.lit "m", .held .lazy (.lazy .null)), ([], .empty)]),
    (Text.lit "x", .group [(Text.lit "y", .group [])])]

/-- What is built for it. -/
def unfoldedAttrs : List Attr :=
  [(Text.lit "u", .group [(Text.lit "id", .held .int (.int 7))]),
    (Text.lit "g", .group [(Text.lit "n", .held .bool (.bool true)), (Text.lit "m", .empty)])]

theorem normalForm_of_buildAttrs_unfolding :
    (unfoldingSteps.foldl Handler.derive {}).buildAttrs unfoldingCall = .ok unfoldedAttrs ∧
      (∀ bs, Attrs.LevelOf unfoldedAttrs bs → Attrs.IsNormal bs) ∧
      merge? [] unfoldedAttrs = .ok unfoldedAttrs := by
  have hbuild : (unfoldingSteps.foldl Handler.derive {}).buildAttrs unfoldingCall =
      .ok unfoldedAttrs := rfl
  exact ⟨hbuild, normalForm_of_buildAttrs hbuild⟩

/-- A root merges the attributes of a call. -/
theorem buildAttrs_root (level : LevelMark) (call : List Attr) :
    ({ level } : Handler).buildAttrs call = merge? [] call := by
  refine (build_follow call [] {} nofun).trans ?_
  rw [nested]
  cases merge? [] call <;> rfl

end Handler

end LogStream
