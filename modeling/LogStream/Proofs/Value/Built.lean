import LogStream.Proofs.Datum.Mapping
import LogStream.Proofs.Value.Settled

/-! # Built values

A value is built (`Value.IsBuilt`) if nothing is left to do for it: it is not lazy, and neither are the
members of a group, of which there is at least one, under distinct keys that are not empty. Attributes are
built if their values are, and their keys are distinct and not empty (`AreBuilt`). No tree behind a value
holds a lazy one (`Value.isForced_settle`). -/

namespace LogStream

/-! ### Trees without lazy values -/

/-- No value in the tree is lazy. -/
inductive Settled.IsForced : Settled → Prop
  | empty : IsForced .empty
  | held {k : Kind} (h : k ≠ .lazy) (d : Datum) : IsForced (.held k d)
  | group {ms : List (Text × Settled)} (hm : ∀ a ∈ ms, IsForced a.2) : IsForced (.group ms)
  | foreign (name : Text) : IsForced (.foreign name)
  | failed (e : ResolveError) : IsForced (.failed e)

mutual

/-- **The tree behind a value holds no lazy value.** -/
theorem Value.isForced_settle : ∀ v : Value, v.settle.IsForced
  | .empty => .empty
  | .held k d => by
    by_cases hk : k = .lazy
    · subst hk
      exact Datum.isForced_settleAsked _ d _
    · rw [Value.settle_held hk]
      exact .held hk d
  | .group ms => .group (Value.isForced_settleMembers ms)
  | .foreign name => .foreign name
termination_by structural v => v

theorem Value.isForced_settleMembers : ∀ ms : List (Text × Value),
    ∀ a ∈ Value.settleMembers ms, a.2.IsForced
  | [] => List.forall_mem_nil _
  | (_, v) :: ms =>
    List.forall_mem_cons.mpr ⟨Value.isForced_settle v, Value.isForced_settleMembers ms⟩
termination_by structural ms => ms

theorem Datum.isForced_settleAsked (origin : String) : ∀ (d : Datum) (hops : Nat),
    (Datum.settleAsked origin hops d).IsForced
  | .lazy d, hops + 1 => Datum.isForced_settleGiven origin d hops
  | .lazy _, 0 => .failed _
  | .loop, hops => by cases hops <;> exact .failed _
  | .null, hops | .bool _, hops | .int _, hops | .float _, hops | .text _, hops | .bytes _, hops
  | .time _, hops | .duration _, hops | .list _, hops | .tuple _, hops | .map _, hops
  | .sealed _ _, hops | .broken, hops | .thing, hops | .value _, hops => by
    cases hops <;> exact .failed _
termination_by structural d => d

theorem Datum.isForced_settleGiven (origin : String) : ∀ (d : Datum) (hops : Nat),
    (Datum.settleGiven origin hops d).IsForced
  | .null, _ => .empty
  | .int n, _ => .held (Kind.ofInt_ne_lazy n) _
  | .map es, _ => .group (Datum.isForced_settleEntries es)
  | .value (.held k d), hops => by
    by_cases hk : k = .lazy
    · subst hk
      exact Datum.isForced_settleAsked origin d hops
    · rw [Datum.settleGiven, Value.settle_held hk]
      · exact .held hk d
      · rintro _ ⟨⟩
        exact hk rfl
  | .value .empty, _ => .empty
  | .value (.group ms), _ => .group (Value.isForced_settleMembers ms)
  | .value (.foreign name), _ => .foreign name
  | .lazy _, 0 => .failed _
  | .lazy d, hops + 1 => Datum.isForced_settleGiven origin d hops
  | .loop, _ => .failed _
  | .broken, hops => by
    rw [Datum.settleGiven]
    split <;> exact .failed _
  | .bool _, _ | .float _, _ | .text _, _ | .bytes _, _ | .time _, _ | .duration _, _
  | .list _, _ | .tuple _, _ | .sealed _ _, _ | .thing, _ => .held (by nofun) _
termination_by structural d => d

theorem Datum.isForced_settleEntries : ∀ es : List (Datum × Datum),
    ∀ a ∈ Datum.settleEntries es, a.2.IsForced
  | [] => List.forall_mem_nil _
  | (_, d) :: es => by
    have hd := Datum.isForced_settleGiven d.typeName d maxHops
    have hes := Datum.isForced_settleEntries es
    cases d with
    | value v => exact List.forall_mem_cons.mpr ⟨Value.isForced_settle v, hes⟩
    | _ => exact List.forall_mem_cons.mpr ⟨hd, hes⟩
termination_by structural es => es

end

/-! ### Built values -/

/-- Nothing is left to do for the value: it is not lazy, and no group is empty or has members under an
empty key or under the same one. -/
inductive Value.IsBuilt : Value → Prop
  | empty : IsBuilt .empty
  | held {k : Kind} (h : k ≠ .lazy) (d : Datum) : IsBuilt (.held k d)
  | foreign (name : Text) : IsBuilt (.foreign name)
  | group {ms : List Attr} (hne : ms ≠ []) (hn : (ms.map Prod.fst).Nodup)
      (hk : [] ∉ ms.map Prod.fst) (hv : ∀ a ∈ ms, IsBuilt a.2) : IsBuilt (.group ms)

/-- Built values under distinct keys that are not empty. -/
structure AreBuilt (as : List Attr) : Prop where
  nodup : (as.map Prod.fst).Nodup
  keys : [] ∉ as.map Prod.fst
  values : ∀ a ∈ as, a.2.IsBuilt

namespace AreBuilt

variable {as bs : List Attr} {key : Text} {v : Value}

theorem nil : AreBuilt [] := ⟨List.nodup_nil, nofun, nofun⟩

theorem group (h : AreBuilt as) (hne : as ≠ []) : (Value.group as).IsBuilt :=
  .group hne h.nodup h.keys h.values

theorem put (h : AreBuilt as) (hk : key ≠ []) (hv : v.IsBuilt) :
    AreBuilt (Attrs.put as key v) where
  nodup := Attrs.nodup_put h.nodup key v
  keys hnil := by
    rcases Attrs.binds_put.mp hnil with hnil | hnil
    · exact hk hnil.symm
    · exact h.keys hnil
  values a ha := by
    rcases Attrs.mem_put ha with rfl | ha
    · exact hv
    · exact h.values a ha

theorem key_ne_nil (h : AreBuilt as) : ∀ a ∈ as, a.1 ≠ [] :=
  fun _ ha hnil => h.keys (hnil ▸ List.mem_map_of_mem ha)

theorem putAll (h : AreBuilt as) (hb : AreBuilt bs) : AreBuilt (Attrs.putAll as bs) := by
  have hkeys := hb.key_ne_nil
  have hvalues := hb.values
  clear hb
  induction bs generalizing as with
  | nil => exact h
  | cons b bs ih =>
    rw [List.forall_mem_cons] at hkeys hvalues
    rw [Attrs.putAll_cons]
    exact ih (h.put hkeys.1 hvalues.1) hkeys.2 hvalues.2

end AreBuilt

end LogStream
