import LogStream.Value.Resolve

/-! # Settled values

The trees behind the members of a group are found member by member (`Value.settleMembers_eq_map`),
and the tree behind a value is the one behind what it resolves to (`Value.settle_eq_ofResolved`): to
settle a value is to resolve all the way down. A settled value is regular if its payloads have the
types of their kinds and the keys of its groups are distinct (`Settled.IsRegular`);
`Settled.nesting` is how deep messages are nested that hold it. -/

namespace LogStream

theorem Value.settleMembers_eq_map : ∀ ms : List Attr,
    Value.settleMembers ms = ms.map fun a => (a.1, a.2.settle)
  | [] => rfl
  | (k, v) :: ms => by rw [Value.settleMembers, Value.settleMembers_eq_map ms, List.map_cons]

theorem Value.settleMembers_append (as bs : List Attr) :
    Value.settleMembers (as ++ bs) = Value.settleMembers as ++ Value.settleMembers bs := by
  rw [settleMembers_eq_map, settleMembers_eq_map, settleMembers_eq_map, List.map_append]

theorem Value.map_fst_settleMembers (ms : List Attr) :
    (Value.settleMembers ms).map Prod.fst = ms.map Prod.fst := by
  rw [settleMembers_eq_map, List.map_map]
  rfl

/-! ### What a value resolves to -/

/-- The tree behind what a value resolves to, or the failure in its place. -/
def Settled.ofResolved : Except ResolveError Value → Settled
  | .ok v => v.settle
  | .error e => .failed e

theorem Kind.ofInt_ne_lazy (n : Int) : Kind.ofInt n ≠ .lazy := by
  unfold Kind.ofInt
  split
  · nofun
  · split <;> nofun

namespace Value

theorem settle_held {k : Kind} (h : k ≠ .lazy) (d : Datum) : (held k d).settle = .held k d := by
  cases k with
  | lazy => exact absurd rfl h
  | _ => rfl

theorem resolveFrom_held {k : Kind} (h : k ≠ .lazy) (origin : String) (hops : Nat) (d : Datum) :
    resolveFrom origin hops (held k d) = .ok (held k d) := by
  cases k with
  | lazy => exact absurd rfl h
  | _ => cases hops <;> rfl

theorem resolveFrom_loop (origin : String) : ∀ hops : Nat,
    resolveFrom origin hops (held .lazy .loop) = .error (.endless origin)
  | 0 => rfl
  | hops + 1 => resolveFrom_loop origin hops

mutual

/-- A datum that is no value is settled as if it had been given by a lazy value of its type. -/
theorem settle_ofDatum : ∀ d : Datum, (∀ v, d ≠ .value v) →
    (ofDatum d).settle = Datum.settleGiven d.typeName maxHops d
  | .map es, _ => by rw [ofDatum, settle, Datum.settleGiven, settleMembers_membersOf es]
  | .value v, h => absurd rfl (h v)
  | .int n, _ => settle_held (Kind.ofInt_ne_lazy n) _
  | .null, _ | .bool _, _ | .float _, _ | .text _, _ | .bytes _, _ | .time _, _ | .duration _, _
  | .list _, _ | .tuple _, _ | .sealed _ _, _ | .lazy _, _ | .loop, _ | .broken, _
  | .thing, _ => rfl

theorem settleMembers_membersOf : ∀ es : List (Datum × Datum),
    settleMembers (membersOf es) = Datum.settleEntries es
  | [] => rfl
  | (k, d) :: es => by
    have hd := settle_ofDatum d
    rw [membersOf, settleMembers, settleMembers_membersOf es]
    cases d with
    | value v => rfl
    | _ => rw [hd nofun]; rfl

end

mutual

theorem settleAsked_eq (origin : String) : ∀ (d : Datum) (hops : Nat),
    Datum.settleAsked origin hops d = .ofResolved (resolveFrom origin hops (held .lazy d))
  | .lazy d, hops + 1 => settleGiven_eq origin d hops
  | .lazy _, 0 => rfl
  | .loop, hops => by
    rw [resolveFrom_loop]
    cases hops <;> rfl
  | .null, hops | .bool _, hops | .int _, hops | .float _, hops | .text _, hops | .bytes _, hops
  | .time _, hops | .duration _, hops | .list _, hops | .tuple _, hops | .map _, hops
  | .sealed _ _, hops | .broken, hops | .thing, hops | .value _, hops => by cases hops <;> rfl

theorem settleGiven_eq (origin : String) : ∀ (d : Datum) (hops : Nat),
    Datum.settleGiven origin hops d = .ofResolved (resolveFrom origin hops (ofDatum d))
  | .map es, hops => by
    rw [ofDatum, Datum.settleGiven, ← settleMembers_membersOf es]
    cases hops <;> rfl
  | .int n, hops => by
    rw [ofDatum, resolveFrom_held (Kind.ofInt_ne_lazy n)]
    exact (settle_held (Kind.ofInt_ne_lazy n) _).symm
  | .value (.held k d), hops => by
    have hd := settleAsked_eq origin d hops
    by_cases hk : k = .lazy
    · subst hk
      exact hd
    · rw [ofDatum, resolveFrom_held hk]
      cases k with
      | lazy => exact absurd rfl hk
      | _ => rfl
  | .lazy d, hops + 1 => settleGiven_eq origin d hops
  | .lazy _, 0 => rfl
  | .loop, hops => by
    rw [ofDatum, resolveFrom_loop]
    rfl
  | .value .empty, hops | .value (.group _), hops | .value (.foreign _), hops | .broken, hops
  | .null, hops | .bool _, hops | .float _, hops | .text _, hops | .bytes _, hops | .time _, hops
  | .duration _, hops | .list _, hops | .tuple _, hops | .sealed _ _, hops
  | .thing, hops => by cases hops <;> rfl

end

/-- **The tree behind a value is the tree behind what it resolves to**, or the failure in its
place. -/
theorem settle_eq_ofResolved (v : Value) : v.settle = .ofResolved v.resolve := by
  unfold resolve
  cases v with
  | empty => rfl
  | group ms => rfl
  | foreign name => rfl
  | held k d =>
    by_cases hk : k = .lazy
    · subst hk
      exact settleAsked_eq d.typeName d maxHops
    · rw [resolveFrom_held hk]
      rfl

theorem ne_lazy_of_resolve {v : Value} {k : Kind} {d : Datum} (h : v.resolve = .ok (held k d)) :
    k ≠ .lazy := by
  unfold resolve at h
  generalize v.payload.typeName = origin at h
  generalize maxHops = hops at h
  fun_induction resolveFrom origin hops v <;> simp_all

/-- What a value resolves to resolves to itself. -/
theorem resolve_of_resolve {v w : Value} (h : v.resolve = .ok w) : w.resolve = .ok w := by
  cases w with
  | held k d => exact resolveFrom_held (ne_lazy_of_resolve h) _ maxHops d
  | _ => rfl

end Value

/-! ### Regular values -/

/-- The payload has the type of the kind. -/
inductive Kind.Holds : Kind → Datum → Prop
  | bool (b : Bool) : Holds .bool (.bool b)
  | int (n : Int) : Holds .int (.int n)
  | uint (n : Int) : Holds .uint (.int n)
  | float (x : Double) : Holds .float (.float x)
  | string (t : Text) : Holds .string (.text t)
  | time (t : Time) : Holds .time (.time t)
  | duration (d : Duration) : Holds .duration (.duration d)
  | any (d : Datum) : Holds .any d

namespace Settled

/-- Every payload has the type of its kind, and the keys of every group are distinct. Failed and
foreign values are never written. -/
inductive IsRegular : Settled → Prop
  | empty : IsRegular .empty
  | held {k : Kind} {d : Datum} (h : k.Holds d) : IsRegular (.held k d)
  | group {ms : List (Text × Settled)} (hn : (ms.map Prod.fst).Nodup)
      (hm : ∀ a ∈ ms, IsRegular a.2) : IsRegular (.group ms)
  | foreign (name : Text) : IsRegular (.foreign name)
  | failed (e : ResolveError) : IsRegular (.failed e)

theorem isRegular_settle_group_iff {as : List Attr} : (Value.group as).settle.IsRegular ↔
    (as.map Prod.fst).Nodup ∧ ∀ a ∈ as, a.2.settle.IsRegular := by
  rw [Value.settle, ← Value.map_fst_settleMembers as, Value.settleMembers_eq_map]
  constructor
  · rintro (_ | _ | ⟨hn, hm⟩)
    exact ⟨hn, fun a ha => hm _ (List.mem_map_of_mem ha)⟩
  · exact fun h => .group h.1 (List.forall_mem_map.mpr h.2)

mutual

/-- How deep messages are nested below the message of a value. -/
def nesting : Settled → Nat
  | .held .time _ => 1
  | .held .duration _ => 1
  | .held .any _ => 1
  | .group ms => 1 + nestingBelow ms
  | _ => 0
termination_by structural s => s

/-- How deep messages are nested below the message that holds some values under keys: each entry is
a message, and so is the value in it. -/
def nestingBelow : List (Text × Settled) → Nat
  | [] => 0
  | (_, s) :: ms => max (2 + nesting s) (nestingBelow ms)
termination_by structural ms => ms

end

theorem nesting_le_of_mem {a : Text × Settled} : ∀ {ms : List (Text × Settled)}, a ∈ ms →
    2 + a.2.nesting ≤ nestingBelow ms
  | (k, s) :: ms, h => by
    unfold nestingBelow
    rcases List.mem_cons.mp h with rfl | h
    · exact Nat.le_max_left ..
    · exact Nat.le_trans (nesting_le_of_mem h) (Nat.le_max_right ..)

end Settled

end LogStream
