import LogStream.Proofs.Value.Built
import LogStream.Proofs.Wire.Acceptance

/-! # Canonical members

Of the members that can be read back, the canonical ones (`Member.IsCanonical`) are those that a built value
leaves (`Value.IsBuilt.isCanonical_of_fill`). They are read as built values that fill just these members
again (`Member.IsCanonical.restores`): whatever the types of the payloads were, nothing changes from here
on. -/

namespace LogStream

namespace Wire

theorem Stamp.ofTime?_of_instant {t u : Time} (h : u.instant = t.instant) :
    ofTime? u = ofTime? t := by
  unfold ofTime? Time.toUtc?
  rw [h]

/-! ### Canonical members -/

/-- A member that a built value leaves: its numbers have 64 bits, its texts have an encoding, its stamp is
that of a time or a duration, and no group is empty or has attributes under an empty key or under the same
one. -/
inductive Member.IsCanonical : Member → Prop
  | unset : IsCanonical .unset
  | bool (b : Bool) : IsCanonical (.bool b)
  | float (x : Double) : IsCanonical (.float x)
  | int {n : Int} (h : int64Min ≤ n ∧ n ≤ int64Max) : IsCanonical (.int n)
  | uint {n : Nat} (h : (n : Int) ≤ uint64Max) : IsCanonical (.uint n)
  | string {t : Text} (h : (Utf8.encode? t).isSome) : IsCanonical (.string t)
  | time {t : Time} {s : Stamp} (h : Stamp.ofTime? t = some s) : IsCanonical (.time s)
  | duration (d : Duration) : IsCanonical (.duration (Stamp.ofDuration d))
  | any {tag : Text} (data : Bytes) (h : (Utf8.encode? tag).isSome) : IsCanonical (.any tag data)
  | group {as : List (Text × Member)} (hne : as ≠ []) (hn : (as.map Prod.fst).Nodup)
      (hnil : [] ∉ as.map Prod.fst) (hk : ∀ a ∈ as, (Utf8.encode? a.1).isSome)
      (hm : ∀ a ∈ as, IsCanonical a.2) : IsCanonical (.group as)

/-- **A payload of any type leaves a canonical member.** -/
theorem isCanonical_of_fillHeld {key : Text} {k : Kind} {d : Datum} {m : Member}
    (h : fillHeld key .unset k d = .ok m) : m.IsCanonical := by
  cases k with
  | bool =>
    obtain ⟨b, -, rfl⟩ := Option.map_eq_some_iff.mp (eq_some_of_elim_eq_ok h)
    exact .bool b
  | int =>
    obtain ⟨n, hn, rfl⟩ := Option.map_eq_some_iff.mp (eq_some_of_elim_eq_ok h)
    exact .int (integer?_bounds hn)
  | uint =>
    obtain ⟨n, hn, rfl⟩ := Option.map_eq_some_iff.mp (eq_some_of_elim_eq_ok h)
    obtain ⟨hlow, hhigh⟩ := integer?_bounds hn
    exact .uint (by rwa [Int.toNat_of_nonneg hlow])
  | float =>
    obtain ⟨x, -, rfl⟩ := Option.map_eq_some_iff.mp (eq_some_of_elim_eq_ok h)
    exact .float x
  | string =>
    obtain ⟨t, ht, rfl⟩ := Option.map_eq_some_iff.mp (eq_some_of_elim_eq_ok h)
    exact .string (isSome_encode?_of_text? ht)
  | time =>
    cases d with
    | time t =>
      obtain ⟨s, hs, rfl⟩ := Option.map_eq_some_iff.mp (eq_some_of_elim_eq_ok h)
      exact .time hs
    | _ => cases h
  | duration =>
    cases d with
    | duration d =>
      cases h
      exact .duration d
    | _ => cases h
  | any =>
    obtain ⟨p, -, h⟩ := exists_of_bind_eq_ok h
    obtain ⟨tag, ht, rfl⟩ := Option.map_eq_some_iff.mp (eq_some_of_elim_eq_ok h)
    obtain ⟨htag, rfl⟩ := encodable?_eq_some ht
    exact .any p.data htag
  | lazy =>
    cases h
    exact .unset

/-- Values that leave canonical members do so under distinct keys, which have an encoding. -/
theorem isCanonical_of_fillEach {named : Text → Text} {ms : List Attr} {as : List (Text × Member)}
    (hn : (ms.map Prod.fst).Nodup)
    (hm : ∀ a ∈ ms, ∀ {key m}, fill key .unset a.2.settle = .ok m → m.IsCanonical)
    (h : fillEach named [] (Value.settleMembers ms) = .ok as) :
    as.map Prod.fst = ms.map Prod.fst ∧
      ∀ a ∈ as, (Utf8.encode? a.1).isSome ∧ a.2.IsCanonical := by
  obtain ⟨hkeys, hfilled⟩ := fillEach_eq_ok (by rwa [Value.map_fst_settleMembers]) h
  rw [Value.map_fst_settleMembers] at hkeys
  refine ⟨hkeys, fun a ha => ?_⟩
  rcases hfilled a ha with ha | ⟨henc, s, hs, hfill⟩
  · cases ha
  · rw [Value.settleMembers_eq_map] at hs
    obtain ⟨b, hb, hbs⟩ := List.mem_map.mp hs
    obtain ⟨-, rfl⟩ := Prod.mk.inj hbs
    exact ⟨henc, hm b hb hfill⟩

end Wire

open Wire

/-- **A built value leaves a canonical member.** -/
theorem Value.IsBuilt.isCanonical_of_fill {v : Value} (hv : v.IsBuilt) :
    ∀ {key : Text} {m : Member}, fill key .unset v.settle = .ok m → m.IsCanonical := by
  induction hv with
  | empty =>
    intro key m h
    cases h
    exact .unset
  | held hk d =>
    intro key m h
    rw [settle_held hk] at h
    exact isCanonical_of_fillHeld h
  | foreign name =>
    intro key m h
    cases h
  | @group ms hne hn hnil hv ih =>
    intro key m h
    rw [settle, fill, fillGroup_eq_fillEach] at h
    obtain ⟨as, has, rfl⟩ := exists_of_map_eq_ok h
    obtain ⟨hkeys, hmember⟩ := isCanonical_of_fillEach hn (fun a ha => ih a ha) has
    refine .group ?_ (hkeys ▸ hn) (hkeys ▸ hnil) (fun a ha => (hmember a ha).1)
      fun a ha => (hmember a ha).2
    rintro rfl
    exact hne (List.map_eq_nil_iff.mp hkeys.symm)

namespace Wire

/-- The member with the attributes of its groups in order is canonical as well. -/
theorem Member.IsCanonical.ordered {m : Member} (h : m.IsCanonical) : m.ordered.IsCanonical := by
  induction h with
  | @group as hne hn hnil hk hm ih =>
    have ho : (Member.group as).ordered = .group (inOrder as) := rfl
    rw [ho]
    refine .group ?_ (nodup_inOrder hn) (fun h => hnil ((map_fst_inOrder_perm as).mem_iff.mp h)) ?_ ?_
    · intro hempty
      have hlength := (map_fst_inOrder_perm as).length_eq
      rw [hempty, List.length_map, List.length_map, List.length_nil] at hlength
      exact hne (List.length_eq_zero_iff.mp hlength.symm)
    · intro b hb
      obtain ⟨a, ha, rfl⟩ := mem_inOrder hb
      exact hk a ha
    · intro b hb
      obtain ⟨a, ha, rfl⟩ := mem_inOrder hb
      exact ih a ha
  | unset => exact .unset
  | bool b => exact .bool b
  | float x => exact .float x
  | int h => exact .int h
  | uint h => exact .uint h
  | string h => exact .string h
  | time h => exact .time h
  | duration d => exact .duration d
  | any data h => exact .any data h

/-! ### Values of canonical members -/

/-- The value is built, and fills the member, whatever attribute an error would have named. -/
structure Restores (v : Value) (m : Member) : Prop where
  built : v.IsBuilt
  fill_eq : ∀ key, fill key .unset v.settle = .ok m

theorem restores_held {k : Kind} {d : Datum} {m : Member} (hk : k ≠ .lazy)
    (h : ∀ key, fillHeld key .unset k d = .ok m) : Restores (.held k d) m where
  built := .held hk d
  fill_eq key := by
    rw [Value.settle_held hk]
    exact h key

/-- The values are under the same keys as the members that they fill. -/
def AllRestore (vs : List Attr) (as : List (Text × Member)) : Prop :=
  List.Forall₂ (fun v a => v.1 = a.1 ∧ Restores v.2 a.2) vs as

namespace AllRestore

variable {vs : List Attr} {as : List (Text × Member)}

theorem map_fst (h : AllRestore vs as) : vs.map Prod.fst = as.map Prod.fst := by
  induction h with
  | nil => rfl
  | cons hva _ ih => rw [List.map_cons, List.map_cons, hva.1, ih]

theorem built (h : AllRestore vs as) : ∀ v ∈ vs, v.2.IsBuilt := by
  induction h with
  | nil => exact List.forall_mem_nil _
  | cons hva _ ih => exact List.forall_mem_cons.mpr ⟨hva.2.built, ih⟩

/-- Values that are read from members fill these, if they do so one by one. -/
theorem of_toValues : ∀ {as : List (Text × Member)} {vs : List Attr},
    (∀ a ∈ as, ∀ {v}, a.2.toValue = .ok v → Restores v a.2) → Member.toValues as = .ok vs →
    AllRestore vs as
  | [], _, _, h => by
    cases h
    exact .nil
  | (k, m) :: as, _, hm, h => by
    rw [List.forall_mem_cons] at hm
    obtain ⟨v, hv, h⟩ := exists_of_bind_eq_ok h
    obtain ⟨vs, hvs, h⟩ := exists_of_bind_eq_ok h
    cases h
    exact .cons ⟨rfl, hm.1 hv⟩ (of_toValues hm.2 hvs)

/-- **Values fill their members one after the other**, under distinct keys that have an encoding. -/
theorem fillEach_append (h : AllRestore vs as) (named : Text → Text) :
    ∀ {done : List (Text × Member)}, (done.map Prod.fst ++ as.map Prod.fst).Nodup →
    (∀ a ∈ as, (Utf8.encode? a.1).isSome) →
    fillEach named done (Value.settleMembers vs) = .ok (done ++ as) := by
  induction h with
  | nil =>
    intro done _ _
    rw [List.append_nil]
    rfl
  | @cons v a vs as hva _ ih =>
    intro done hn hk
    obtain ⟨k, m⟩ := a
    obtain ⟨k', w⟩ := v
    obtain ⟨rfl, hrestores⟩ := hva
    rw [List.forall_mem_cons] at hk
    have hfree : ¬ Attrs.Binds done k' := fun hb =>
      (List.nodup_append.mp hn).2.2 k' hb k' List.mem_cons_self rfl
    have hn' : ((done ++ [(k', m)]).map Prod.fst ++ as.map Prod.fst).Nodup := by simpa using hn
    have hrest := ih hn' hk.2
    rw [List.append_assoc, List.singleton_append] at hrest
    rw [Value.settleMembers, fillEach, encodable?_of_isSome hk.1]
    simp only [Attrs.lookup_of_not_binds hfree, Option.getD_none, hrestores.fill_eq,
      Attrs.put_of_not_binds hfree]
    exact hrest

theorem fillEach_eq (h : AllRestore vs as) (hn : (as.map Prod.fst).Nodup)
    (hk : ∀ a ∈ as, (Utf8.encode? a.1).isSome) (named : Text → Text) :
    fillEach named [] (Value.settleMembers vs) = .ok as :=
  h.fillEach_append named hn hk

theorem areBuilt (h : AllRestore vs as) (hn : (as.map Prod.fst).Nodup)
    (hnil : [] ∉ as.map Prod.fst) : AreBuilt vs :=
  ⟨h.map_fst ▸ hn, h.map_fst ▸ hnil, h.built⟩

end AllRestore

/-- **The value of a canonical member fills this member again.** -/
theorem Member.IsCanonical.restores {m : Member} (h : m.IsCanonical) :
    ∀ {v : Value}, m.toValue = .ok v → Restores v m := by
  induction h with
  | unset =>
    rintro v ⟨⟩
    exact ⟨.empty, fun _ => rfl⟩
  | bool b =>
    rintro v ⟨⟩
    exact restores_held (by decide) fun _ => rfl
  | float x =>
    rintro v ⟨⟩
    exact restores_held (by decide) fun _ => rfl
  | @int n h =>
    rintro v ⟨⟩
    refine restores_held (by decide) fun key => ?_
    rw [fillHeld, integer?, if_pos h]
    rfl
  | @uint n h =>
    rintro v ⟨⟩
    refine restores_held (by decide) fun key => ?_
    rw [fillHeld, integer?, if_pos ⟨Int.natCast_nonneg n, h⟩]
    rfl
  | @string t h =>
    rintro v ⟨⟩
    refine restores_held (by decide) fun key => ?_
    rw [fillHeld, text?, encodable?_of_isSome h]
    rfl
  | @time t s h =>
    intro v hv
    obtain ⟨u, hu, -, hi⟩ := Stamp.toTime?_of_ofTime? h
    rw [toValue, hu] at hv
    cases hv
    refine restores_held (by decide) fun key => ?_
    rw [fillHeld, Stamp.ofTime?_of_instant hi, h]
    rfl
  | duration d =>
    intro v hv
    rw [toValue, Stamp.toDuration?_ofDuration] at hv
    cases hv
    exact restores_held (by decide) fun _ => rfl
  | @any tag data h =>
    rintro v ⟨⟩
    refine restores_held (by decide) fun key => ?_
    rw [fillHeld, sealPayload, ok_bind, encodable?_of_isSome h]
    rfl
  | @group as hne hn hnil hk _ ih =>
    intro v hv
    obtain ⟨vs, hvs, rfl⟩ := exists_of_map_eq_ok hv
    have hall := AllRestore.of_toValues ih hvs
    refine ⟨(hall.areBuilt hn hnil).group ?_, fun key => ?_⟩
    · rintro rfl
      exact hne (List.forall₂_nil_left_iff.mp hall)
    · rw [Value.settle, fill, fillGroup_eq_fillEach, groupAttrs, hall.fillEach_eq hn hk]
      · rfl
      · exact fun _ h => Member.noConfusion h

end Wire

end LogStream
