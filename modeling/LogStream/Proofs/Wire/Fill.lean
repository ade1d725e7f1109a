import Mathlib.Data.List.Nodup
import LogStream.Proofs.Value.Settled
import LogStream.Proofs.Wire.Stamp

/-! # Values through the wire

A value whose payloads have the types of their kinds (`Settled.IsRegular`) is filled into a member
that can be written and is read back as the same value in its canonical form (`Settled.ReadsAs`):
this is `writtenAs_of_fill`. It follows the tree of the value. The attributes of a group and those
of a record are filled by one and the same loop (`fillEach`), and of distinct keys each one is
filled by itself (`fillEach_eq_ok`). -/

namespace LogStream

/-! ### Canonical values -/

/-- A kind whose payloads are read back as they are. -/
def Kind.isKept : Kind → Bool
  | .time => false
  | .any => false
  | .lazy => false
  | _ => true

/-- The canonical form of a value, in which it is read back: a time in UTC, a payload of the kind
any sealed, as it is or as compact JSON under a tag with the name of its type, the members of a
group in any order. -/
inductive Settled.ReadsAs : Settled → Value → Prop
  | empty : ReadsAs .empty .empty
  | kept {k : Kind} (h : k.isKept = true) (d : Datum) : ReadsAs (.held k d) (.held k d)
  | time {t u : Time} (ho : u.offset = some 0) (hi : u.instant = t.instant) :
      ReadsAs (.held .time (.time t)) (.held .time (.time u))
  | sealed (tag : Text) (data : Bytes) :
      ReadsAs (.held .any (.sealed tag data)) (.held .any (.sealed tag data))
  | json {d : Datum} {t : Text} (h : Json.print .compact d = .ok t) :
      ReadsAs (.held .any d) (.held .any (.sealed (Wire.typeTag d) (Utf8.encodeAll t)))
  | group {ms : List (Text × Settled)} {ns : List Attr}
      (hk : (ns.map Prod.fst).Perm (ms.map Prod.fst))
      (hv : ∀ k s v, (k, s) ∈ ms → (k, v) ∈ ns → ReadsAs s v) : ReadsAs (.group ms) (.group ns)

namespace Wire

/-! ### Filling attributes -/

/-- Fills values under keys one after the other; an error names the attribute that `named` gives for
the key. -/
def fillEach (named : Text → Text) (attrs : List (Text × Member)) :
    List (Text × Settled) → Except EncodeError (List (Text × Member))
  | [] => .ok attrs
  | (k, s) :: ms =>
    match encodable? k with
    | none => .error (.atKey (named k))
    | some k => do
      let m ← fill (named k) ((attrs.lookup k).getD .unset) s
      fillEach named (Attrs.put attrs k m) ms

theorem fillGroup_eq_fillEach (key : Text) : ∀ (attrs : List (Text × Member))
    (ms : List (Text × Settled)), fillGroup key attrs ms = fillEach (fun _ => key) attrs ms
  | _, [] => rfl
  | attrs, (k, s) :: ms => by
    rw [fillGroup, fillEach]
    cases encodable? k with
    | none => rfl
    | some k' => simp only [fillGroup_eq_fillEach key _ ms]

theorem fillAttrs_eq_fillEach : ∀ (start : List (Text × Member)) (attrs : List Attr),
    fillAttrs start attrs = fillEach id start (Value.settleMembers attrs)
  | _, [] => rfl
  | start, (k, v) :: attrs => by
    have ih := fun start => fillAttrs_eq_fillEach start attrs
    unfold fillAttrs at ih ⊢
    rw [Value.settleMembers, fillEach, List.foldlM_cons]
    simp only [← ih]
    cases hk : encodable? k with
    | none => rfl
    | some k' =>
      simp only [id]
      cases fill k' ((start.lookup k').getD .unset) v.settle with
      | error e => rfl
      | ok m => rfl

theorem encodable?_eq_some {k k' : Text} (h : encodable? k = some k') :
    (Utf8.encode? k).isSome ∧ k' = k := by
  unfold encodable? at h
  split at h
  · exact ⟨‹_›, (Option.some.inj h).symm⟩
  · cases h

theorem encodable?_of_isSome {t : Text} (h : (Utf8.encode? t).isSome) : encodable? t = some t :=
  if_pos h

/-- **Under distinct keys each value is filled by itself.** -/
theorem fillEach_eq_ok {named : Text → Text} : ∀ {ms : List (Text × Settled)}
    {attrs as : List (Text × Member)}, (attrs.map Prod.fst ++ ms.map Prod.fst).Nodup →
      fillEach named attrs ms = .ok as →
      as.map Prod.fst = attrs.map Prod.fst ++ ms.map Prod.fst ∧
      ∀ a ∈ as, a ∈ attrs ∨ (Utf8.encode? a.1).isSome ∧
        ∃ s, (a.1, s) ∈ ms ∧ fill (named a.1) .unset s = .ok a.2
  | [], attrs, as, _, h => by
    cases h
    exact ⟨(List.append_nil _).symm, fun a ha => Or.inl ha⟩
  | (k, s) :: ms, attrs, as, hn, h => by
    rw [fillEach] at h
    cases hk : encodable? k with
    | none => rw [hk] at h; cases h
    | some k' =>
      obtain ⟨henc, rfl⟩ := encodable?_eq_some hk
      have hfree : ¬ Attrs.Binds attrs k' := fun hb =>
        (List.nodup_append.mp hn).2.2 k' hb k' List.mem_cons_self rfl
      have hlookup := Attrs.lookup_of_not_binds hfree
      rw [hk] at h
      simp only [hlookup, Option.getD_none, Attrs.put_of_not_binds hfree] at h
      cases hm : fill (named k') .unset s with
      | error e => rw [hm] at h; cases h
      | ok m =>
        rw [hm] at h
        have hn' : ((attrs ++ [(k', m)]).map Prod.fst ++ ms.map Prod.fst).Nodup := by simpa using hn
        obtain ⟨hkeys, hfilled⟩ := fillEach_eq_ok hn' h
        rw [List.map_append, List.append_assoc] at hkeys
        refine ⟨hkeys, fun a ha => ?_⟩
        rcases hfilled a ha with ha | ⟨hae, s', hs', has⟩
        · rcases List.mem_append.mp ha with ha | ha
          · exact Or.inl ha
          · obtain rfl := List.mem_singleton.mp ha
            exact Or.inr ⟨henc, s, List.mem_cons_self, hm⟩
        · exact Or.inr ⟨hae, s', List.mem_cons_of_mem _ hs', has⟩

/-! ### Reading members -/

theorem Member.depthBelow_le {n : Nat} : ∀ {as : List (Text × Member)},
    (∀ a ∈ as, 2 + a.2.depth ≤ n) → Member.depthBelow as ≤ n
  | [], _ => Nat.zero_le _
  | (k, m) :: as, h => by
    rw [List.forall_mem_cons] at h
    rw [Member.depthBelow]
    exact Nat.max_le.mpr ⟨h.1, Member.depthBelow_le h.2⟩

/-- Members that are read one by one are read as the attributes of a group. -/
theorem Member.toValues_eq_ok : ∀ {as : List (Text × Member)},
    (∀ a ∈ as, ∃ v, a.2.toValue = .ok v) → ∃ vs, Member.toValues as = .ok vs ∧
      vs.map Prod.fst = as.map Prod.fst ∧ ∀ b ∈ vs, ∃ m, (b.1, m) ∈ as ∧ m.toValue = .ok b.2
  | [], _ => ⟨[], rfl, rfl, fun _ hb => absurd hb List.not_mem_nil⟩
  | (k, m) :: as, h => by
    rw [List.forall_mem_cons] at h
    obtain ⟨v, hv⟩ := h.1
    obtain ⟨vs, hvs, hkeys, hread⟩ := Member.toValues_eq_ok h.2
    refine ⟨(k, v) :: vs, ?_, ?_, ?_⟩
    · rw [Member.toValues, hv, hvs]
      rfl
    · rw [List.map_cons, List.map_cons, hkeys]
    · intro b hb
      rcases List.mem_cons.mp hb with rfl | hb
      · exact ⟨m, List.mem_cons_self, hv⟩
      · obtain ⟨m', hm', hb'⟩ := hread b hb
        exact ⟨m', List.mem_cons_of_mem _ hm', hb'⟩

/-! ### Values written -/

/-- A member that can be written, is nested no deeper than the value, and is read back as it. -/
structure WrittenAs (s : Settled) (m : Member) : Prop where
  fits : m.Fits
  depth : m.depth ≤ s.nesting
  reads : ∃ v, m.ordered.toValue = .ok v ∧ s.ReadsAs v

/-- Attributes that can be written, are nested no deeper than the values under their keys, and are
read back as a group of these. -/
structure AllWrittenAs (ms : List (Text × Settled)) (as : List (Text × Member)) : Prop where
  keys : as.map Prod.fst = ms.map Prod.fst
  encodable : ∀ a ∈ as, (Utf8.encode? a.1).isSome
  fits : ∀ a ∈ as, a.2.Fits
  depth : Member.depthBelow as ≤ Settled.nestingBelow ms
  reads : ∃ vs, Member.toValues (inOrder as) = .ok vs ∧ (Settled.group ms).ReadsAs (.group vs)

/-- Attributes of which each is read as the value under its key are read as the group of these
values. -/
theorem exists_readsAs_group {ms : List (Text × Settled)} {as : List (Text × Member)}
    (hn : (ms.map Prod.fst).Nodup) (hkeys : as.map Prod.fst = ms.map Prod.fst)
    (hw : ∀ a ∈ as, ∃ s v, (a.1, s) ∈ ms ∧ a.2.ordered.toValue = .ok v ∧ s.ReadsAs v) :
    ∃ vs, Member.toValues (inOrder as) = .ok vs ∧ (Settled.group ms).ReadsAs (.group vs) := by
  have hread : ∀ b ∈ inOrder as, ∃ s v, (b.1, s) ∈ ms ∧ b.2.toValue = .ok v ∧ s.ReadsAs v := by
    intro b hb
    obtain ⟨a, ha, rfl⟩ := mem_inOrder hb
    exact hw a ha
  have hvalue : ∀ b ∈ inOrder as, ∃ v, b.2.toValue = .ok v := by
    intro b hb
    obtain ⟨s, v, -, hv, -⟩ := hread b hb
    exact ⟨v, hv⟩
  obtain ⟨vs, hvs, hvkeys, hvread⟩ := Member.toValues_eq_ok hvalue
  refine ⟨vs, hvs, .group ?_ ?_⟩
  · rw [hvkeys, ← hkeys]
    exact map_fst_inOrder_perm as
  · intro k s v hs hv
    -- the values come back in another order, so each is found by its key
    obtain ⟨m, hm, hmv⟩ := hvread (k, v) hv
    obtain ⟨s', v', hs', hv', hr⟩ := hread (k, m) hm
    cases List.inj_on_of_nodup_map hn hs hs' rfl
    rw [hmv] at hv'
    cases hv'
    exact hr

/-- **Values that are written as themselves one by one are so under distinct keys.** -/
theorem allWrittenAs_of_fillEach {named : Text → Text} {ms : List (Text × Settled)}
    {as : List (Text × Member)} (hn : (ms.map Prod.fst).Nodup)
    (h : fillEach named [] ms = .ok as)
    (hw : ∀ a ∈ ms, ∀ key m, fill key .unset a.2 = .ok m → WrittenAs a.2 m) :
    AllWrittenAs ms as := by
  have hn' : (([] : List (Text × Member)).map Prod.fst ++ ms.map Prod.fst).Nodup := hn
  obtain ⟨hkeys, hfilled⟩ := fillEach_eq_ok hn' h
  rw [List.map_nil, List.nil_append] at hkeys
  have hwritten : ∀ a ∈ as, (Utf8.encode? a.1).isSome ∧ ∃ s, (a.1, s) ∈ ms ∧ WrittenAs s a.2 := by
    intro a ha
    rcases hfilled a ha with ha | ⟨he, s, hs, hf⟩
    · cases ha
    · exact ⟨he, s, hs, hw (a.1, s) hs _ _ hf⟩
  refine ⟨hkeys, fun a ha => (hwritten a ha).1, fun a ha => ?_, ?_, ?_⟩
  · obtain ⟨-, s, -, hs⟩ := hwritten a ha
    exact hs.fits
  · refine Member.depthBelow_le fun a ha => ?_
    obtain ⟨-, s, hms, hs⟩ := hwritten a ha
    exact Nat.le_trans (Nat.add_le_add_left hs.depth 2) (Settled.nesting_le_of_mem hms)
  · refine exists_readsAs_group hn hkeys fun a ha => ?_
    obtain ⟨-, s, hms, hs⟩ := hwritten a ha
    obtain ⟨v, hv, hr⟩ := hs.reads
    exact ⟨s, v, hms, hv, hr⟩

theorem integer?_eq_some {low high n i : Int} (h : integer? low high (.int n) = some i) :
    i = n ∧ low ≤ n ∧ n ≤ high := by
  rw [integer?] at h
  by_cases hb : low ≤ n ∧ n ≤ high
  · rw [if_pos hb] at h
    exact ⟨(Option.some.inj h).symm, hb⟩
  · rw [if_neg hb] at h
    cases h

theorem eq_some_of_elim_eq_ok {r : Option Member} {e : EncodeError} {m : Member}
    (h : r.elim (Except.error e) Except.ok = .ok m) : r = some m := by
  cases r with
  | none => cases h
  | some m' => cases h; rfl

theorem sealPayload_eq_ok {d : Datum} {p : Payload} (h : sealPayload d = .ok p) :
    (Settled.held .any d).ReadsAs (.held .any (.sealed p.tag p.data)) := by
  unfold sealPayload at h
  split at h
  · cases h
    exact .sealed _ _
  · split at h
    · cases h
      exact .json ‹_›
    · cases h

/-- **A payload of the type of its kind is written as itself.** -/
theorem writtenAs_of_fillHeld {key : Text} {k : Kind} {d : Datum} {m : Member} (hk : k.Holds d)
    (h : fillHeld key .unset k d = .ok m) : WrittenAs (.held k d) m := by
  cases hk with
  | bool b =>
    cases h
    exact ⟨.bool b, Nat.le_refl _, _, rfl, .kept rfl _⟩
  | int n =>
    obtain ⟨i, hi, rfl⟩ := Option.map_eq_some_iff.mp (eq_some_of_elim_eq_ok h)
    obtain ⟨rfl, hlow, hhigh⟩ := integer?_eq_some hi
    exact ⟨.int ⟨hlow, Int.lt_add_one_of_le hhigh⟩, Nat.le_refl _, _, rfl, .kept rfl _⟩
  | uint n =>
    obtain ⟨i, hi, rfl⟩ := Option.map_eq_some_iff.mp (eq_some_of_elim_eq_ok h)
    obtain ⟨rfl, hlow, hhigh⟩ := integer?_eq_some hi
    unfold uint64Max at hhigh
    have hvalue : (i.toNat : Int) = i := Int.toNat_of_nonneg hlow
    refine ⟨.uint (by omega), Nat.le_refl _, .held .uint (.int i), ?_, .kept rfl _⟩
    simp only [Member.ordered, Member.toValue, hvalue]
  | float x =>
    cases h
    exact ⟨.float x, Nat.le_refl _, _, rfl, .kept rfl _⟩
  | string t =>
    obtain ⟨t', ht, rfl⟩ := Option.map_eq_some_iff.mp (eq_some_of_elim_eq_ok h)
    obtain ⟨he, rfl⟩ := encodable?_eq_some ht
    exact ⟨.string he, Nat.le_refl _, _, rfl, .kept rfl _⟩
  | time t =>
    obtain ⟨s, hs, rfl⟩ := Option.map_eq_some_iff.mp (eq_some_of_elim_eq_ok h)
    obtain ⟨u, hu, ho, hi⟩ := Stamp.toTime?_of_ofTime? hs
    refine ⟨.time (Stamp.fits_of_ofTime? hs), Nat.le_refl _, .held .time (.time u), ?_, .time ho hi⟩
    simp only [Member.ordered, Member.toValue, hu]
    rfl
  | duration d =>
    cases h
    refine ⟨.duration (Stamp.fits_ofDuration d), Nat.le_refl _, .held .duration (.duration d), ?_,
      .kept rfl _⟩
    simp only [Member.ordered, Member.toValue, Stamp.toDuration?_ofDuration]
    rfl
  | any d =>
    rw [fillHeld] at h
    cases hp : sealPayload d with
    | error e => rw [hp] at h; cases h
    | ok p =>
      rw [hp] at h
      obtain ⟨tag, ht, rfl⟩ := Option.map_eq_some_iff.mp (eq_some_of_elim_eq_ok h)
      obtain ⟨he, rfl⟩ := encodable?_eq_some ht
      exact ⟨.any p.data he, Nat.le_refl _, _, rfl, sealPayload_eq_ok hp⟩

/-- **A regular value is written as itself**, whatever attribute an error would have named. -/
theorem writtenAs_of_fill {s : Settled} (hs : s.IsRegular) :
    ∀ {key : Text} {m : Member}, fill key .unset s = .ok m → WrittenAs s m := by
  induction hs with
  | empty =>
    intro key m h
    cases h
    exact ⟨.unset, Nat.le_refl _, _, rfl, .empty⟩
  | held hk =>
    intro key m h
    exact writtenAs_of_fillHeld hk h
  | @group ms hn hm ih =>
    intro key m h
    rw [fill, fillGroup_eq_fillEach] at h
    cases hf : fillEach (fun _ => key) (Member.groupAttrs .unset) ms with
    | error e => rw [hf] at h; cases h
    | ok as =>
      rw [hf] at h
      cases h
      have hw := allWrittenAs_of_fillEach hn hf fun a ha key m => ih a ha
      obtain ⟨vs, hvs, hr⟩ := hw.reads
      refine ⟨.group (hw.keys ▸ hn) hw.encodable hw.fits, ?_, .group vs, ?_, hr⟩
      · exact Nat.add_le_add_left hw.depth 1
      · have ho : (Member.group as).ordered = .group (inOrder as) := rfl
        rw [ho, Member.toValue, hvs]
        rfl
  | foreign name =>
    intro key m h
    cases h
  | failed e =>
    intro key m h
    cases h

end Wire

end LogStream
