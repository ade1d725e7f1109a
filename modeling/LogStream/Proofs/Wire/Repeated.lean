import LogStream.Proofs.Value.Built
import LogStream.Proofs.Wire.Acceptance
import LogStream.Proofs.Wire.Order
import LogStream.Proofs.Wire.Stable

/-! # Repeated members

Members of a group that stand under one key are written one after the other into the same entry. What is
left of them (`Settled.survivor`) is not always the last one: an empty member leaves what is there, and the
members of a group are written behind those of a group (`Settled.overlay`). A value is written as the one in
which what is left stands under each key once (`Settled.Condenses`). So a record is written as the one that
keeps the last member of every key (`Settled.KeepsLast`) if what is left shows nothing else
(`Record.ShowsLast`). Both are stated by `Record.encode_of_repeated`. Where an empty member comes last the
one before it shows, and is read back (`Record.encode_emptyLast`). -/

namespace LogStream

/-! ### What is left of repeated members -/

namespace Settled

/-- What is left of a value when another is written after it into the same place. -/
def overlay (s : Settled) : Settled → Settled
  | .empty => s
  | .group ns =>
    match s with
    | .group ms => .group (ms ++ ns)
    | _ => .group ns
  | t => t

/-- What is left where a value stands when the members under a key are written to it. -/
def survivorOn (s : Settled) (key : Text) (ms : List (Text × Settled)) : Settled :=
  ms.foldl (fun s a => if a.1 = key then s.overlay a.2 else s) s

/-- What is left of the members under a key. -/
def survivor (key : Text) (ms : List (Text × Settled)) : Settled := survivorOn .empty key ms

/-- The last of the members under a key. -/
def lastMember (key : Text) (ms : List (Text × Settled)) : Settled :=
  (ms.reverse.lookup key).getD .empty

end Settled

namespace Wire

open Settled (survivor survivorOn)

theorem fillEach_append (named : Text → Text) : ∀ (attrs : List (Text × Member))
    (ms ns : List (Text × Settled)),
    fillEach named attrs (ms ++ ns) = fillEach named attrs ms >>= fun as => fillEach named as ns
  | _, [], _ => rfl
  | attrs, (k, s) :: ms, ns => by
    rw [List.cons_append, fillEach, fillEach]
    cases encodable? k with
    | none => rfl
    | some k' =>
      simp only [fillEach_append named _ ms ns]
      cases fill (named k') ((attrs.lookup k').getD .unset) s <;> rfl

/-- What a payload leaves does not depend on what was there. -/
theorem fillHeld_congr {kind : Kind} (h : kind ≠ .lazy) (key : Text) (m m' : Member) (d : Datum) :
    fillHeld key m kind d = fillHeld key m' kind d := by
  cases kind with
  | lazy => exact absurd rfl h
  | _ => rfl

theorem groupAttrs_of_fillHeld {key : Text} {kind : Kind} {d : Datum} {m : Member}
    (h : fillHeld key .unset kind d = .ok m) : m.groupAttrs = [] := by
  cases kind with
  | bool | int | uint | float | string =>
    obtain ⟨_, -, rfl⟩ := Option.map_eq_some_iff.mp (eq_some_of_elim_eq_ok h)
    rfl
  | time =>
    cases d with
    | time t =>
      obtain ⟨_, -, rfl⟩ := Option.map_eq_some_iff.mp (eq_some_of_elim_eq_ok h)
      rfl
    | _ => cases h
  | duration =>
    cases d with
    | duration d => cases h; rfl
    | _ => cases h
  | any =>
    obtain ⟨p, -, h⟩ := exists_of_bind_eq_ok h
    obtain ⟨_, -, rfl⟩ := Option.map_eq_some_iff.mp (eq_some_of_elim_eq_ok h)
    rfl
  | lazy => cases h; rfl

/-- **Two values that are written one after the other leave what is left of them.** -/
theorem fill_overlay {key : Text} {s t : Settled} {m m' : Member} (ht : t.IsForced)
    (hs : fill key .unset s = .ok m) (h : fill key m t = .ok m') :
    fill key .unset (s.overlay t) = .ok m' := by
  cases ht with
  | empty =>
    cases h
    exact hs
  | held hk d =>
    rw [fill, fillHeld_congr hk key m .unset] at h
    exact h
  | @group ns _ =>
    rw [fill, fillGroup_eq_fillEach] at h
    obtain ⟨bs, -, rfl⟩ := exists_of_map_eq_ok h
    have halone (hnil : m.groupAttrs = []) : fill key .unset (.group ns) = .ok (.group bs) := by
      rw [hnil] at h
      rw [fill, fillGroup_eq_fillEach]
      exact h
    cases s with
    | group ms =>
      rw [fill, fillGroup_eq_fillEach] at hs
      obtain ⟨as, has, rfl⟩ := exists_of_map_eq_ok hs
      rw [Settled.overlay, fill, fillGroup_eq_fillEach, fillEach_append, has, ok_bind]
      exact h
    | empty =>
      cases hs
      exact halone rfl
    | held k d => exact halone (groupAttrs_of_fillHeld hs)
    | foreign name => cases hs
    | failed e => cases hs
  | foreign name => cases h
  | failed e => cases h

/-- **Members that are written to entries leave in each what is left** of what was there and of them. -/
theorem fill_survivorOn {named : Text → Text} : ∀ (left : Text → Settled)
    {ms : List (Text × Settled)} {attrs as : List (Text × Member)}, (∀ a ∈ ms, a.2.IsForced) →
      (∀ k, fill (named k) .unset (left k) = .ok ((attrs.lookup k).getD .unset)) →
      fillEach named attrs ms = .ok as →
      ∀ k, fill (named k) .unset (survivorOn (left k) k ms) = .ok ((as.lookup k).getD .unset)
  | _, [], _, _, _, hleft, h => by
    cases h
    exact hleft
  | left, (k', s) :: ms, attrs, as, hms, hleft, h => by
    rw [List.forall_mem_cons] at hms
    rw [fillEach] at h
    cases hk : encodable? k' with
    | none => rw [hk] at h; cases h
    | some k'' =>
      obtain ⟨-, rfl⟩ := encodable?_eq_some hk
      rw [hk] at h
      obtain ⟨m, hm, h⟩ := exists_of_bind_eq_ok h
      -- one more member is written: what is left of it and of what was there is where the others start
      refine fill_survivorOn (fun k => if k'' = k then (left k).overlay s else left k) hms.2
        (fun k => ?_) h
      rw [Attrs.lookup_put]
      by_cases hkey : k'' = k
      · subst hkey
        rw [if_pos rfl, if_pos rfl]
        exact fill_overlay hms.1 (hleft k'') hm
      · rw [if_neg hkey, if_neg (Ne.symm hkey)]
        exact hleft k

theorem fill_survivor {named : Text → Text} {ms : List (Text × Settled)} {as : List (Text × Member)}
    (hms : ∀ a ∈ ms, a.2.IsForced) (h : fillEach named [] ms = .ok as) (k : Text) :
    fill (named k) .unset (survivor k ms) = .ok ((as.lookup k).getD .unset) :=
  fill_survivorOn (fun _ => .empty) hms (fun _ => rfl) h k

theorem binds_of_fillEach {named : Text → Text} : ∀ {ms : List (Text × Settled)}
    {attrs as : List (Text × Member)}, fillEach named attrs ms = .ok as →
      ∀ k, Attrs.Binds as k ↔ Attrs.Binds attrs k ∨ Attrs.Binds ms k
  | [], attrs, as, h, k => by
    cases h
    simp [Attrs.Binds]
  | (k', s) :: ms, attrs, as, h, k => by
    rw [fillEach] at h
    cases hk : encodable? k' with
    | none => rw [hk] at h; cases h
    | some k'' =>
      obtain ⟨-, rfl⟩ := encodable?_eq_some hk
      rw [hk] at h
      obtain ⟨m, -, h⟩ := exists_of_bind_eq_ok h
      rw [binds_of_fillEach h k, Attrs.binds_put]
      unfold Attrs.Binds
      rw [List.map_cons, List.mem_cons, or_left_comm, or_assoc]

/-! ### Entries -/

/-- Attributes are written as the same bytes if they have the same keys, each once, and members under them
that are. -/
theorem mapBytes_entries_congr {as bs : List (Text × Member)} (ha : (as.map Prod.fst).Nodup)
    (hb : (bs.map Prod.fst).Nodup) (henc : ∀ a ∈ as, (Utf8.encode? a.1).isSome)
    (hkeys : ∀ k, Attrs.Binds bs k ↔ Attrs.Binds as k)
    (hbytes : ∀ {k m m'}, (k, m) ∈ as → (k, m') ∈ bs → m'.toBytes = m.toBytes) (number : Nat) :
    mapBytes number (Member.entries bs) = mapBytes number (Member.entries as) := by
  have hencb : ∀ b ∈ bs, (Utf8.encode? b.1).isSome := by
    intro b hmem
    obtain ⟨a, hmem, hab⟩ := List.mem_map.mp ((hkeys b.1).mp (List.mem_map_of_mem hmem))
    exact hab ▸ henc a hmem
  have hna := nodup_entries ha henc
  have hnb := nodup_entries hb hencb
  refine mapBytes_perm number ?_ hnb
  rw [List.perm_ext_iff_of_nodup hnb.of_map hna.of_map]
  intro e
  rw [Member.entries_eq_map, Member.entries_eq_map, List.mem_map, List.mem_map]
  constructor
  · rintro ⟨⟨k, m'⟩, hm', rfl⟩
    obtain ⟨⟨k', m⟩, hm, rfl⟩ := List.mem_map.mp ((hkeys k).mp (List.mem_map_of_mem hm'))
    exact ⟨(k', m), hm, by rw [hbytes hm hm']⟩
  · rintro ⟨⟨k, m⟩, hm, rfl⟩
    obtain ⟨⟨k', m'⟩, hm', rfl⟩ := List.mem_map.mp ((hkeys k).mpr (List.mem_map_of_mem hm))
    exact ⟨(k', m'), hm', by rw [hbytes hm hm']⟩

/-! ### Groups without repeated members -/

/-- Groups are written as the same bytes if what stands under each key of the one, once, is written as what
is left under this key in the other. -/
theorem exists_fillEach_of_survivor {named : Text → Text} {ms ns : List (Text × Settled)}
    {as : List (Text × Member)} (hms : ∀ a ∈ ms, a.2.IsForced) (hn : (ns.map Prod.fst).Nodup)
    (hkeys : ∀ k, Attrs.Binds ns k ↔ Attrs.Binds ms k)
    (hv : ∀ k t, (k, t) ∈ ns → ∀ {m}, fill (named k) .unset (survivor k ms) = .ok m →
      ∃ m', fill (named k) .unset t = .ok m' ∧ m'.toBytes = m.toBytes)
    (h : fillEach named [] ms = .ok as) (number : Nat) :
    ∃ bs, fillEach named [] ns = .ok bs ∧
      mapBytes number (Member.entries bs) = mapBytes number (Member.entries as) := by
  have hleft := fill_survivor hms h
  have hbinds (k : Text) : Attrs.Binds as k ↔ Attrs.Binds ns k := by
    rw [hkeys, binds_of_fillEach h]
    simp [Attrs.Binds]
  cases (isReadable_of_fillEach (allKeepReadable ms) isReadable_nil h).1.fits with
  | group ha henc _ =>
    have hencn : ∀ a ∈ ns, (Utf8.encode? a.1).isSome := by
      intro a hmem
      obtain ⟨b, hb, hba⟩ := List.mem_map.mp ((hbinds a.1).mpr (List.mem_map_of_mem hmem))
      exact hba ▸ henc b hb
    have hfill : ∀ a ∈ ns, ∃ m, fill (named a.1) .unset a.2 = .ok m := by
      intro a hmem
      obtain ⟨m, hm, -⟩ := hv a.1 a.2 hmem (hleft a.1)
      exact ⟨m, hm⟩
    have hn' : (([] : List (Text × Member)).map Prod.fst ++ ns.map Prod.fst).Nodup := hn
    obtain ⟨bs, hbs⟩ := exists_fillEach named hn' hencn hfill
    obtain ⟨hbkeys, hfilled⟩ := fillEach_eq_ok hn' hbs
    rw [List.map_nil, List.nil_append] at hbkeys
    refine ⟨bs, hbs, mapBytes_entries_congr ha (hbkeys ▸ hn) henc (fun k => ?_) ?_ number⟩
    · rw [hbinds]
      unfold Attrs.Binds
      rw [hbkeys]
    · intro k m m' hm hm'
      rcases hfilled _ hm' with hnil | ⟨-, t, ht, hfilled⟩
      · cases hnil
      · obtain ⟨m'', hfill', hbytes⟩ := hv k t ht (hleft k)
        rw [hfilled] at hfill'
        cases hfill'
        rw [hbytes, Attrs.lookup_of_mem ha hm]
        rfl

end Wire

namespace Settled

/-- The same value, except that what is left of the members under a key stands there once, in groups at any
depth and in any order. -/
inductive Condenses : Settled → Settled → Prop
  | same (s : Settled) : Condenses s s
  | group {ms ns : List (Text × Settled)} (hn : (ns.map Prod.fst).Nodup)
      (hkeys : ∀ k, Attrs.Binds ns k ↔ Attrs.Binds ms k)
      (hv : ∀ k t, (k, t) ∈ ns → Condenses (survivor k ms) t) : Condenses (.group ms) (.group ns)

/-- The same value, except that of the members under a key the last one stands there alone. -/
inductive KeepsLast : Settled → Settled → Prop
  | leaf {s : Settled} (h : ∀ ms, s ≠ .group ms) : KeepsLast s s
  | group {ms ns : List (Text × Settled)} (hn : (ns.map Prod.fst).Nodup)
      (hkeys : ∀ k, Attrs.Binds ns k ↔ Attrs.Binds ms k)
      (hv : ∀ k t, (k, t) ∈ ns → KeepsLast (lastMember k ms) t) : KeepsLast (.group ms) (.group ns)

/-- What is left, on the left, shows nothing but the last member: both are the same, or groups with the same
keys, and so on with what is left and the last member under each of them. -/
inductive Shows : Settled → Settled → Prop
  | leaf {s : Settled} (h : ∀ ms, s ≠ .group ms) : Shows s s
  | group {ms ns : List (Text × Settled)} (hkeys : ∀ k, Attrs.Binds ns k ↔ Attrs.Binds ms k)
      (hv : ∀ k, Attrs.Binds ns k → Shows (survivor k ms) (lastMember k ns)) :
      Shows (.group ms) (.group ns)

theorem IsForced.overlay {s t : Settled} (hs : s.IsForced) (ht : t.IsForced) :
    (s.overlay t).IsForced := by
  cases ht with
  | empty => exact hs
  | held hk d => exact .held hk d
  | group hns =>
    cases hs with
    | group hms =>
      refine .group fun a ha => ?_
      rcases List.mem_append.mp ha with ha | ha
      · exact hms a ha
      · exact hns a ha
    | _ => exact .group hns
  | foreign name => exact .foreign name
  | failed e => exact .failed e

theorem isForced_survivorOn (key : Text) {s : Settled} (hs : s.IsForced) :
    ∀ {ms : List (Text × Settled)}, (∀ a ∈ ms, a.2.IsForced) → (survivorOn s key ms).IsForced := by
  intro ms hms
  induction ms generalizing s with
  | nil => exact hs
  | cons a ms ih =>
    rw [List.forall_mem_cons] at hms
    unfold survivorOn
    rw [List.foldl_cons]
    split_ifs
    · exact ih (hs.overlay hms.1) hms.2
    · exact ih hs hms.2

/-- **A value is written as the one without repeated members** in which stands what is left of them. -/
theorem Condenses.exists_fill {s t : Settled} (h : s.Condenses t) (hs : s.IsForced) {key : Text}
    {m : Wire.Member} (hm : Wire.fill key .unset s = .ok m) :
    ∃ m', Wire.fill key .unset t = .ok m' ∧ m'.toBytes = m.toBytes := by
  induction h generalizing m with
  | same s => exact ⟨m, hm, rfl⟩
  | group hn hkeys _ ih =>
    cases hs with
    | group hms =>
      rw [Wire.fill, Wire.fillGroup_eq_fillEach] at hm
      obtain ⟨as, has, rfl⟩ := exists_of_map_eq_ok hm
      obtain ⟨bs, hbs, hbytes⟩ := Wire.exists_fillEach_of_survivor hms hn hkeys
        (fun k t ht => ih k t ht (isForced_survivorOn k .empty hms)) has 1
      refine ⟨.group bs, ?_, ?_⟩
      · rw [Wire.fill, Wire.fillGroup_eq_fillEach]
        exact congrArg (Except.map Wire.Member.group) hbs
      · rw [Wire.Member.toBytes, Wire.Member.toBytes, hbytes]

theorem Condenses.exists_fillEach {ms ns : List (Text × Settled)}
    (h : (Settled.group ms).Condenses (.group ns)) (hms : ∀ a ∈ ms, a.2.IsForced)
    {named : Text → Text} {as : List (Text × Wire.Member)}
    (has : Wire.fillEach named [] ms = .ok as) (number : Nat) :
    ∃ bs, Wire.fillEach named [] ns = .ok bs ∧
      Wire.mapBytes number (Wire.Member.entries bs) =
        Wire.mapBytes number (Wire.Member.entries as) := by
  cases h with
  | same => exact ⟨as, has, rfl⟩
  | group hn hkeys hv =>
    exact Wire.exists_fillEach_of_survivor hms hn hkeys
      (fun k t ht => (hv k t ht).exists_fill (isForced_survivorOn k .empty hms)) has number

/-- **What keeps the last members is what is left**, if nothing else shows. -/
theorem Shows.condenses {s t u : Settled} (h : s.Shows t) (hu : t.KeepsLast u) : s.Condenses u := by
  induction h generalizing u with
  | leaf h =>
    cases hu with
    | leaf _ => exact .same _
    | group => exact absurd rfl (h _)
  | group hkeys _ ih =>
    cases hu with
    | leaf h => exact absurd rfl (h _)
    | group hn hkeys' hv =>
      refine .group hn (fun k => (hkeys' k).trans (hkeys k)) fun k t ht => ?_
      exact ih k ((hkeys' k).mp (List.mem_map_of_mem ht)) (hv k t ht)

end Settled

/-! ### Records -/

namespace Record

/-- A record that differs at most in its attributes, whose tree is related to that of the other. -/
structure Varies (related : Settled → Settled → Prop) (r r' : Record) : Prop where
  message : r'.message = r.message
  level : r'.level = r.level
  time : r'.time = r.time
  attrs : related (Value.group r.attrs).settle (Value.group r'.attrs).settle

/-- What is left of repeated members is the last of them, all the way down. -/
def ShowsLast (r : Record) : Prop :=
  (Value.group r.attrs).settle.Shows (Value.group r.attrs).settle

theorem encode_of_condenses {r r' : Record} {bs : Bytes} (hr : r.Varies Settled.Condenses r')
    (h : r.encode = .ok bs) : r'.encode = .ok bs := by
  obtain ⟨m, hm, rfl⟩ := exists_of_map_eq_ok h
  obtain ⟨-, hf⟩ := Wire.fillRecord_eq_ok hm
  obtain ⟨bs, hbs, hbytes⟩ :=
    hr.attrs.exists_fillEach (Value.isForced_settleMembers r.attrs) hf 4
  have hhead : Wire.fillHead? .blank r' = Wire.fillHead? .blank r := by
    unfold Wire.fillHead?
    rw [hr.message, hr.level, hr.time]
  have hm' : Wire.fillRecord .blank r' = .ok { m with attrs := bs } := by
    unfold Wire.fillRecord at hm ⊢
    rw [hhead]
    cases hh : Wire.fillHead? .blank r with
    | none => rw [hh] at hm; cases hm
    | some head =>
      rw [hh] at hm
      obtain ⟨as, -, rfl⟩ := exists_of_map_eq_ok hm
      dsimp only
      rw [(Wire.headWrittenAs_of_fillHead? hh).2, Wire.fillAttrs_eq_fillEach, hbs]
      rfl
  unfold encode
  rw [hm']
  refine congrArg Except.ok ?_
  unfold Wire.RecordMessage.toBytes
  rw [hbytes]

/-- **Repeated members are written as what is left of them.** So a record that is written is written as the
one that keeps the last member of every key, if what is left shows nothing but the last. -/
theorem encode_of_repeated {r : Record} {bs : Bytes} (h : r.encode = .ok bs) :
    (∀ r', r.Varies Settled.Condenses r' → r'.encode = .ok bs) ∧
      (r.ShowsLast → ∀ r', r.Varies Settled.KeepsLast r' → r'.encode = .ok bs) := by
  refine ⟨fun r' hr => encode_of_condenses hr h, fun hs r' hr => encode_of_condenses ?_ h⟩
  exact ⟨hr.message, hr.level, hr.time, hs.condenses hr.attrs⟩

/-- A record with one group, as it is made of a dictionary with a number and under it the text of this number
as keys, of which the former has the value five. -/
def repeating (later : Datum) : Record where
  attrs := [Attr.ofDatum (Text.lit "g") (.map [(.int 1, .int 5), (.text (Text.lit "1"), later)])]

/-- The same record without the number as a key. -/
def keeping (later : Datum) : Record where
  attrs := [Attr.ofDatum (Text.lit "g") (.map [(.text (Text.lit "1"), later)])]

theorem keepsLast_repeating (later : Datum) (h : ∀ ms, (Value.ofDatum later).settle ≠ .group ms) :
    (repeating later).Varies Settled.KeepsLast (keeping later) where
  message := rfl
  level := rfl
  time := rfl
  attrs := by
    refine .group (List.nodup_singleton _) (fun k => Iff.rfl) fun k t ht => ?_
    obtain ⟨rfl, rfl⟩ := Prod.mk.inj (List.mem_singleton.mp ht)
    refine .group (List.nodup_singleton _) (fun k => ?_) fun k t ht => ?_
    · refine ⟨List.mem_cons_of_mem _, fun hk => ?_⟩
      rcases List.mem_cons.mp hk with rfl | hk
      · exact List.mem_cons_self
      · exact hk
    · obtain ⟨rfl, rfl⟩ := Prod.mk.inj (List.mem_singleton.mp ht)
      exact .leaf h

theorem showsLast_repeating_text : (repeating (.text (Text.lit "x"))).ShowsLast := by
  refine .group (fun k => Iff.rfl) fun k hk => ?_
  obtain rfl := List.mem_singleton.mp hk
  refine .group (fun k => Iff.rfl) fun k hk => ?_
  have hone : k = Text.lit "1" := by
    rcases List.mem_cons.mp hk with rfl | hk
    · rfl
    · exact List.mem_singleton.mp hk
  subst hone
  exact .leaf nofun

/-- Where a text stands under the key last, the text wins. -/
theorem encode_of_repeated_text : (repeating (.text (Text.lit "x"))).ShowsLast ∧
    (repeating (.text (Text.lit "x"))).Varies Settled.KeepsLast (keeping (.text (Text.lit "x"))) ∧
      ∃ bs, (repeating (.text (Text.lit "x"))).encode = .ok bs ∧
        (keeping (.text (Text.lit "x"))).encode = .ok bs := by
  have hvaries := keepsLast_repeating (.text (Text.lit "x")) nofun
  have hl : (repeating (.text (Text.lit "x"))).encode.map List.length = .ok 19 := by cbv
  obtain ⟨bs, hbs, -⟩ := exists_of_map_eq_ok hl
  exact ⟨showsLast_repeating_text, hvaries, bs, hbs,
    (encode_of_repeated hbs).2 showsLast_repeating_text _ hvaries⟩

/-- **The last member does not always win:** an empty one leaves the number that was written before it. -/
theorem encode_emptyLast : ¬ ∀ (r r' : Record) (bs bs' : Bytes), r.Varies Settled.KeepsLast r' →
    r.encode = .ok bs → r'.encode = .ok bs' → decode bs = decode bs' := by
  intro h
  have hvaries := keepsLast_repeating .null (fun _ hgroup => by cases hgroup)
  have hbs : (repeating .null).encode =
      .ok [34, 16, 10, 1, 103, 18, 11, 66, 9, 10, 7, 10, 1, 49, 18, 2, 24, 5] := by cbv
  have hbs' : (keeping .null).encode =
      .ok [34, 14, 10, 1, 103, 18, 9, 66, 7, 10, 5, 10, 1, 49, 18, 0] := by cbv
  have hdecode := h _ _ _ _ hvaries hbs hbs'
  have hwritten := congrArg
    (fun d => d.toOption.map fun r => (r.nesting, r.encode.toOption.map List.length)) hdecode
  exact absurd hwritten (by decide +kernel)

end Record

end LogStream
