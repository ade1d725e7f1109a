import LogStream.Proofs.Wire.Record

/-! # Messages that are nested too deep

The bytes of a member are refused if fewer levels are left than it is nested
(`mergeMember?_eq_none`), and so are those of a record that is nested deeper than messages are read
(`Record.decode_of_deep`). With `mergeMember?_toBytes` this says which members are read back: those
that are not nested too deep, and no others. -/

namespace LogStream

namespace Wire

theorem foldlM_eq_none {σ : Type} {step : σ → Field → Option σ} {f : Field}
    (h : ∀ s, step s f = none) : ∀ {fs : List Field}, f ∈ fs → ∀ s, fs.foldlM step s = none
  | g :: fs, hf, s => by
    rw [List.foldlM_cons]
    rcases List.mem_cons.mp hf with rfl | hf
    · rw [h s]
      rfl
    · cases step s g with
      | none => rfl
      | some t => exact foldlM_eq_none h hf t

theorem exists_mem_of_lt_depthBelow {n : Nat} : ∀ {as : List (Text × Member)},
    n < Member.depthBelow as → ∃ a ∈ as, n < 2 + a.2.depth
  | (k, m) :: as, h => by
    rw [Member.depthBelow] at h
    by_cases hm : n < 2 + m.depth
    · exact ⟨(k, m), List.mem_cons_self, hm⟩
    · have hb : n < Member.depthBelow as := by omega
      obtain ⟨a, ha, hn⟩ := exists_mem_of_lt_depthBelow hb
      exact ⟨a, List.mem_cons_of_mem _ ha, hn⟩

/-- An entry is refused if no level is left for the member in it, or too few are. -/
theorem readPair?_eq_none {key : Text} {m : Member} {depth : Nat} (hk : (Utf8.encode? key).isSome)
    (hl : (entryBytes (Utf8.encodeAll key) m.toBytes).length < 0x10000000000000000)
    (hm : ∀ d, depth = d + 1 → mergeMember? .unset m.toBytes d = none) :
    readPair? (entryBytes (Utf8.encodeAll key) m.toBytes) depth = none := by
  cases depth with
  | zero =>
    rw [readPair?, readAll?_entryBytes 0 hl]
    simp only [List.foldlM_cons, Utf8.decode?_encodeAll hk, Option.map_some, Option.bind_eq_bind,
      Option.bind_some]
    rfl
  | succ d =>
    rw [readPair?, readAll?_entryBytes (d + 1) hl]
    simp only [List.foldlM_cons, Utf8.decode?_encodeAll hk, Option.map_some, hm d rfl,
      Option.bind_eq_bind, Option.bind_some, Option.map_none, Option.bind_none]

/-- The entry of an attribute is refused below a message with fewer levels than it takes. -/
theorem below?_readPair?_eq_none {a : Text × Member} {depth : Nat} (hk : (Utf8.encode? a.1).isSome)
    (hl : (entryBytes (Utf8.encodeAll a.1) a.2.toBytes).length < 0x10000000000000000)
    (hd : depth < 2 + a.2.depth)
    (hm : ∀ d, d < a.2.depth → mergeMember? .unset a.2.toBytes d = none) :
    below? depth (readPair? (entryBytes (Utf8.encodeAll a.1) a.2.toBytes)) = none := by
  cases depth with
  | zero => rfl
  | succ d =>
    rw [below?]
    refine readPair?_eq_none hk hl ?_
    rintro d' rfl
    exact hm d' (by omega)

theorem mergeGroup?_eq_none {as : List (Text × Member)} {depth : Nat}
    (hk : ∀ a ∈ as, (Utf8.encode? a.1).isSome) (hd : depth < Member.depthBelow as)
    (hl : (mapBytes 1 (Member.entries as)).length < 0x10000000000000000)
    (hm : ∀ a ∈ as, ∀ d, d < a.2.depth → a.2.toBytes.length < 0x10000000000000000 →
      mergeMember? .unset a.2.toBytes d = none) (attrs : List (Text × Member)) :
    mergeGroup? attrs (mapBytes 1 (Member.entries as)) depth = none := by
  obtain ⟨a, ha, hda⟩ := exists_mem_of_lt_depthBelow hd
  rw [← Field.flatMap_ofAttrs] at hl ⊢
  have hlen : ∀ a ∈ as,
      (entryBytes (Utf8.encodeAll a.1) a.2.toBytes).length < 0x10000000000000000 :=
    fun a ha => Nat.lt_of_le_of_lt (Field.length_le_of_mem (Field.mem_ofAttrs ha)) hl
  have hf : ∀ f ∈ Field.ofAttrs 1 as, f.Fits := by
    intro f hf
    obtain ⟨b, hb, rfl⟩ := Field.eq_of_mem_ofAttrs hf
    exact Field.fits_bytes (by decide) (hlen b hb)
  have hpair := below?_readPair?_eq_none (hk a ha) (hlen a ha) hda fun d hd =>
    hm a ha d hd (Nat.lt_of_le_of_lt (length_toBytes_le a.1 a.2) (hlen a ha))
  rw [mergeGroup?.eq_def, Field.readAll?_flatMap depth hf]
  refine foldlM_eq_none (fun attrs => ?_) (Field.mem_ofAttrs ha) attrs
  cases depth with
  | zero => rfl
  | succ d =>
    rw [below?] at hpair
    simp only [hpair, Option.map_none]

/-- **A member that is nested too deep is refused.** -/
theorem mergeMember?_eq_none {m : Member} (h : m.Fits) {depth : Nat} (hd : depth < m.depth)
    (hl : m.toBytes.length < 0x10000000000000000) :
    mergeMember? .unset m.toBytes depth = none := by
  -- only messages in a member are nested, so the others have no depth to be short of
  induction h generalizing depth with
  | unset | bool | float | int | string | uint => cases hd
  | time | duration | any =>
    obtain rfl : depth = 0 := by
      rw [Member.depth] at hd
      omega
    rw [Member.toBytes] at hl
    rw [mergeMember?, Member.toBytes, Field.readAll?_ofBytes (by decide) hl]
    rfl
  | @group as hn hk hm ih =>
    rw [Member.toBytes] at hl
    rw [mergeMember?.eq_def, Member.toBytes, Field.readAll?_ofBytes (by decide) hl]
    cases depth with
    | zero => rfl
    | succ d =>
      rw [Member.depth] at hd
      have hbelow : d < Member.depthBelow as := by omega
      have hb := Nat.lt_of_le_of_lt (Field.length_le_ofBytes ..) hl
      have hg := mergeGroup?_eq_none hk hbelow hb (fun a ha _ => ih a ha) []
      simp only [List.foldlM_cons, Member.groupAttrs, hg]
      rfl

theorem RecordMessage.read?_eq_none {m : RecordMessage}
    (hk : ∀ a ∈ m.attrs, (Utf8.encode? a.1).isSome) (hf : ∀ a ∈ m.attrs, a.2.Fits)
    (hd : maxDepth < Member.depthBelow m.attrs)
    (hl : m.toBytes.length < 0x10000000000000000) : read? m.toBytes = none := by
  obtain ⟨a, ha, hda⟩ := exists_mem_of_lt_depthBelow hd
  have hfield : ⟨4, .bytes (entryBytes (Utf8.encodeAll a.1) a.2.toBytes)⟩ ∈ m.fields := by
    unfold fields
    exact List.mem_append_right _ (Field.mem_ofAttrs ha)
  have hentry := Field.length_le_of_mem hfield
  rw [← toBytes_eq] at hentry
  have hcontent := length_toBytes_le a.1 a.2
  have hpair := below?_readPair?_eq_none (hk a ha) (by omega) hda fun d hd =>
    mergeMember?_eq_none (hf a ha) hd (by omega)
  unfold read?
  rw [toBytes_eq, Field.readAll?_flatMap maxDepth (fits_of_mem_fields hl), Option.bind_some]
  refine foldlM_eq_none (fun r => ?_) hfield blank
  simp only [put?, hpair, Option.map_none]

/-! ### Values -/

theorem nestingBelow_le {n : Nat} : ∀ {ms : List (Text × Settled)},
    (∀ a ∈ ms, 2 + a.2.nesting ≤ n) → Settled.nestingBelow ms ≤ n
  | [], _ => Nat.zero_le _
  | (k, s) :: ms, h => by
    rw [List.forall_mem_cons] at h
    rw [Settled.nestingBelow]
    exact Nat.max_le.mpr ⟨h.1, nestingBelow_le h.2⟩

/-- Values that are nested no deeper than the members they are written as are so under distinct
keys. -/
theorem nestingBelow_le_depthBelow {named : Text → Text} {ms : List (Text × Settled)}
    {as : List (Text × Member)} (hn : (ms.map Prod.fst).Nodup)
    (h : fillEach named [] ms = .ok as)
    (hw : ∀ a ∈ ms, ∀ key m, fill key .unset a.2 = .ok m → a.2.nesting ≤ m.depth) :
    Settled.nestingBelow ms ≤ Member.depthBelow as := by
  have hn' : (([] : List (Text × Member)).map Prod.fst ++ ms.map Prod.fst).Nodup := hn
  obtain ⟨hkeys, hfilled⟩ := fillEach_eq_ok hn' h
  rw [List.map_nil, List.nil_append] at hkeys
  refine nestingBelow_le fun b hb => ?_
  have hkey : b.1 ∈ as.map Prod.fst := by
    rw [hkeys]
    exact List.mem_map_of_mem hb
  obtain ⟨a, ha, hab⟩ := List.mem_map.mp hkey
  rcases hfilled a ha with ha' | ⟨-, s, hs, hf⟩
  · cases ha'
  · -- the member was filled with the value under its key, which is this one
    obtain rfl : (a.1, s) = b := List.inj_on_of_nodup_map hn hs hb hab
    exact Nat.le_trans (Nat.add_le_add_left (hw _ hs _ _ hf) 2) (Member.depth_le_of_mem ha)

theorem nesting_le_depth_of_fillHeld {key : Text} {k : Kind} {d : Datum} {m : Member}
    (hk : k.Holds d) (h : fillHeld key .unset k d = .ok m) :
    (Settled.held k d).nesting ≤ m.depth := by
  cases hk with
  | bool | int | uint | float | string => exact Nat.zero_le _
  | time t =>
    obtain ⟨s, -, rfl⟩ := Option.map_eq_some_iff.mp (eq_some_of_elim_eq_ok h)
    exact Nat.le_refl 1
  | duration d =>
    cases h
    exact Nat.le_refl 1
  | any d =>
    rw [fillHeld] at h
    cases hp : sealPayload d with
    | error e => rw [hp] at h; cases h
    | ok p =>
      rw [hp] at h
      obtain ⟨tag, -, rfl⟩ := Option.map_eq_some_iff.mp (eq_some_of_elim_eq_ok h)
      exact Nat.le_refl 1

/-- **A value is nested no deeper than the member that it is written as.** -/
theorem nesting_le_depth {s : Settled} (hs : s.IsRegular) : ∀ {key : Text} {m : Member},
    fill key .unset s = .ok m → s.nesting ≤ m.depth := by
  induction hs with
  | empty => exact fun _ => Nat.zero_le _
  | held hk => exact nesting_le_depth_of_fillHeld hk
  | @group ms hn hm ih =>
    intro key m h
    rw [fill, fillGroup_eq_fillEach] at h
    cases hf : fillEach (fun _ => key) (Member.groupAttrs .unset) ms with
    | error e => rw [hf] at h; cases h
    | ok as =>
      rw [hf] at h
      cases h
      have hbelow := nestingBelow_le_depthBelow hn hf fun a ha key m => ih a ha
      exact Nat.add_le_add_left hbelow 1
  | foreign name =>
    intro key m h
    cases h
  | failed e =>
    intro key m h
    cases h

end Wire

namespace Record

/-- How deep messages are nested below the message that a record is written as. -/
def nesting (r : Record) : Nat := Settled.nestingBelow (Value.settleMembers r.attrs)

/-- **What a record is written as is refused if it is nested deeper than messages are read.** -/
theorem decode_of_deep {r : Record} (hr : (Value.group r.attrs).settle.IsRegular)
    {m : Wire.RecordMessage} (hm : Wire.fillRecord .blank r = .ok m)
    (hl : m.toBytes.length < 0x10000000000000000) (hd : Wire.maxDepth < r.nesting) :
    decode m.toBytes = .error .malformed := by
  obtain ⟨-, hf⟩ := Wire.fillRecord_eq_ok hm
  have hw := Wire.allWrittenAs_of_isRegular hr hf
  have hbelow : r.nesting ≤ Wire.Member.depthBelow m.attrs := by
    cases hr with
    | group hn hv =>
      exact Wire.nestingBelow_le_depthBelow hn hf fun a ha _ _ => Wire.nesting_le_depth (hv a ha)
  unfold decode
  rw [Wire.RecordMessage.read?_eq_none hw.encodable hw.fits (Nat.lt_of_lt_of_le hd hbelow) hl]

end Record

end LogStream
