import LogStream.Proofs.Wire.Image
import LogStream.Proofs.Wire.Depth

/-! # Decoded records through the wire

A record that was decoded can be written: each of its values fills the member of its kind
(`Value.IsDecoded.exists_fill`). What is written is decoded to the same record, the attributes of
each group in any order (`Record.decode_stable`), if the record as it is written is not nested
deeper than messages are read. An entry without a value is written with one, for which no level may
be left (`Record.decode_encode_deepest`). -/

namespace LogStream

/-! ### Values that can be written -/

namespace Wire

theorem Stamp.exists_ofTime? {t : Time} (h : t.offset = some 0) : ∃ s, ofTime? t = some s := by
  have hinstant : t.instant + epochWall = (t.wall.val : Int) := by
    unfold Time.instant
    rw [h, Option.getD_some]
    omega
  have hwall : (t.wall.val : Int).toNat < wallLimit := by
    rw [Int.toNat_natCast]
    exact t.wall.isLt
  have hu : t.toUtc? = some ⟨⟨(t.wall.val : Int).toNat, hwall⟩, some 0⟩ := by
    unfold Time.toUtc? Time.ofInstant? Time.ofWall?
    rw [hinstant, dif_pos hwall, if_pos (Int.natCast_nonneg _)]
  unfold ofTime?
  rw [hu]
  exact ⟨_, rfl⟩

/-- Values that can be filled one by one can be filled under distinct keys. -/
theorem exists_fillEach (named : Text → Text) : ∀ {ms : List (Text × Settled)}
    {attrs : List (Text × Member)}, (attrs.map Prod.fst ++ ms.map Prod.fst).Nodup →
      (∀ a ∈ ms, (Utf8.encode? a.1).isSome) →
      (∀ a ∈ ms, ∃ m, fill (named a.1) .unset a.2 = .ok m) → ∃ as, fillEach named attrs ms = .ok as
  | [], attrs, _, _, _ => ⟨attrs, rfl⟩
  | (k, s) :: ms, attrs, hn, hk, hf => by
    rw [List.forall_mem_cons] at hk hf
    obtain ⟨m, hm⟩ := hf.1
    have hfree : ¬ Attrs.Binds attrs k := fun hb =>
      (List.nodup_append.mp hn).2.2 k hb k List.mem_cons_self rfl
    have hlookup := Attrs.lookup_of_not_binds hfree
    have hn' : ((attrs ++ [(k, m)]).map Prod.fst ++ ms.map Prod.fst).Nodup := by simpa using hn
    obtain ⟨as, has⟩ := exists_fillEach named hn' hk.2 hf.2
    refine ⟨as, ?_⟩
    rw [fillEach, encodable?_of_isSome hk.1]
    simp only [hlookup, Option.getD_none, hm, Attrs.put_of_not_binds hfree]
    exact has

/-- Under distinct keys this is the only way in which values can be filled. -/
theorem exists_fillEach_iff {named : Text → Text} {ms : List (Text × Settled)} (hn : (ms.map Prod.fst).Nodup) :
    (∃ as, fillEach named [] ms = .ok as) ↔
      ∀ a ∈ ms, (Utf8.encode? a.1).isSome ∧ ∃ m, fill (named a.1) .unset a.2 = .ok m := by
  have hn' : (([] : List (Text × Member)).map Prod.fst ++ ms.map Prod.fst).Nodup := hn
  constructor
  · rintro ⟨as, has⟩ ⟨k, s⟩ hmem
    obtain ⟨hkeys, hfilled⟩ := fillEach_eq_ok hn' has
    have hk : k ∈ as.map Prod.fst := hkeys ▸ List.mem_map_of_mem hmem
    obtain ⟨⟨_, m⟩, ha, rfl⟩ := List.mem_map.mp hk
    obtain hnil | ⟨hencode, s', hmem', hfill⟩ := hfilled _ ha
    · exact absurd hnil List.not_mem_nil
    obtain rfl : s' = s :=
      Option.some.inj ((Attrs.lookup_of_mem hn hmem').symm.trans (Attrs.lookup_of_mem hn hmem))
    exact ⟨hencode, m, hfill⟩
  · exact fun h => exists_fillEach named hn' (fun a ha => (h a ha).1) fun a ha => (h a ha).2

/-- The same for the values under the keys of a group. -/
theorem exists_fillEach_settleMembers_iff {named : Text → Text} {as : List Attr} (hn : (as.map Prod.fst).Nodup) :
    (∃ ms, fillEach named [] (Value.settleMembers as) = .ok ms) ↔
      ∀ a ∈ as, (Utf8.encode? a.1).isSome ∧ ∃ m, fill (named a.1) .unset a.2.settle = .ok m := by
  rw [exists_fillEach_iff (by rwa [Value.map_fst_settleMembers]), Value.settleMembers_eq_map]
  exact List.forall_mem_map

end Wire

theorem Value.IsDecoded.isRegular_settle {v : Value} (h : v.IsDecoded) : v.settle.IsRegular := by
  induction h with
  | empty => exact .empty
  | bool b => exact .held (.bool b)
  | float x => exact .held (.float x)
  | int h => exact .held (.int _)
  | uint h => exact .held (.uint _)
  | string h => exact .held (.string _)
  | time h => exact .held (.time _)
  | duration d => exact .held (.duration d)
  | any data h => exact .held (.any _)
  | group hn _ _ ih => exact Settled.isRegular_settle_group_iff.mpr ⟨hn, ih⟩

/-- **A decoded value can be written**, whatever attribute an error would have named. -/
theorem Value.IsDecoded.exists_fill {v : Value} (h : v.IsDecoded) :
    ∀ key, ∃ m, Wire.fill key .unset v.settle = .ok m := by
  induction h with
  | empty => exact fun _ => ⟨_, rfl⟩
  | bool b => exact fun _ => ⟨_, rfl⟩
  | float x => exact fun _ => ⟨_, rfl⟩
  | @int n h =>
    intro key
    refine ⟨.int n, ?_⟩
    rw [settle, Wire.fill, Wire.fillHeld, Wire.integer?, if_pos h]
    · rfl
    · decide
  | @uint n h =>
    intro key
    refine ⟨.uint n.toNat, ?_⟩
    rw [settle, Wire.fill, Wire.fillHeld, Wire.integer?, if_pos h]
    · rfl
    · decide
  | @string t h =>
    intro key
    refine ⟨.string t, ?_⟩
    rw [settle, Wire.fill, Wire.fillHeld, Wire.text?, Wire.encodable?_of_isSome h]
    · rfl
    · decide
  | @time t h =>
    intro key
    obtain ⟨s, hs⟩ := Wire.Stamp.exists_ofTime? h
    refine ⟨.time s, ?_⟩
    rw [settle, Wire.fill, Wire.fillHeld, hs]
    · rfl
    · decide
  | duration d => exact fun _ => ⟨_, rfl⟩
  | @any tag data h =>
    intro key
    refine ⟨.any tag data, ?_⟩
    have he := Wire.encodable?_of_isSome h
    rw [settle, Wire.fill, Wire.fillHeld, Wire.sealPayload]
    · simp only [Except.bind, bind, he]
      rfl
    · decide
  | @group as hn hk hv ih =>
    intro key
    have hfills : ∃ ms, Wire.fillEach (fun _ => key) [] (Value.settleMembers as) = .ok ms :=
      Wire.exists_fillEach_settleMembers_iff hn |>.mpr fun a ha => ⟨hk a ha, ih a ha key⟩
    obtain ⟨ms, hms⟩ := hfills
    refine ⟨.group ms, ?_⟩
    rw [settle, Wire.fill, Wire.fillGroup_eq_fillEach, Wire.Member.groupAttrs, hms]
    · rfl
    · rintro as ⟨⟩

/-! ### The same values -/

/-- The same value, the members of each group in any order. -/
inductive Value.Reorders : Value → Value → Prop
  | empty : Reorders .empty .empty
  | held (k : Kind) (d : Datum) : Reorders (.held k d) (.held k d)
  | group {ms ns : List Attr} (hk : (ns.map Prod.fst).Perm (ms.map Prod.fst))
      (hv : ∀ k v w, (k, v) ∈ ms → (k, w) ∈ ns → Reorders v w) : Reorders (.group ms) (.group ns)

theorem Time.eq_of_instant {t u : Time} (ht : t.offset = some 0) (hu : u.offset = some 0)
    (h : t.instant = u.instant) : t = u := by
  unfold instant at h
  rw [ht, hu, Option.getD_some] at h
  obtain ⟨wall, offset⟩ := t
  obtain ⟨wall', offset'⟩ := u
  have hwall : wall = wall' := Fin.ext (by dsimp only at h; omega)
  have hoffset : offset = offset' := ht.trans hu.symm
  rw [hwall, hoffset]

/-- **The canonical form of a decoded value is this value.** -/
theorem Value.IsDecoded.reorders {v : Value} (h : v.IsDecoded) :
    ∀ {w : Value}, v.settle.ReadsAs w → v.Reorders w := by
  induction h with
  | empty =>
    rintro w ⟨⟩
    exact .empty
  | bool b =>
    rintro w ⟨⟩
    exact .held _ _
  | float x =>
    rintro w ⟨⟩
    exact .held _ _
  | int h =>
    rintro w ⟨⟩
    exact .held _ _
  | uint h =>
    rintro w ⟨⟩
    exact .held _ _
  | string h =>
    rintro w ⟨⟩
    exact .held _ _
  | @time t h =>
    intro w hw
    cases hw with
    | kept hk => cases hk
    | time ho hi =>
      obtain rfl := Time.eq_of_instant h ho hi.symm
      exact .held _ _
  | duration d =>
    rintro w ⟨⟩
    exact .held _ _
  | any data h =>
    intro w hw
    cases hw with
    | kept hk => cases hk
    | sealed tag data => exact .held _ _
    | json hj => cases hj
  | @group as hn hk hv ih =>
    intro w hw
    rw [settle] at hw
    cases hw with
    | @group _ ns hkeys hreads =>
      rw [map_fst_settleMembers] at hkeys
      refine .group hkeys ?_
      intro k v w hkv hkw
      have hks : (k, v.settle) ∈ settleMembers as := by
        rw [settleMembers_eq_map]
        exact List.mem_map_of_mem hkv
      exact ih (k, v) hkv (hreads k v.settle w hks hkw)

/-! ### Records -/

/-- The same record, the attributes of each group in any order and without the time that marks one
that was never set. -/
structure Record.Reorders (r r' : Record) : Prop where
  message : r'.message = r.message
  level : r'.level = r.level
  time : r'.time = if isZeroTime r.time then none else r.time
  attrs : (Value.group r.attrs).Reorders (.group r'.attrs)

namespace Record

theorem IsDecoded.exists_fillHead? {r : Record} (h : r.IsDecoded) :
    ∃ head, Wire.fillHead? .blank r = some head := by
  obtain ⟨l, hl⟩ := h.level
  have hcode : Wire.levelCode? r.level = some (l.number : Int) := by
    rw [hl]
    cases l <;> rfl
  unfold Wire.fillHead?
  rw [Wire.encodable?_of_isSome h.message, hcode]
  simp only [Option.bind_eq_bind, Option.bind_some]
  by_cases hz : isZeroTime r.time = true
  · rw [if_pos hz]
    exact ⟨_, rfl⟩
  · rw [if_neg hz]
    cases ht : r.time with
    | none => rw [ht] at hz; exact absurd rfl hz
    | some t =>
      obtain ⟨s, hs⟩ := Wire.Stamp.exists_ofTime? (h.time t ht)
      rw [Option.bind_some, hs]
      exact ⟨_, rfl⟩

/-- A record with distinct keys can be written just if what stands before its attributes and each of these can be. -/
theorem exists_fillRecord_iff {r : Record} (hn : (r.attrs.map Prod.fst).Nodup) :
    (∃ m, Wire.fillRecord .blank r = .ok m) ↔ (∃ head, Wire.fillHead? .blank r = some head) ∧
      ∀ a ∈ r.attrs, (Utf8.encode? a.1).isSome ∧ ∃ m, Wire.fill a.1 .unset a.2.settle = .ok m := by
  have hvalues : (∃ as, Wire.fillEach id [] (Value.settleMembers r.attrs) = .ok as) ↔
      ∀ a ∈ r.attrs, (Utf8.encode? a.1).isSome ∧ ∃ m, Wire.fill a.1 .unset a.2.settle = .ok m :=
    Wire.exists_fillEach_settleMembers_iff hn
  rw [← hvalues]
  unfold Wire.fillRecord
  cases hhead : Wire.fillHead? .blank r with
  | none =>
    constructor
    · rintro ⟨m, ⟨⟩⟩
    · rintro ⟨⟨head, ⟨⟩⟩, -⟩
  | some head =>
    dsimp only
    rw [(Wire.headWrittenAs_of_fillHead? hhead).2, Wire.fillAttrs_eq_fillEach]
    constructor
    · rintro ⟨m, hm⟩
      obtain ⟨as, has, -⟩ := exists_of_map_eq_ok hm
      exact ⟨⟨head, rfl⟩, as, has⟩
    · rintro ⟨-, as, has⟩
      exact ⟨_, congrArg (Except.map _) has⟩

/-- **A decoded record can be written.** -/
theorem IsDecoded.exists_encode {r : Record} (h : r.IsDecoded) :
    ∃ m, Wire.fillRecord .blank r = .ok m ∧ r.encode = .ok m.toBytes := by
  cases h.attrs with
  | group hn hk hv =>
    obtain ⟨m, hm⟩ := (exists_fillRecord_iff hn).mpr
      ⟨h.exists_fillHead?, fun a ha => ⟨hk a ha, (hv a ha).exists_fill a.1⟩⟩
    exact ⟨m, hm, congrArg (Except.map _) hm⟩

/-- The message that a regular record fills is read as this record. -/
theorem decode_toBytes {r : Record} (hr : r.IsRegular) {m : Wire.RecordMessage}
    (hm : Wire.fillRecord .blank r = .ok m) (hl : m.toBytes.length < 0x10000000000000000) :
    ∃ r', decode m.toBytes = .ok r' ∧ r.ReadsAs r' := by
  obtain ⟨hh, ha⟩ := Wire.writtenAs_of_fillRecord hr hm
  unfold decode
  rw [Wire.RecordMessage.read?_toBytes (Wire.fits_of_writtenAs hr hh ha) hl]
  exact Wire.RecordMessage.toRecord_inOrder hr hh ha

theorem IsDecoded.time_eq {r : Record} (h : r.IsDecoded) {time : Option Time}
    (ht : TimeReadsAs r.time time) : time = if isZeroTime r.time then none else r.time := by
  generalize hr : r.time = start at ht
  cases ht with
  | unset hz => rw [if_pos hz]
  | @set t u hz ho hi =>
    rw [hz]
    exact congrArg some (Time.eq_of_instant ho (h.time t hr) hi)

theorem IsDecoded.reorders {r r' : Record} (h : r.IsDecoded) (hr : r.ReadsAs r') :
    r.Reorders r' where
  message := hr.message
  level := hr.level
  time := h.time_eq hr.time
  attrs := h.attrs.reorders hr.attrs

/-- **Every payload is refused, or decoded to a record that can be written.** What is written is
decoded to the same record, if that is not nested deeper than messages are read, and is refused if
it is. The length of what is written has 64 bits, as that of every string of bytes. -/
theorem decode_stable (bs : Bytes) : (∃ e, decode bs = .error e) ∨
    ∃ r, decode bs = .ok r ∧ r.IsDecoded ∧ ∃ out, r.encode = .ok out ∧
      (out.length < 0x10000000000000000 →
        (r.nesting ≤ Wire.maxDepth → ∃ r', decode out = .ok r' ∧ r.Reorders r') ∧
        (Wire.maxDepth < r.nesting → decode out = .error .malformed)) := by
  cases hr : decode bs with
  | error e => exact Or.inl ⟨e, rfl⟩
  | ok r =>
    have h := isDecoded_of_decode hr
    have hvalues := h.attrs.isRegular_settle
    obtain ⟨m, hm, hout⟩ := h.exists_encode
    refine Or.inr ⟨r, rfl, h, m.toBytes, hout, ?_⟩
    intro hl
    constructor
    · intro hd
      obtain ⟨r', hr', hreads⟩ := decode_toBytes ⟨h.level, h.keys, hvalues, hd⟩ hm hl
      exact ⟨r', hr', h.reorders hreads⟩
    · exact decode_of_deep hvalues hm hl

/-- How deep the record of a payload is nested, and how long it is where it is written. -/
def written (bs : Bytes) : Option (Nat × Option Nat) :=
  (decode bs).toOption.map fun r => (r.nesting, r.encode.toOption.map List.length)

theorem exists_of_written {bs : Bytes} {nesting length : Nat}
    (h : written bs = some (nesting, some length)) :
    ∃ r out, decode bs = .ok r ∧ r.nesting = nesting ∧ r.encode = .ok out ∧ out.length = length := by
  unfold written at h
  cases hr : decode bs with
  | error e => rw [hr] at h; cases h
  | ok r =>
    rw [hr] at h
    obtain ⟨hn, hl⟩ := Prod.mk.inj (Option.some.inj h)
    cases hout : r.encode with
    | error e => rw [hout] at hl; cases hl
    | ok out =>
      rw [hout] at hl
      exact ⟨r, out, rfl, hn, hout, Option.some.inj hl⟩

/-- The payload of a record at the zero time with one attribute, whose group is in two parts with an
integer in the one and under the same key a truth value in the other. -/
def parted : Bytes :=
  [0x22, 0x1b, 0x0a, 0x01, 0x67, 0x12, 0x16,
    0x42, 0x09, 0x0a, 0x07, 0x0a, 0x01, 0x61, 0x12, 0x02, 0x18, 0x01,
    0x42, 0x09, 0x0a, 0x07, 0x0a, 0x01, 0x61, 0x12, 0x02, 0x08, 0x01,
    0x0a, 0x0b, 0x08, 0x80, 0x92, 0xb8, 0xc3, 0x98, 0xfe, 0xff, 0xff, 0xff, 0x01]

theorem decode_stable_parted : ∃ r out r', decode parted = .ok r ∧ r.encode = .ok out ∧
    decode out = .ok r' ∧ r.Reorders r' := by
  have hw : written parted = some (5, some 18) := by decide +kernel
  obtain ⟨r, out, hr, hn, hout, hl⟩ := exists_of_written hw
  rcases decode_stable parted with ⟨e, he⟩ | ⟨r₁, hr₁, -, out₁, hout₁, h⟩
  · rw [hr] at he
    cases he
  · rw [hr] at hr₁
    cases hr₁
    rw [hout] at hout₁
    cases hout₁
    have hd : r.nesting ≤ Wire.maxDepth := by
      rw [hn]
      decide
    obtain ⟨r', hr', hreorders⟩ := (h (by omega)).1 hd
    exact ⟨r, out, r', hr, hout, hr', hreorders⟩

/-- Entries one in the other, the innermost without a value. -/
def nestedEntry : Nat → Bytes
  | 0 => []
  | n + 1 => Wire.Field.ofBytes 2 (Wire.Field.ofBytes 8 (Wire.Field.ofBytes 1 (nestedEntry n)))

/-- A payload that is nested as deep as messages are read. -/
def deepest : Bytes :=
  Wire.Field.ofBytes 4 (Wire.Field.ofBytes 1 (Utf8.encodeAll (Text.lit "g")) ++ nestedEntry 33)

/-- **Not every decoded record is decoded again:** the innermost value of `deepest` is left out, and
is refused where it is written. -/
theorem decode_encode_deepest : ¬ ∀ (bs : Bytes) (r : Record), decode bs = .ok r →
    ∃ out r', r.encode = .ok out ∧ decode out = .ok r' ∧ r.Reorders r' := by
  intro h
  have hw : written deepest = some (101, some 324) := by decide +kernel
  obtain ⟨r, out, hr, hn, hout, hl⟩ := exists_of_written hw
  obtain ⟨out₁, r', hout₁, hr', -⟩ := h deepest r hr
  rw [hout] at hout₁
  cases hout₁
  have hd := isDecoded_of_decode hr
  obtain ⟨m, hm, hbytes⟩ := hd.exists_encode
  rw [hout] at hbytes
  cases hbytes
  have hdeep : Wire.maxDepth < r.nesting := by
    rw [hn]
    decide
  rw [decode_of_deep hd.attrs.isRegular_settle hm (by omega) hdeep] at hr'
  cases hr'

end Record

end LogStream
