import LogStream.Proofs.Wire.Image
import LogStream.Proofs.Wire.Depth

/-! # Whatever is written is read

A value need not be regular to be written: the member of its kind also takes payloads of other types
where they can be converted, and members that a group names twice fill one entry. All the same each
value leaves a member that can be read back (`Member.IsReadable`), with messages nested no deeper
than the value (`keepsReadable`). So the bytes of a record that has a level are decoded
(`Record.exists_decode`), whatever values it holds, unless messages are nested too deep in them:
then they are refused (`Record.decode_of_depth`). -/

namespace LogStream

namespace Wire

/-! ### Members that can be read back -/

/-- A member that can be read back: it fits the wire, and it has a value. -/
structure Member.IsReadable (m : Member) : Prop where
  fits : m.Fits
  value : ∃ v, m.toValue = .ok v

theorem isReadable_unset : Member.unset.IsReadable := ⟨.unset, .empty, rfl⟩

theorem isReadable_group {as : List (Text × Member)} (hn : (as.map Prod.fst).Nodup)
    (hk : ∀ a ∈ as, (Utf8.encode? a.1).isSome) (hm : ∀ a ∈ as, a.2.IsReadable) :
    (Member.group as).IsReadable := by
  obtain ⟨vs, hvs, -⟩ := Member.toValues_eq_ok fun a ha => (hm a ha).value
  refine ⟨.group hn hk fun a ha => (hm a ha).fits, .group vs, ?_⟩
  rw [Member.toValue, hvs]
  rfl

theorem isReadable_nil : (Member.group []).IsReadable :=
  isReadable_group List.nodup_nil (List.forall_mem_nil _) (List.forall_mem_nil _)

theorem isReadable_of_mem {as : List (Text × Member)} (h : (Member.group as).IsReadable) :
    ∀ a ∈ as, a.2.IsReadable := by
  obtain ⟨hf, v, hv⟩ := h
  rw [Member.toValue] at hv
  cases hvs : Member.toValues as with
  | error e => rw [hvs] at hv; cases hv
  | ok vs =>
    cases hf with
    | group hn hk hm => exact fun a ha => ⟨hm a ha, Member.toValue_of_toValues hvs a ha⟩

theorem isReadable_put {as : List (Text × Member)} {k : Text} {m : Member}
    (h : (Member.group as).IsReadable) (hk : (Utf8.encode? k).isSome) (hm : m.IsReadable) :
    (Member.group (Attrs.put as k m)).IsReadable := by
  have hmembers := isReadable_of_mem h
  cases h.fits with
  | group hn hkeys _ =>
    refine isReadable_group (Attrs.nodup_put hn k m) ?_ ?_
    · intro a ha
      rcases Attrs.mem_put ha with rfl | ha
      · exact hk
      · exact hkeys a ha
    · intro a ha
      rcases Attrs.mem_put ha with rfl | ha
      · exact hm
      · exact hmembers a ha

theorem Member.IsReadable.groupAttrs {m : Member} (h : m.IsReadable) :
    (Member.group m.groupAttrs).IsReadable := by
  cases m with
  | group as => exact h
  | _ => exact isReadable_nil

theorem depth_group_groupAttrs (m : Member) :
    (Member.group m.groupAttrs).depth ≤ max m.depth 1 := by
  cases m with
  | group as => exact Nat.le_max_left ..
  | _ => exact Nat.le_max_right ..

theorem depthBelow_put_le (as : List (Text × Member)) (k : Text) (m : Member) :
    Member.depthBelow (Attrs.put as k m) ≤ max (Member.depthBelow as) (2 + m.depth) := by
  refine Member.depthBelow_le fun a ha => ?_
  rcases Attrs.mem_put ha with rfl | ha
  · exact Nat.le_max_right ..
  · exact Nat.le_trans (Member.depth_le_of_mem ha) (Nat.le_max_left ..)

/-- The member under a key, which is unset where the key is not bound. -/
theorem lookup_getD_cases (as : List (Text × Member)) (k : Text) :
    (as.lookup k).getD .unset = .unset ∨ (k, (as.lookup k).getD .unset) ∈ as := by
  cases h : as.lookup k with
  | none => exact Or.inl rfl
  | some m =>
    obtain ⟨front, back, rfl, -⟩ := List.lookup_eq_some_iff.mp h
    exact Or.inr (List.mem_append_right _ List.mem_cons_self)

theorem isReadable_lookup {as : List (Text × Member)} (h : (Member.group as).IsReadable)
    (k : Text) : ((as.lookup k).getD .unset).IsReadable := by
  rcases lookup_getD_cases as k with hk | hk
  · rw [hk]
    exact isReadable_unset
  · exact isReadable_of_mem h _ hk

theorem depth_lookup_le (as : List (Text × Member)) (k : Text) :
    2 + ((as.lookup k).getD .unset).depth ≤ max (Member.depthBelow as) 2 := by
  rcases lookup_getD_cases as k with hk | hk
  · rw [hk]
    exact Nat.le_max_right ..
  · exact Nat.le_trans (Member.depth_le_of_mem hk) (Nat.le_max_left ..)

/-! ### Filling -/

/-- Filled into a member that can be read back, the value leaves one that can be, in which messages
are nested no deeper than they were or are in the value. -/
def KeepsReadable (s : Settled) : Prop :=
  ∀ ⦃key : Text⦄ ⦃m m' : Member⦄, m.IsReadable → fill key m s = .ok m' →
    m'.IsReadable ∧ m'.depth ≤ max m.depth s.nesting

theorem integer?_bounds {low high n : Int} {d : Datum} (h : integer? low high d = some n) :
    low ≤ n ∧ n ≤ high := by
  cases d with
  | int i =>
    obtain ⟨rfl, hb⟩ := integer?_eq_some h
    exact hb
  | _ => cases h

theorem isSome_encode?_of_text? {d : Datum} {t : Text} (h : text? d = some t) :
    (Utf8.encode? t).isSome := by
  cases d with
  | text u =>
    obtain ⟨hu, rfl⟩ := encodable?_eq_some h
    exact hu
  | bytes bs => exact Utf8.isSome_encode?_of_decode? h
  | _ => cases h

/-- **What a payload of any type leaves can be read back**, whatever its kind is. -/
theorem keepsReadable_held (k : Kind) (d : Datum) : KeepsReadable (.held k d) := by
  intro key m m' hm h
  rw [fill] at h
  cases k with
  | bool =>
    obtain ⟨b, -, rfl⟩ := Option.map_eq_some_iff.mp (eq_some_of_elim_eq_ok h)
    exact ⟨⟨.bool b, _, rfl⟩, Nat.zero_le _⟩
  | int =>
    obtain ⟨n, hn, rfl⟩ := Option.map_eq_some_iff.mp (eq_some_of_elim_eq_ok h)
    obtain ⟨hlow, hhigh⟩ := integer?_bounds hn
    exact ⟨⟨.int ⟨hlow, Int.lt_add_one_of_le hhigh⟩, _, rfl⟩, Nat.zero_le _⟩
  | uint =>
    obtain ⟨n, hn, rfl⟩ := Option.map_eq_some_iff.mp (eq_some_of_elim_eq_ok h)
    obtain ⟨hlow, hhigh⟩ := integer?_bounds hn
    unfold uint64Max at hhigh
    exact ⟨⟨.uint (by omega), _, rfl⟩, Nat.zero_le _⟩
  | float =>
    obtain ⟨x, -, rfl⟩ := Option.map_eq_some_iff.mp (eq_some_of_elim_eq_ok h)
    exact ⟨⟨.float x, _, rfl⟩, Nat.zero_le _⟩
  | string =>
    obtain ⟨t, ht, rfl⟩ := Option.map_eq_some_iff.mp (eq_some_of_elim_eq_ok h)
    exact ⟨⟨.string (isSome_encode?_of_text? ht), _, rfl⟩, Nat.zero_le _⟩
  | time =>
    cases d with
    | time t =>
      obtain ⟨s, hs, rfl⟩ := Option.map_eq_some_iff.mp (eq_some_of_elim_eq_ok h)
      obtain ⟨u, hu, -, -⟩ := Stamp.toTime?_of_ofTime? hs
      refine ⟨⟨.time (Stamp.fits_of_ofTime? hs), .held .time (.time u), ?_⟩, Nat.le_max_right ..⟩
      rw [Member.toValue, hu]
      rfl
    | _ => cases h
  | duration =>
    cases d with
    | duration d =>
      cases h
      refine ⟨⟨.duration (Stamp.fits_ofDuration d), .held .duration (.duration d), ?_⟩,
        Nat.le_max_right ..⟩
      rw [Member.toValue, Stamp.toDuration?_ofDuration]
      rfl
    | _ => cases h
  | any =>
    obtain ⟨p, -, h⟩ := exists_of_bind_eq_ok h
    obtain ⟨tag, ht, rfl⟩ := Option.map_eq_some_iff.mp (eq_some_of_elim_eq_ok h)
    obtain ⟨htag, rfl⟩ := encodable?_eq_some ht
    exact ⟨⟨.any p.data htag, _, rfl⟩, Nat.le_max_right ..⟩
  | lazy =>
    cases h
    exact ⟨hm, Nat.le_max_left ..⟩

/-- Values that do so one by one leave attributes that can be read back, whatever their keys. -/
theorem isReadable_of_fillEach {named : Text → Text} : ∀ {ms : List (Text × Settled)}
    {attrs as : List (Text × Member)}, (∀ a ∈ ms, KeepsReadable a.2) →
      (Member.group attrs).IsReadable → fillEach named attrs ms = .ok as →
      (Member.group as).IsReadable ∧
        Member.depthBelow as ≤ max (Member.depthBelow attrs) (Settled.nestingBelow ms)
  | [], attrs, as, _, ha, h => by
    cases h
    exact ⟨ha, Nat.le_max_left ..⟩
  | (k, s) :: ms, attrs, as, hms, ha, h => by
    rw [List.forall_mem_cons] at hms
    rw [fillEach] at h
    cases hk : encodable? k with
    | none => rw [hk] at h; cases h
    | some k' =>
      obtain ⟨henc, rfl⟩ := encodable?_eq_some hk
      rw [hk] at h
      obtain ⟨m, hm, h⟩ := exists_of_bind_eq_ok h
      obtain ⟨hread, hdepth⟩ :
          m.IsReadable ∧ m.depth ≤ max ((attrs.lookup k').getD .unset).depth s.nesting :=
        hms.1 (isReadable_lookup ha k') hm
      obtain ⟨has, hbelow⟩ := isReadable_of_fillEach hms.2 (isReadable_put ha henc hread) h
      refine ⟨has, ?_⟩
      have hput := depthBelow_put_le attrs k' m
      have hlookup := depth_lookup_le attrs k'
      rw [Settled.nestingBelow]
      omega

theorem keepsReadable_group {ms : List (Text × Settled)} (hms : ∀ a ∈ ms, KeepsReadable a.2) :
    KeepsReadable (.group ms) := by
  intro key m m' hm h
  rw [fill, fillGroup_eq_fillEach] at h
  obtain ⟨as, has, rfl⟩ := exists_of_map_eq_ok h
  obtain ⟨hread, hbelow⟩ := isReadable_of_fillEach hms hm.groupAttrs has
  refine ⟨hread, ?_⟩
  have hgroup := depth_group_groupAttrs m
  rw [Member.depth] at hgroup ⊢
  rw [Settled.nesting]
  omega

mutual

/-- **Whatever value is filled in, what it leaves can be read back**, and messages are nested in it
no deeper than they were or are in the value. -/
theorem keepsReadable : ∀ s : Settled, KeepsReadable s
  | .empty => by
    intro key m m' hm h
    cases h
    exact ⟨hm, Nat.le_max_left ..⟩
  | .held k d => keepsReadable_held k d
  | .group ms => keepsReadable_group (allKeepReadable ms)
  | .foreign name => by
    intro key m m' _ h
    cases h
  | .failed e => by
    intro key m m' _ h
    cases h

theorem allKeepReadable : ∀ (ms : List (Text × Settled)), ∀ a ∈ ms, KeepsReadable a.2
  | [] => List.forall_mem_nil _
  | (_, s) :: ms => List.forall_mem_cons.mpr ⟨keepsReadable s, allKeepReadable ms⟩

end

/-! ### Reading -/

/-- A member that has a value has one with its attributes in order. -/
theorem Member.Fits.exists_toValue_ordered {m : Member} (h : m.Fits) :
    (∃ v, m.toValue = .ok v) → ∃ v, m.ordered.toValue = .ok v := by
  induction h with
  | @group as hn hk hm ih =>
    intro hv
    have hread := isReadable_of_mem ⟨.group hn hk hm, hv⟩
    have hordered : ∀ b ∈ inOrder as, ∃ v, b.2.toValue = .ok v := by
      intro b hb
      obtain ⟨a, ha, rfl⟩ := mem_inOrder hb
      exact ih a ha (hread a ha).value
    obtain ⟨vs, hvs, -⟩ := Member.toValues_eq_ok hordered
    have ho : (Member.group as).ordered = .group (inOrder as) := rfl
    refine ⟨.group vs, ?_⟩
    rw [ho, Member.toValue, hvs]
    rfl
  | _ => exact id

/-- A message with a level, a time in range if it has one, and attributes that have values is a
record. -/
theorem RecordMessage.exists_toRecord {m : RecordMessage} {l : Level}
    (hl : Level.ofNumber? m.level = some l) (ht : ∀ s ∈ m.time, ∃ t, s.toTime? = some t)
    (ha : ∀ a ∈ m.attrs, ∃ v, a.2.toValue = .ok v) : ∃ r, m.toRecord = .ok r := by
  obtain ⟨vs, hvs, -⟩ := Member.toValues_eq_ok fun a hf => ha a (List.mem_filter.mp hf).1
  unfold toRecord
  rw [hl, hvs]
  cases hm : m.time with
  | none => exact ⟨_, rfl⟩
  | some s =>
    obtain ⟨t, ht⟩ := ht s hm
    dsimp only
    rw [ht]
    exact ⟨_, rfl⟩

end Wire

namespace Record

variable {r : Record} {m : Wire.RecordMessage}

/-- What the attributes of a record leave in its message. -/
theorem isReadable_of_fillRecord (hm : Wire.fillRecord .blank r = .ok m) :
    (Wire.Member.group m.attrs).IsReadable ∧ Wire.Member.depthBelow m.attrs ≤ r.nesting := by
  obtain ⟨-, hf⟩ := Wire.fillRecord_eq_ok hm
  obtain ⟨hread, hd⟩ := Wire.isReadable_of_fillEach
    (Wire.allKeepReadable (Value.settleMembers r.attrs)) Wire.isReadable_nil hf
  refine ⟨hread, ?_⟩
  rwa [Wire.Member.depthBelow, Nat.zero_max] at hd

/-- **What is written is refused exactly if messages are nested in it deeper than they are read.**
The length of what is written has 64 bits, as that of every string of bytes. -/
theorem decode_of_depth {l : Level} (hl : r.level = .level l)
    (hm : Wire.fillRecord .blank r = .ok m) (hlen : m.toBytes.length < 0x10000000000000000) :
    (Wire.Member.depthBelow m.attrs ≤ Wire.maxDepth → ∃ r', decode m.toBytes = .ok r') ∧
      (Wire.maxDepth < Wire.Member.depthBelow m.attrs → decode m.toBytes = .error .malformed) := by
  obtain ⟨hread, -⟩ := isReadable_of_fillRecord hm
  obtain ⟨hhead, -⟩ := Wire.fillRecord_eq_ok hm
  cases hread.fits with
  | group hn hk hfits =>
    unfold decode
    constructor
    · intro hd
      have hlevel : Level.ofNumber? m.level = some l := by
        rw [hhead.level, hl]
        exact Level.ofNumber?_number l
      have htime : ∀ s ∈ m.time, ∃ t, s.toTime? = some t := by
        intro s hs
        rcases hhead.time.reads with ⟨hnone, -⟩ | ⟨s', t, hs', ht, -⟩
        · rw [hnone] at hs
          cases hs
        · rw [hs'] at hs
          cases hs
          exact ⟨t, ht⟩
      have hvalues : ∀ b ∈ Wire.inOrder m.attrs, ∃ v, b.2.toValue = .ok v := by
        intro b hb
        obtain ⟨a, ha, rfl⟩ := Wire.mem_inOrder hb
        exact (hfits a ha).exists_toValue_ordered (Wire.isReadable_of_mem hread a ha).value
      rw [Wire.RecordMessage.read?_toBytes
        ⟨hhead.time.fits, hhead.encodable, hhead.bounds, hn, hk, hfits, hd⟩ hlen]
      exact Wire.RecordMessage.exists_toRecord hlevel htime hvalues
    · intro hd
      rw [Wire.RecordMessage.read?_eq_none hk hfits hd hlen]

/-- **What is written is read**, whatever values the record holds, if it has a level and is not
nested deeper than messages are read. -/
theorem exists_decode {l : Level} (hl : r.level = .level l) (hd : r.nesting ≤ Wire.maxDepth)
    {payload : Bytes} (hp : r.encode = .ok payload)
    (hlen : payload.length < 0x10000000000000000) : ∃ r', decode payload = .ok r' := by
  obtain ⟨m, hm, rfl⟩ := exists_of_map_eq_ok hp
  obtain ⟨-, hnesting⟩ := isReadable_of_fillRecord hm
  exact (decode_of_depth hl hm hlen).1 (Nat.le_trans hnesting hd)

end Record

end LogStream
