import LogStream.Proofs.Outcome
import LogStream.Proofs.Wire.Fill

/-! # What payloads hold

What any payload is read as, whatever fields it has, in whatever order and however often: integers
have 64 bits, texts have an encoding, and the keys of every group are distinct (`Member.IsRead`).
This is kept when one more field is read into a value, a group or an entry
(`isRead_of_merge`), by induction on the depth that is left. So a record that was decoded has a
level, keys that are not empty, times in UTC and nothing lazy (`Record.isDecoded_of_decode`). -/

namespace LogStream

/-! ### Members -/

namespace Wire

/-- A member that may have been read: its integers have 64 bits, its texts have an encoding, and the
keys of its groups are distinct. -/
inductive Member.IsRead : Member → Prop
  | unset : IsRead .unset
  | unknown : IsRead .unknown
  | bool (b : Bool) : IsRead (.bool b)
  | float (x : Double) : IsRead (.float x)
  | int {n : Int} (h : int64Min ≤ n ∧ n ≤ int64Max) : IsRead (.int n)
  | string {t : Text} (h : (Utf8.encode? t).isSome) : IsRead (.string t)
  | time (s : Stamp) : IsRead (.time s)
  | duration (s : Stamp) : IsRead (.duration s)
  | uint {n : Nat} (h : n < 0x10000000000000000) : IsRead (.uint n)
  | group {as : List (Text × Member)} (hn : (as.map Prod.fst).Nodup)
      (hk : ∀ a ∈ as, (Utf8.encode? a.1).isSome) (hm : ∀ a ∈ as, IsRead a.2) : IsRead (.group as)
  | any {tag : Text} (data : Bytes) (h : (Utf8.encode? tag).isSome) : IsRead (.any tag data)

/-- An entry that may have been read. -/
structure Entry.IsRead (e : Entry) : Prop where
  key : (Utf8.encode? e.key).isSome
  member : e.member.IsRead

theorem isRead_nil : (Member.group []).IsRead :=
  .group List.nodup_nil (List.forall_mem_nil _) (List.forall_mem_nil _)

theorem isRead_put {as : List (Text × Member)} {k : Text} {m : Member}
    (h : (Member.group as).IsRead) (hk : (Utf8.encode? k).isSome) (hm : m.IsRead) :
    (Member.group (Attrs.put as k m)).IsRead := by
  cases h with
  | group hn hkeys hmembers =>
    refine .group (Attrs.nodup_put hn k m) ?_ ?_
    · intro a ha
      rcases Attrs.mem_put ha with rfl | ha
      · exact hk
      · exact hkeys a ha
    · intro a ha
      rcases Attrs.mem_put ha with rfl | ha
      · exact hm
      · exact hmembers a ha

theorem Entry.IsRead.bindIn {e : Entry} (he : e.IsRead) {as : List (Text × Member)}
    (h : (Member.group as).IsRead) : (Member.group (e.bindIn as)).IsRead := by
  unfold Entry.bindIn
  split
  · exact h
  · exact isRead_put h he.key he.member

theorem Member.IsRead.groupAttrs {m : Member} (h : m.IsRead) :
    (Member.group m.groupAttrs).IsRead := by
  cases h with
  | group hn hk hm => exact .group hn hk hm
  | _ => exact isRead_nil

theorem Member.IsRead.anyPayload {m : Member} (h : m.IsRead) :
    (Utf8.encode? m.anyPayload.tag).isSome := by
  cases h with
  | any data h => exact h
  | _ => rfl

theorem Member.IsRead.meetUnknown {m : Member} (h : m.IsRead) : m.meetUnknown.IsRead := by
  cases h with
  | unset => exact .unknown
  | _ => constructor <;> assumption

/-! ### Reading one more field -/

/-- What holds of a state and is kept by each field holds after all fields. -/
theorem foldlM_keeps {σ : Type} {step : σ → Field → Option σ} {P : σ → Prop}
    (hstep : ∀ {s f s'}, P s → Field.Content.IsRead f.content → step s f = some s' → P s') :
    ∀ {fs : List Field} {s s' : σ}, (∀ f ∈ fs, Field.Content.IsRead f.content) → P s →
      fs.foldlM step s = some s' → P s'
  | [], s, s', _, hs, h => by
    cases h
    exact hs
  | f :: fs, s, s', hf, hs, h => by
    rw [List.forall_mem_cons] at hf
    rw [List.foldlM_cons] at h
    obtain ⟨t, ht, h⟩ := Option.bind_eq_some_iff.mp h
    exact foldlM_keeps hstep hf.2 (hstep hs hf.1 ht) h

theorem toInt64_bounds (n : Nat) : int64Min ≤ Varint.toInt64 n ∧ Varint.toInt64 n ≤ int64Max := by
  unfold Varint.toInt64 int64Min int64Max Int.bmod
  dsimp only
  split <;> omega

theorem isSome_encode?_of_merge? {p p' : Payload} {bs : Bytes} {depth : Nat}
    (hp : (Utf8.encode? p.tag).isSome) (h : p.merge? bs depth = some p') :
    (Utf8.encode? p'.tag).isSome := by
  unfold Payload.merge? at h
  obtain ⟨fs, hfs, h⟩ := Option.bind_eq_some_iff.mp h
  refine foldlM_keeps (P := fun p => (Utf8.encode? p.tag).isSome) ?_
    (Field.isRead_of_readFrom hfs) hp h
  intro p f p' hp _ h
  unfold Payload.put? at h
  split at h
  · obtain ⟨t, ht, rfl⟩ := Option.map_eq_some_iff.mp h
    exact Utf8.isSome_encode?_of_decode? ht
  · cases h
    exact hp
  · cases h
    exact hp

theorem below?_eq_some {α : Type} {depth : Nat} {read : Nat → Option α} {a : α}
    (h : below? depth read = some a) : ∃ d, depth = d + 1 ∧ read d = some a := by
  cases depth with
  | zero => cases h
  | succ d => exact ⟨d, rfl, h⟩

/-- What the readers of values, groups and entries keep at a depth. -/
structure KeepsRead (depth : Nat) : Prop where
  member : ∀ {m bs m'}, Member.IsRead m → mergeMember? m bs depth = some m' → m'.IsRead
  group : ∀ {as bs as'}, (Member.group as).IsRead → mergeGroup? as bs depth = some as' →
    (Member.group as').IsRead
  pair : ∀ {bs e}, readPair? bs depth = some e → e.IsRead

theorem isRead_of_mergeMember? {depth : Nat} (hb : ∀ d, depth = d + 1 → KeepsRead d)
    {m m' : Member} {bs : Bytes} (hm : m.IsRead) (h : mergeMember? m bs depth = some m') :
    m'.IsRead := by
  rw [mergeMember?.eq_def] at h
  split at h
  · cases h
  next fs hfs =>
  refine foldlM_keeps ?_ (Field.isRead_of_readFrom hfs) hm h
  intro m ⟨number, content⟩ m' hm hf h
  -- one case for each number of a field, and one for the fields that are not known
  split at h
  · cases h
    exact .bool _
  · cases h
    exact .float _
  · cases h
    exact .int (toInt64_bounds _)
  · obtain ⟨t, ht, rfl⟩ := Option.map_eq_some_iff.mp h
    exact .string (Utf8.isSome_encode?_of_decode? ht)
  · obtain ⟨s, -, rfl⟩ := Option.map_eq_some_iff.mp h
    exact .time s
  · obtain ⟨s, -, rfl⟩ := Option.map_eq_some_iff.mp h
    exact .duration s
  · next n hc =>
    cases h
    cases hc
    exact .uint hf
  · split at h
    · cases h
    · obtain ⟨as, has, rfl⟩ := Option.map_eq_some_iff.mp h
      exact (hb _ rfl).group hm.groupAttrs has
  · obtain ⟨p, hp, rfl⟩ := Option.map_eq_some_iff.mp h
    obtain ⟨d, rfl, hp⟩ := below?_eq_some hp
    exact .any _ (isSome_encode?_of_merge? hm.anyPayload hp)
  · cases h
    exact hm.meetUnknown

theorem isRead_of_mergeGroup? {depth : Nat} (hb : ∀ d, depth = d + 1 → KeepsRead d)
    {as as' : List (Text × Member)} {bs : Bytes} (has : (Member.group as).IsRead)
    (h : mergeGroup? as bs depth = some as') : (Member.group as').IsRead := by
  rw [mergeGroup?.eq_def] at h
  split at h
  · cases h
  next fs hfs =>
  refine foldlM_keeps (P := fun as => (Member.group as).IsRead) ?_
    (Field.isRead_of_readFrom hfs) has h
  intro as ⟨number, content⟩ as' has _ h
  split at h
  · split at h
    · cases h
    · obtain ⟨e, he, rfl⟩ := Option.map_eq_some_iff.mp h
      exact ((hb _ rfl).pair he).bindIn has
  · cases h
    exact has

theorem isRead_of_readPair? {depth : Nat} (hb : ∀ d, depth = d + 1 → KeepsRead d)
    {bs : Bytes} {e : Entry} (h : readPair? bs depth = some e) : e.IsRead := by
  rw [readPair?.eq_def] at h
  split at h
  · cases h
  next fs hfs =>
  refine foldlM_keeps (P := Entry.IsRead) ?_ (Field.isRead_of_readFrom hfs) ⟨rfl, .unset⟩ h
  intro e ⟨number, content⟩ e' he _ h
  split at h
  · obtain ⟨t, ht, rfl⟩ := Option.map_eq_some_iff.mp h
    exact ⟨Utf8.isSome_encode?_of_decode? ht, he.member⟩
  · split at h
    · cases h
    · obtain ⟨m, hm, rfl⟩ := Option.map_eq_some_iff.mp h
      exact ⟨he.key, (hb _ rfl).member he.member hm⟩
  · cases h
    exact ⟨he.key, he.member⟩

/-- **Whatever is read into a value, a group or an entry**, it stays one that may have been read. -/
theorem isRead_of_merge (depth : Nat) : KeepsRead depth := by
  induction depth with
  | zero =>
    have hb : ∀ d, 0 = d + 1 → KeepsRead d := nofun
    exact ⟨isRead_of_mergeMember? hb, isRead_of_mergeGroup? hb, isRead_of_readPair? hb⟩
  | succ depth ih =>
    have hb : ∀ d, depth + 1 = d + 1 → KeepsRead d := by
      rintro d ⟨⟩
      exact ih
    exact ⟨isRead_of_mergeMember? hb, isRead_of_mergeGroup? hb, isRead_of_readPair? hb⟩

/-- A message that may have been read. -/
structure RecordMessage.IsRead (m : RecordMessage) : Prop where
  message : (Utf8.encode? m.message).isSome
  attrs : (Member.group m.attrs).IsRead

theorem RecordMessage.isRead_of_read? {bs : Bytes} {m : RecordMessage} (h : read? bs = some m) :
    m.IsRead := by
  unfold read? at h
  obtain ⟨fs, hfs, h⟩ := Option.bind_eq_some_iff.mp h
  refine foldlM_keeps ?_ (Field.isRead_of_readFrom hfs) ⟨rfl, isRead_nil⟩ h
  intro m ⟨number, content⟩ m' hm _ h
  unfold put? at h
  split at h
  · obtain ⟨s, -, rfl⟩ := Option.map_eq_some_iff.mp h
    exact ⟨hm.message, hm.attrs⟩
  · obtain ⟨t, ht, rfl⟩ := Option.map_eq_some_iff.mp h
    exact ⟨Utf8.isSome_encode?_of_decode? ht, hm.attrs⟩
  · cases h
    exact ⟨hm.message, hm.attrs⟩
  · obtain ⟨e, he, rfl⟩ := Option.map_eq_some_iff.mp h
    obtain ⟨d, -, he⟩ := below?_eq_some he
    exact ⟨hm.message, ((isRead_of_merge d).pair he).bindIn hm.attrs⟩
  · cases h
    exact hm

end Wire

/-! ### Values -/

/-- A value that may have been decoded: each payload has the type of its kind and its bounds, texts
have an encoding, times are in UTC, what is of the kind any is sealed, and the keys of every group
are distinct. No value is lazy. -/
inductive Value.IsDecoded : Value → Prop
  | empty : IsDecoded .empty
  | bool (b : Bool) : IsDecoded (.held .bool (.bool b))
  | float (x : Double) : IsDecoded (.held .float (.float x))
  | int {n : Int} (h : int64Min ≤ n ∧ n ≤ int64Max) : IsDecoded (.held .int (.int n))
  | uint {n : Int} (h : 0 ≤ n ∧ n ≤ uint64Max) : IsDecoded (.held .uint (.int n))
  | string {t : Text} (h : (Utf8.encode? t).isSome) : IsDecoded (.held .string (.text t))
  | time {t : Time} (h : t.offset = some 0) : IsDecoded (.held .time (.time t))
  | duration (d : Duration) : IsDecoded (.held .duration (.duration d))
  | any {tag : Text} (data : Bytes) (h : (Utf8.encode? tag).isSome) :
      IsDecoded (.held .any (.sealed tag data))
  | group {as : List Attr} (hn : (as.map Prod.fst).Nodup)
      (hk : ∀ a ∈ as, (Utf8.encode? a.1).isSome) (hv : ∀ a ∈ as, IsDecoded a.2) :
      IsDecoded (.group as)

/-- A record that may have been decoded: it has a level, keys that are not empty, and a time in UTC
if it has one. -/
structure Record.IsDecoded (r : Record) : Prop where
  message : (Utf8.encode? r.message).isSome
  level : ∃ l, r.level = .level l
  time : ∀ t ∈ r.time, t.offset = some 0
  keys : [] ∉ r.attrs.map Prod.fst
  attrs : (Value.group r.attrs).IsDecoded

namespace Wire

theorem Stamp.offset_of_toTime? {s : Stamp} {t : Time} (h : s.toTime? = some t) :
    t.offset = some 0 := by
  unfold toTime? at h
  split at h
  · exact (Time.ofInstant?_eq_some h).1
  · cases h

theorem eq_some_of_elim_error {α β : Type} {o : Option α} {e : DecodeError} {g : α → β} {b : β}
    (h : o.elim (Except.error e) (fun a => Except.ok (g a)) = .ok b) : ∃ a, o = some a ∧ g a = b := by
  cases o with
  | none => cases h
  | some a => exact ⟨a, rfl, Except.ok.inj h⟩

/-- Members that are read as the attributes of a group are read one by one. -/
theorem Member.toValue_of_toValues : ∀ {as : List (Text × Member)} {vs : List Attr},
    Member.toValues as = .ok vs → ∀ a ∈ as, ∃ v, a.2.toValue = .ok v
  | [], _, _ => List.forall_mem_nil _
  | (k, m) :: as, vs, h => by
    rw [Member.toValues] at h
    cases hv : m.toValue with
    | error e => rw [hv] at h; cases h
    | ok v =>
      cases hvs : Member.toValues as with
      | error e => rw [hv, hvs] at h; cases h
      | ok vs => exact List.forall_mem_cons.mpr ⟨⟨v, hv⟩, Member.toValue_of_toValues hvs⟩

theorem isDecoded_of_toValues {as : List (Text × Member)} {vs : List Attr}
    (hn : (as.map Prod.fst).Nodup) (hk : ∀ a ∈ as, (Utf8.encode? a.1).isSome)
    (hm : ∀ a ∈ as, ∀ {v}, a.2.toValue = .ok v → v.IsDecoded) (h : Member.toValues as = .ok vs) :
    (Value.group vs).IsDecoded := by
  obtain ⟨vs', hvs, hkeys, hread⟩ := Member.toValues_eq_ok (Member.toValue_of_toValues h)
  rw [h] at hvs
  cases hvs
  refine .group (hkeys ▸ hn) ?_ ?_
  · intro b hb
    obtain ⟨m, hmem, -⟩ := hread b hb
    exact hk _ hmem
  · intro b hb
    obtain ⟨m, hmem, hv⟩ := hread b hb
    exact hm _ hmem hv

/-- **What is made of a member that was read** is a value that may have been decoded. -/
theorem Member.isDecoded_of_toValue {m : Member} (hm : m.IsRead) :
    ∀ {v : Value}, m.toValue = .ok v → v.IsDecoded := by
  induction hm with
  | unset =>
    rintro v ⟨⟩
    exact .empty
  | unknown => nofun
  | bool b =>
    rintro v ⟨⟩
    exact .bool b
  | float x =>
    rintro v ⟨⟩
    exact .float x
  | int h =>
    rintro v ⟨⟩
    exact .int h
  | string h =>
    rintro v ⟨⟩
    exact .string h
  | time s =>
    intro v h
    obtain ⟨t, ht, rfl⟩ := eq_some_of_elim_error h
    exact .time (Stamp.offset_of_toTime? ht)
  | duration s =>
    intro v h
    obtain ⟨d, -, rfl⟩ := eq_some_of_elim_error h
    exact .duration d
  | @uint n h =>
    rintro v ⟨⟩
    exact .uint ⟨Int.natCast_nonneg n, by unfold uint64Max; omega⟩
  | @group as hn hk hmem ih =>
    intro v h
    rw [Member.toValue] at h
    cases hvs : Member.toValues as with
    | error e => rw [hvs] at h; cases h
    | ok vs =>
      rw [hvs] at h
      cases h
      exact isDecoded_of_toValues hn hk ih hvs
  | any data h =>
    rintro v ⟨⟩
    exact .any data h

theorem RecordMessage.toRecord_eq_ok {m : RecordMessage} {r : Record} (h : m.toRecord = .ok r) :
    ∃ level time attrs, (∀ t ∈ time, t.offset = some 0) ∧
      Member.toValues (m.attrs.filter fun a => a.1 != []) = .ok attrs ∧
      r = { message := m.message, level := .level level, time, attrs } := by
  unfold toRecord at h
  split at h
  · cases h
  next level _ =>
  cases hs : m.time with
  | none =>
    rw [hs] at h
    obtain ⟨time, ht, h⟩ := exists_of_bind_eq_ok h
    obtain ⟨attrs, ha, h⟩ := exists_of_bind_eq_ok h
    cases ht
    cases h
    exact ⟨level, none, attrs, nofun, ha, rfl⟩
  | some s =>
    rw [hs] at h
    obtain ⟨time, ht, h⟩ := exists_of_bind_eq_ok h
    obtain ⟨t, hst, rfl⟩ := eq_some_of_elim_error ht
    obtain ⟨attrs, ha, h⟩ := exists_of_bind_eq_ok h
    cases h
    refine ⟨level, some t, attrs, ?_, ha, rfl⟩
    rintro u ⟨⟩
    exact Stamp.offset_of_toTime? hst

theorem RecordMessage.isDecoded_of_toRecord {m : RecordMessage} (hm : m.IsRead) {r : Record}
    (h : m.toRecord = .ok r) : r.IsDecoded := by
  obtain ⟨hmessage, hattrs⟩ := hm
  obtain ⟨level, time, attrs, ht, ha, rfl⟩ := toRecord_eq_ok h
  obtain ⟨vs, hvs, hkeys, -⟩ := Member.toValues_eq_ok (Member.toValue_of_toValues ha)
  rw [ha] at hvs
  cases hvs
  have hfilter : ∀ a ∈ m.attrs.filter fun a => a.1 != [], a ∈ m.attrs ∧ a.1 ≠ [] := by
    intro a ha
    obtain ⟨hmem, hne⟩ := List.mem_filter.mp ha
    exact ⟨hmem, bne_iff_ne.mp hne⟩
  refine ⟨hmessage, ⟨level, rfl⟩, ht, ?_, ?_⟩
  · intro hnil
    rw [hkeys] at hnil
    obtain ⟨a, hmem, he⟩ := List.mem_map.mp hnil
    exact (hfilter a hmem).2 he
  · cases hattrs with
    | group hn hk hmembers =>
      refine isDecoded_of_toValues ?_ ?_ ?_ ha
      · exact (List.filter_sublist.map Prod.fst).nodup hn
      · exact fun a hmem => hk a (hfilter a hmem).1
      · exact fun a hmem _ => Member.isDecoded_of_toValue (hmembers a (hfilter a hmem).1)

end Wire

/-- **What a payload is decoded to**, whatever the payload. -/
theorem Record.isDecoded_of_decode {bs : Bytes} {r : Record} (h : decode bs = .ok r) :
    r.IsDecoded := by
  unfold decode at h
  cases hm : Wire.RecordMessage.read? bs with
  | none => rw [hm] at h; cases h
  | some m =>
    rw [hm] at h
    exact Wire.RecordMessage.isDecoded_of_toRecord (Wire.RecordMessage.isRead_of_read? hm) h

end LogStream
