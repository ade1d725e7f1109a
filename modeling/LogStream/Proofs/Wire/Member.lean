import LogStream.Wire.Message
import LogStream.Proofs.Datum.Mapping
import LogStream.Proofs.Text.Utf8
import LogStream.Proofs.Wire.Field

/-! # Members read back

The member of a value that fits the wire (`Member.Fits`) is read back from its bytes with the
attributes of its groups in the order of their keys (`mergeMember?_toBytes`), if messages may be
nested as deep as the member is (`Member.depth`). The proof follows the member: its bytes are those
of a single field, and a group is the fields of its entries, of which each is read as a pair of key
and member (`readPair?_entryBytes`) and bound behind those before it (`mergeGroup?_mapBytes`). -/

namespace LogStream.Wire

/-! ### Stamps and payloads -/

/-- Seconds that have 64 bits and nanoseconds that have 32. -/
structure Stamp.Fits (s : Stamp) : Prop where
  seconds : -0x8000000000000000 ≤ s.seconds ∧ s.seconds < 0x8000000000000000
  nanos : -0x80000000 ≤ s.nanos ∧ s.nanos < 0x80000000

theorem Stamp.toBytes_eq (s : Stamp) :
    s.toBytes = (Field.intIfSet 1 s.seconds ++ Field.intIfSet 2 s.nanos).flatMap Field.toBytes := by
  rw [List.flatMap_append, Field.flatMap_intIfSet, Field.flatMap_intIfSet]; rfl

/-- **A stamp is read back.** -/
theorem Stamp.merge?_toBytes {s : Stamp} (h : s.Fits) (depth : Nat) :
    Stamp.merge? {} s.toBytes depth = some s := by
  have hf : ∀ f ∈ Field.intIfSet 1 s.seconds ++ Field.intIfSet 2 s.nanos, f.Fits := by
    intro f hf
    rcases List.mem_append.mp hf with hf | hf
    · exact Field.fits_of_mem_intIfSet (by decide) f hf
    · exact Field.fits_of_mem_intIfSet (by decide) f hf
  have hs : (Field.intIfSet 1 s.seconds).foldl Stamp.put {} = { seconds := s.seconds } := by
    refine Field.foldl_intIfSet (fun h0 => by rw [h0]) ?_
    simp only [Stamp.put, Varint.toInt64_ofInt h.seconds]
  have hn : (Field.intIfSet 2 s.nanos).foldl Stamp.put { seconds := s.seconds } = s := by
    refine Field.foldl_intIfSet (fun h0 => by rw [← h0]) ?_
    simp only [Stamp.put, Varint.toInt32_ofInt h.nanos]
  unfold Stamp.merge?
  rw [Stamp.toBytes_eq, Field.readAll?_flatMap depth hf, Option.map_some, List.foldl_append, hs, hn]

/-- The bytes of a payload. -/
def Payload.toBytes (p : Payload) : Bytes :=
  Field.ofBytesIfSet 1 (Utf8.encodeAll p.tag) ++ Field.ofBytesIfSet 2 p.data

theorem Payload.toBytes_eq (p : Payload) :
    p.toBytes = (Field.bytesIfSet 1 (Utf8.encodeAll p.tag) ++ Field.bytesIfSet 2 p.data).flatMap
      Field.toBytes := by
  rw [List.flatMap_append, Field.flatMap_bytesIfSet, Field.flatMap_bytesIfSet]; rfl

/-- **A payload is read back.** -/
theorem Payload.merge?_toBytes {p : Payload} (h : (Utf8.encode? p.tag).isSome)
    (hl : p.toBytes.length < 0x10000000000000000) (depth : Nat) :
    Payload.merge? {} p.toBytes depth = some p := by
  rw [Payload.toBytes_eq] at hl ⊢
  have hf : ∀ f ∈ Field.bytesIfSet 1 (Utf8.encodeAll p.tag) ++ Field.bytesIfSet 2 p.data,
      f.Fits := by
    intro f hf
    rcases List.mem_append.mp hf with h | h
    · obtain rfl := Field.eq_of_mem_bytesIfSet h
      exact Field.fits_bytes_of_mem hl (by decide) hf
    · obtain rfl := Field.eq_of_mem_bytesIfSet h
      exact Field.fits_bytes_of_mem hl (by decide) hf
  have ht : (Field.bytesIfSet 1 (Utf8.encodeAll p.tag)).foldlM Payload.put? {} =
      some { tag := p.tag } := by
    refine Field.foldlM_bytesIfSet (fun h0 => by rw [Utf8.encodeAll_eq_nil h h0]) ?_
    simp only [Payload.put?, Utf8.decode?_encodeAll h, Option.map_some]
  have hd : (Field.bytesIfSet 2 p.data).foldlM Payload.put? { tag := p.tag } = some p :=
    Field.foldlM_bytesIfSet (fun h0 => by rw [← h0]) rfl
  unfold Payload.merge?
  rw [Field.readAll?_flatMap depth hf, Option.bind_some, List.foldlM_append, ht]
  exact hd

/-! ### Members -/

/-- A member that can be written: its numbers have 64 bits, its texts have an encoding, and the keys
of its groups are distinct. -/
inductive Member.Fits : Member → Prop
  | unset : Fits .unset
  | bool (b : Bool) : Fits (.bool b)
  | float (x : Double) : Fits (.float x)
  | int {n : Int} (h : -0x8000000000000000 ≤ n ∧ n < 0x8000000000000000) : Fits (.int n)
  | string {t : Text} (h : (Utf8.encode? t).isSome) : Fits (.string t)
  | time {s : Stamp} (h : s.Fits) : Fits (.time s)
  | duration {s : Stamp} (h : s.Fits) : Fits (.duration s)
  | uint {n : Nat} (h : n < 0x10000000000000000) : Fits (.uint n)
  | group {as : List (Text × Member)} (hn : (as.map Prod.fst).Nodup)
      (hk : ∀ a ∈ as, (Utf8.encode? a.1).isSome) (hm : ∀ a ∈ as, Fits a.2) : Fits (.group as)
  | any {tag : Text} (data : Bytes) (h : (Utf8.encode? tag).isSome) : Fits (.any tag data)

mutual

/-- How deep messages are nested below a member. -/
def Member.depth : Member → Nat
  | .time _ => 1
  | .duration _ => 1
  | .group as => 1 + Member.depthBelow as
  | .any _ _ => 1
  | _ => 0
termination_by structural m => m

/-- How deep messages are nested below the message that holds some attributes: each entry is a
message, and so is the value in it. -/
def Member.depthBelow : List (Text × Member) → Nat
  | [] => 0
  | (_, m) :: as => max (2 + Member.depth m) (Member.depthBelow as)
termination_by structural as => as

end

theorem Member.depth_le_of_mem {a : Text × Member} : ∀ {as : List (Text × Member)}, a ∈ as →
    2 + a.2.depth ≤ Member.depthBelow as
  | (k, m) :: as, h => by
    unfold Member.depthBelow
    rcases List.mem_cons.mp h with rfl | h
    · exact Nat.le_max_left ..
    · exact Nat.le_trans (Member.depth_le_of_mem h) (Nat.le_max_right ..)

/-- The order in which attributes are written. -/
def keyLe {α : Type} (a b : Text × α) : Bool :=
  (Bytes.compare (Utf8.encodeAll a.1) (Utf8.encodeAll b.1)).isLE

mutual

/-- The member with the attributes of its groups in the order in which they are written. -/
def Member.ordered : Member → Member
  | .group as => .group ((Member.orderedAll as).mergeSort keyLe)
  | m => m
termination_by structural m => m

def Member.orderedAll : List (Text × Member) → List (Text × Member)
  | [] => []
  | (k, m) :: as => (k, Member.ordered m) :: Member.orderedAll as
termination_by structural as => as

end

theorem Member.orderedAll_eq_map : ∀ as : List (Text × Member),
    Member.orderedAll as = as.map fun a => (a.1, a.2.ordered)
  | [] => rfl
  | (k, m) :: as => by rw [Member.orderedAll, Member.orderedAll_eq_map as, List.map_cons]

theorem Member.entries_eq_map : ∀ as : List (Text × Member),
    Member.entries as = as.map fun a => (Utf8.encodeAll a.1, a.2.toBytes)
  | [] => rfl
  | (k, m) :: as => by rw [Member.entries, Member.entries_eq_map as, List.map_cons]

/-- Attributes as they are written: the attributes of each group in order, these among them. -/
def inOrder (as : List (Text × Member)) : List (Text × Member) :=
  (Member.orderedAll as).mergeSort keyLe

theorem inOrder_eq_map (as : List (Text × Member)) :
    inOrder as = (as.mergeSort keyLe).map fun a => (a.1, a.2.ordered) := by
  unfold inOrder
  rw [Member.orderedAll_eq_map]
  refine (List.map_mergeSort ?_).symm
  intro _ _ _ _; rfl

theorem inOrder_perm (as : List (Text × Member)) :
    (inOrder as).Perm (as.map fun a => (a.1, a.2.ordered)) := by
  unfold inOrder
  rw [← Member.orderedAll_eq_map]
  exact List.mergeSort_perm ..

theorem mem_inOrder {as : List (Text × Member)} {b : Text × Member} (h : b ∈ inOrder as) :
    ∃ a ∈ as, b = (a.1, a.2.ordered) := by
  obtain ⟨a, ha, hab⟩ := List.mem_map.mp ((inOrder_perm as).mem_iff.mp h)
  exact ⟨a, ha, hab.symm⟩

theorem map_fst_inOrder_perm (as : List (Text × Member)) :
    ((inOrder as).map Prod.fst).Perm (as.map Prod.fst) := by
  have h := (inOrder_perm as).map Prod.fst
  rwa [List.map_map] at h

theorem nodup_inOrder {as : List (Text × Member)} (hn : (as.map Prod.fst).Nodup) :
    ((inOrder as).map Prod.fst).Nodup :=
  (map_fst_inOrder_perm as).nodup_iff.mpr hn

/-! ### Attributes as fields -/

namespace Field

/-- The fields of attributes, in the order in which they are written. -/
def ofAttrs (number : Nat) (as : List (Text × Member)) : List Field :=
  (as.mergeSort keyLe).map fun a =>
    ⟨number, .bytes (entryBytes (Utf8.encodeAll a.1) a.2.toBytes)⟩

theorem flatMap_ofAttrs (number : Nat) (as : List (Text × Member)) :
    (ofAttrs number as).flatMap toBytes = mapBytes number (Member.entries as) := by
  unfold ofAttrs mapBytes
  have hsort : ((as.map fun a => (Utf8.encodeAll a.1, a.2.toBytes)).mergeSort
      fun a b => (Bytes.compare a.1 b.1).isLE) =
      (as.mergeSort keyLe).map fun a => (Utf8.encodeAll a.1, a.2.toBytes) := by
    refine (List.map_mergeSort ?_).symm
    intro _ _ _ _; rfl
  rw [Member.entries_eq_map, hsort, List.flatMap_map, List.flatMap_map]
  rfl

theorem mem_ofAttrs {number : Nat} {as : List (Text × Member)} {a : Text × Member} (h : a ∈ as) :
    ⟨number, .bytes (entryBytes (Utf8.encodeAll a.1) a.2.toBytes)⟩ ∈ ofAttrs number as := by
  unfold ofAttrs
  exact List.mem_map_of_mem ((List.mergeSort_perm as keyLe).mem_iff.mpr h)

theorem eq_of_mem_ofAttrs {number : Nat} {as : List (Text × Member)} {f : Field}
    (hf : f ∈ ofAttrs number as) :
    ∃ a ∈ as, f = ⟨number, .bytes (entryBytes (Utf8.encodeAll a.1) a.2.toBytes)⟩ := by
  unfold ofAttrs at hf
  obtain ⟨a, ha, rfl⟩ := List.mem_map.mp hf
  exact ⟨a, (List.mergeSort_perm as keyLe).mem_iff.mp ha, rfl⟩

end Field

/-! ### Members read back -/

theorem length_toBytes_le (key : Text) (m : Member) :
    m.toBytes.length ≤ (entryBytes (Utf8.encodeAll key) m.toBytes).length := by
  have h := Field.length_le_ofBytes 2 m.toBytes
  unfold entryBytes
  rw [List.length_append]
  omega

/-- An entry is two fields, whatever is in them. -/
theorem readAll?_entryBytes {key content : Bytes} (depth : Nat)
    (hl : (entryBytes key content).length < 0x10000000000000000) :
    Field.readAll? depth (entryBytes key content) = some [⟨1, .bytes key⟩, ⟨2, .bytes content⟩] := by
  have hb : entryBytes key content =
      [⟨1, .bytes key⟩, ⟨2, .bytes content⟩].flatMap Field.toBytes := by
    simp only [List.flatMap_cons, List.flatMap_nil, List.append_nil]
    rfl
  have hf : ∀ f ∈ [⟨1, .bytes key⟩, ⟨2, .bytes content⟩], Field.Fits f := by
    have h1 := Field.length_le_ofBytes 1 key
    have h2 := Field.length_le_ofBytes 2 content
    unfold entryBytes at hl
    rw [List.length_append] at hl
    simp only [List.forall_mem_cons]
    exact ⟨Field.fits_bytes (by decide) (by omega), Field.fits_bytes (by decide) (by omega),
      List.forall_mem_nil _⟩
  rw [hb, Field.readAll?_flatMap depth hf]

/-- **An entry is read back**, if the member in it is. -/
theorem readPair?_entryBytes {key : Text} {m m' : Member} {depth : Nat}
    (hk : (Utf8.encode? key).isSome)
    (hl : (entryBytes (Utf8.encodeAll key) m.toBytes).length < 0x10000000000000000)
    (hm : mergeMember? .unset m.toBytes depth = some m') :
    readPair? (entryBytes (Utf8.encodeAll key) m.toBytes) (depth + 1) =
      some { key, member := m' } := by
  rw [readPair?, readAll?_entryBytes (depth + 1) hl]
  simp only [List.foldlM_cons, List.foldlM_nil, Utf8.decode?_encodeAll hk, Option.map_some, hm,
    Option.bind_eq_bind, Option.bind_some]
  rfl

/-- Attributes whose entries are read back are bound one after the other. -/
theorem foldlM_ofAttrs {σ : Type} {step : σ → Field → Option σ} (bind : σ → Text × Member → σ)
    {number : Nat} {as : List (Text × Member)}
    (h : ∀ a ∈ as, ∀ s, step s ⟨number, .bytes (entryBytes (Utf8.encodeAll a.1) a.2.toBytes)⟩ =
      some (bind s (a.1, a.2.ordered))) (s : σ) :
    (Field.ofAttrs number as).foldlM step s = some ((inOrder as).foldl bind s) := by
  rw [inOrder_eq_map]
  unfold Field.ofAttrs
  have hs : ∀ a ∈ as.mergeSort keyLe, a ∈ as := fun a ha =>
    (List.mergeSort_perm as keyLe).mem_iff.mp ha
  generalize as.mergeSort keyLe = sorted at hs ⊢
  induction sorted generalizing s with
  | nil => rfl
  | cons a sorted ih =>
    rw [List.forall_mem_cons] at hs
    rw [List.map_cons, List.map_cons, List.foldlM_cons, List.foldl_cons, h a hs.1]
    exact ih _ hs.2

/-- **Attributes are read back into a group** in the order in which they were written. -/
theorem mergeGroup?_mapBytes {as : List (Text × Member)} {depth : Nat}
    (hn : (as.map Prod.fst).Nodup) (hk : ∀ a ∈ as, (Utf8.encode? a.1).isSome)
    (hd : Member.depthBelow as ≤ depth)
    (hl : (mapBytes 1 (Member.entries as)).length < 0x10000000000000000)
    (hm : ∀ a ∈ as, ∀ depth, a.2.depth ≤ depth → a.2.toBytes.length < 0x10000000000000000 →
      mergeMember? .unset a.2.toBytes depth = some a.2.ordered) :
    mergeGroup? [] (mapBytes 1 (Member.entries as)) depth = some (inOrder as) := by
  rw [← Field.flatMap_ofAttrs] at hl ⊢
  have hlen : ∀ a ∈ as,
      (entryBytes (Utf8.encodeAll a.1) a.2.toBytes).length < 0x10000000000000000 :=
    fun a ha => Nat.lt_of_le_of_lt (Field.length_le_of_mem (Field.mem_ofAttrs ha)) hl
  have hf : ∀ f ∈ Field.ofAttrs 1 as, f.Fits := by
    intro f hf
    obtain ⟨a, ha, rfl⟩ := Field.eq_of_mem_ofAttrs hf
    exact Field.fits_bytes (by decide) (hlen a ha)
  rw [mergeGroup?, Field.readAll?_flatMap depth hf]
  refine (foldlM_ofAttrs (fun attrs a => Attrs.put attrs a.1 a.2) ?_ []).trans
    (congrArg some (Attrs.putAll_nil_left (nodup_inOrder hn)))
  intro a ha attrs
  have hda := Member.depth_le_of_mem ha
  obtain ⟨d, rfl⟩ : ∃ d, depth = d + 2 := ⟨depth - 2, by omega⟩
  have hra := hm a ha d (by omega) (Nat.lt_of_le_of_lt (length_toBytes_le a.1 a.2) (hlen a ha))
  simp only [readPair?_entryBytes (hk a ha) (hlen a ha) hra, Option.map_some]
  rfl

/-- **A member is read back** with the attributes of its groups in the order in which they were
written. -/
theorem mergeMember?_toBytes {m : Member} (h : m.Fits) {depth : Nat} (hd : m.depth ≤ depth)
    (hl : m.toBytes.length < 0x10000000000000000) :
    mergeMember? .unset m.toBytes depth = some m.ordered := by
  -- a member is one field, so it is put in one step; only a group has more to read inside of it
  induction h generalizing depth with
  | unset =>
    rw [mergeMember?]
    rfl
  | bool b =>
    have hb : (if b then 1 else 0) < 0x10000000000000000 := by cases b <;> decide
    rw [mergeMember?, Member.toBytes, Field.readAll?_ofNat (by decide) hb]
    cases b <;> rfl
  | float x =>
    rw [mergeMember?, Member.toBytes, Field.readAll?_ofDouble (by decide)]
    rfl
  | int h =>
    rw [mergeMember?, Member.toBytes, Field.readAll?_ofInt (by decide)]
    simp only [List.foldlM_cons, List.foldlM_nil, Varint.toInt64_ofInt h]
    rfl
  | string h =>
    rw [Member.toBytes] at hl
    rw [mergeMember?, Member.toBytes, Field.readAll?_ofBytes (by decide) hl]
    simp only [List.foldlM_cons, List.foldlM_nil, Utf8.decode?_encodeAll h]
    rfl
  | time h =>
    rw [Member.toBytes] at hl
    obtain ⟨d, rfl⟩ : ∃ d, depth = d + 1 := Nat.exists_eq_add_one.mpr hd
    rw [mergeMember?, Member.toBytes, Field.readAll?_ofBytes (by decide) hl]
    simp only [List.foldlM_cons, List.foldlM_nil, Member.timeStamp, below?, Stamp.merge?_toBytes h]
    rfl
  | duration h =>
    rw [Member.toBytes] at hl
    obtain ⟨d, rfl⟩ : ∃ d, depth = d + 1 := Nat.exists_eq_add_one.mpr hd
    rw [mergeMember?, Member.toBytes, Field.readAll?_ofBytes (by decide) hl]
    simp only [List.foldlM_cons, List.foldlM_nil, Member.durationStamp, below?,
      Stamp.merge?_toBytes h]
    rfl
  | uint h =>
    rw [mergeMember?, Member.toBytes, Field.readAll?_ofNat (by decide) h]
    rfl
  | @group as hn hk hm ih =>
    rw [Member.toBytes] at hl
    rw [Member.depth] at hd
    obtain ⟨d, rfl⟩ : ∃ d, depth = d + 1 := ⟨depth - 1, by omega⟩
    have hbelow : Member.depthBelow as ≤ d := by omega
    have hb := Nat.lt_of_le_of_lt (Field.length_le_ofBytes ..) hl
    have hg := mergeGroup?_mapBytes hn hk hbelow hb fun a ha _ => ih a ha
    rw [mergeMember?, Member.toBytes, Field.readAll?_ofBytes (by decide) hl]
    simp only [List.foldlM_cons, List.foldlM_nil, Member.groupAttrs, hg]
    rfl
  | @any tag data h =>
    rw [Member.toBytes] at hl
    obtain ⟨d, rfl⟩ : ∃ d, depth = d + 1 := Nat.exists_eq_add_one.mpr hd
    have hb := Nat.lt_of_le_of_lt (Field.length_le_ofBytes ..) hl
    have hp := Payload.merge?_toBytes (p := ⟨tag, data⟩) h hb d
    rw [mergeMember?, Member.toBytes, Field.readAll?_ofBytes (by decide) hl]
    simp only [List.foldlM_cons, List.foldlM_nil, Member.anyPayload, below?]
    rw [show Field.ofBytesIfSet 1 (Utf8.encodeAll tag) ++ Field.ofBytesIfSet 2 data =
      Payload.toBytes ⟨tag, data⟩ from rfl, hp]
    rfl

end LogStream.Wire
