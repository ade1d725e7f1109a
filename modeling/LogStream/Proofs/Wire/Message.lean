import LogStream.Proofs.Wire.Member

/-! # Messages read back

The message of a record that fits the wire (`RecordMessage.Fits`) is read back from its bytes, its
attributes in the order in which they were written (`read?_toBytes`). Each of its parts is a run of
fields that sets this part and leaves the others. -/

namespace LogStream.Wire

/-- A message that can be written and is not nested too deep to be read. -/
structure RecordMessage.Fits (m : RecordMessage) : Prop where
  time : ∀ s ∈ m.time, s.Fits
  message : (Utf8.encode? m.message).isSome
  level : -0x80000000 ≤ m.level ∧ m.level < 0x80000000
  nodup : (m.attrs.map Prod.fst).Nodup
  keys : ∀ a ∈ m.attrs, (Utf8.encode? a.1).isSome
  attrs : ∀ a ∈ m.attrs, a.2.Fits
  depth : Member.depthBelow m.attrs ≤ maxDepth

namespace RecordMessage

/-- The field of the instant of a record, if it has one. -/
def timeFields (time : Option Stamp) : List Field :=
  time.toList.map fun s => ⟨1, .bytes s.toBytes⟩

/-- The fields of a record in the order in which they are written. -/
def fields (m : RecordMessage) : List Field :=
  timeFields m.time ++ Field.bytesIfSet 2 (Utf8.encodeAll m.message) ++ Field.intIfSet 3 m.level ++
    Field.ofAttrs 4 m.attrs

theorem toBytes_eq (m : RecordMessage) : m.toBytes = m.fields.flatMap Field.toBytes := by
  unfold fields toBytes
  rw [List.flatMap_append, List.flatMap_append, List.flatMap_append, Field.flatMap_bytesIfSet,
    Field.flatMap_intIfSet, Field.flatMap_ofAttrs]
  cases m.time with
  | none => rfl
  | some s => rw [timeFields, Option.toList_some, List.map_singleton, List.flatMap_singleton]; rfl

/-! ### The parts -/

theorem foldlM_timeFields {time : Option Stamp} (h : ∀ s ∈ time, s.Fits) {depth : Nat}
    (hd : 0 < depth) : (timeFields time).foldlM (put? depth) blank = some { time } := by
  obtain ⟨d, rfl⟩ : ∃ d, depth = d + 1 := Nat.exists_eq_add_one.mpr hd
  cases time with
  | none => rfl
  | some s =>
    rw [timeFields, Option.toList_some, List.map_singleton]
    simp only [List.foldlM_cons, List.foldlM_nil, put?, below?, blank, Option.getD_none,
      Stamp.merge?_toBytes (h s rfl)]
    rfl

theorem foldlM_message {t : Text} (h : (Utf8.encode? t).isSome) (time : Option Stamp)
    (depth : Nat) :
    (Field.bytesIfSet 2 (Utf8.encodeAll t)).foldlM (put? depth) { time } =
      some { time, message := t } := by
  refine Field.foldlM_bytesIfSet (fun h0 => by rw [Utf8.encodeAll_eq_nil h h0]) ?_
  simp only [put?, Utf8.decode?_encodeAll h, Option.map_some]

theorem foldlM_level {n : Int} (h : -0x80000000 ≤ n ∧ n < 0x80000000) (time : Option Stamp)
    (message : Text) (depth : Nat) :
    (Field.intIfSet 3 n).foldlM (put? depth) { time, message } =
      some { time, message, level := n } := by
  refine Field.foldlM_intIfSet (fun h0 => by rw [h0]) ?_
  simp only [put?, Varint.toInt32_ofInt h]

theorem foldl_bind (as : List (Text × Member)) (r : RecordMessage) :
    as.foldl (fun r a => { r with attrs := Attrs.put r.attrs a.1 a.2 }) r =
      { r with attrs := Attrs.putAll r.attrs as } := by
  induction as generalizing r with
  | nil => rfl
  | cons a as ih => rw [List.foldl_cons, ih, Attrs.putAll_cons]

theorem foldlM_attrs {m : RecordMessage} (h : m.Fits)
    (hl : m.toBytes.length < 0x10000000000000000) (r : RecordMessage) (hr : r.attrs = []) :
    (Field.ofAttrs 4 m.attrs).foldlM (put? maxDepth) r =
      some { r with attrs := inOrder m.attrs } := by
  refine (foldlM_ofAttrs (fun r a => { r with attrs := Attrs.put r.attrs a.1 a.2 }) ?_ r).trans ?_
  · intro a ha r
    have hd := Nat.le_trans (Member.depth_le_of_mem ha) h.depth
    obtain ⟨d, hmax⟩ : ∃ d, maxDepth = d + 2 := ⟨98, rfl⟩
    have hfield : ⟨4, .bytes (entryBytes (Utf8.encodeAll a.1) a.2.toBytes)⟩ ∈ m.fields := by
      unfold fields
      exact List.mem_append_right _ (Field.mem_ofAttrs ha)
    have hentry := Field.length_le_of_mem hfield
    rw [← toBytes_eq] at hentry
    have hcontent := length_toBytes_le a.1 a.2
    have hm : mergeMember? .unset a.2.toBytes d = some a.2.ordered :=
      mergeMember?_toBytes (h.attrs a ha) (by omega) (by omega)
    rw [hmax]
    simp only [put?, below?, readPair?_entryBytes (h.keys a ha) (by omega) hm]
    rfl
  · rw [foldl_bind, hr, Attrs.putAll_nil_left (nodup_inOrder h.nodup)]

/-! ### The whole -/

theorem fits_of_mem_fields {m : RecordMessage} (hl : m.toBytes.length < 0x10000000000000000) :
    ∀ f ∈ m.fields, f.Fits := by
  rw [toBytes_eq] at hl
  intro f hf
  have h := hf
  unfold fields timeFields at h
  simp only [List.mem_append] at h
  rcases h with ((h | h) | h) | h
  · obtain ⟨s, -, rfl⟩ := List.mem_map.mp h
    exact Field.fits_bytes_of_mem hl (by decide) hf
  · obtain rfl := Field.eq_of_mem_bytesIfSet h
    exact Field.fits_bytes_of_mem hl (by decide) hf
  · exact Field.fits_of_mem_intIfSet (by decide) f h
  · obtain ⟨a, -, rfl⟩ := Field.eq_of_mem_ofAttrs h
    exact Field.fits_bytes_of_mem hl (by decide) hf

/-- **A record is read back** with its attributes in the order in which they were written. -/
theorem read?_toBytes {m : RecordMessage} (h : m.Fits)
    (hl : m.toBytes.length < 0x10000000000000000) :
    read? m.toBytes = some { m with attrs := inOrder m.attrs } := by
  unfold read?
  rw [toBytes_eq, Field.readAll?_flatMap maxDepth (fits_of_mem_fields hl), Option.bind_some]
  unfold fields
  rw [List.foldlM_append, List.foldlM_append, List.foldlM_append,
    foldlM_timeFields h.time (by decide)]
  simp only [Option.bind_eq_bind, Option.bind_some, foldlM_message h.message, foldlM_level h.level]
  exact foldlM_attrs h hl _ rfl

end RecordMessage

end LogStream.Wire
