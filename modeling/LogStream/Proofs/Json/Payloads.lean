import LogStream.Proofs.Json.Ascii
import LogStream.Proofs.Json.Reading
import LogStream.Proofs.Wire.Stable

/-! # Payloads in JSON

A list or a tuple is written as compact JSON, in a payload under the tag of its type, and where the payload is decoded
the JSON is read again. Printed JSON is ASCII without a zero byte or a byte order mark, so it is read in the encoding
that it was written in (`decode?_ascii`), and what was printed is read back (`IsPortable.exists_print_read`). The record
that carries it may have other attributes: each of them can be written by itself (`Record.exists_fillRecord_iff`) and is
read back under its key (`Record.ReadsAs.exists_lookup`). Together this is `exists_ofValue_decoded`. -/

namespace LogStream

variable {t : Text} {d : Datum}

/-! ### Bytes of printed JSON -/

theorem Text.IsPlain.isSome_encode? (h : t.IsPlain) : (Utf8.encode? t).isSome := by
  refine Utf8.isSome_encode?_iff.mpr fun c hc => ?_
  have hplain := h c hc
  simp only [CodePoint.isSurrogate, Bool.and_eq_false_iff, decide_eq_false_iff_not]
  omega

theorem Text.IsPlain.of_mem_encodeAll (h : t.IsPlain) : ∀ b ∈ Utf8.encodeAll t, 32 ≤ b.toNat ∧ b.toNat < 127 := by
  intro b hb
  obtain ⟨c, hc, hb⟩ := List.mem_flatMap.mp hb
  have hplain := h c hc
  have hbyte : Utf8.encodePoint c = [byte c.val] := if_pos (by omega)
  obtain rfl := List.mem_singleton.mp (hbyte ▸ hb)
  rwa [Utf8.toNat_byte (by omega)]

namespace Json

/-- Bytes of printable ASCII show no other encoding. -/
theorem decode?_ascii {bs : Bytes} (h : ∀ b ∈ bs, 32 ≤ b.toNat ∧ b.toNat < 127) :
    decode? bs = Utf8.decodeWith? true bs := by
  have hmarks : ∀ m ∈ marks, ∃ b ∈ m.1, ¬ (32 ≤ b.toNat ∧ b.toNat < 127) := by decide
  have hunmarked : marks.find? (fun m => m.1.isPrefixOf bs) = none := by
    refine List.find?_eq_none.mpr fun m hm hprefix => ?_
    obtain ⟨b, hb, hrange⟩ := hmarks m hm
    exact hrange (h b ((List.isPrefixOf_iff_prefix.mp hprefix).subset hb))
  have hzero : ∀ b ∈ bs, b ≠ 0 := by
    rintro _ hb rfl
    exact absurd (h 0 hb).1 (by decide)
  rw [decode?, hunmarked]
  dsimp only
  unfold decodeUnmarked?
  split
  -- with four bytes or more and with two of them zeros are looked for, which are not there
  · rw [if_neg (hzero _ (by simp)), if_neg (hzero _ (by simp))]
  · rw [if_neg (hzero _ (by simp)), if_neg (hzero _ (by simp))]
  · rfl

/-- A text that is read as a datum is read from its bytes, if they are printable ASCII. -/
theorem IsRead.read_encodeAll (h : IsRead t d) (ht : t.IsPlain) : read (Utf8.encodeAll t) = .ok d := by
  have hfuel : 2 * t.length ≤ 2 * t.length + 2 := Nat.le_add_right _ _
  have hdatum : readDatum (2 * t.length + 2) (t ++ []) = .ok (d, []) := h.reads hfuel nofun
  have hblanks := h.skipBlanks_append []
  rw [List.append_nil] at hdatum hblanks
  rw [read, decode?_ascii ht.of_mem_encodeAll, Utf8.decodeWith?_encodeAll true ht.isSome_encode?]
  dsimp only
  rw [readText, hblanks, hdatum, ok_bind]
  rfl

theorem isPlain_compact : Layout.compact.IsPlain := ⟨by decide, by decide⟩

/-- **What is printed for a portable datum is read from its bytes**, with lists in place of tuples. -/
theorem IsPortable.exists_print_read (h : IsPortable d) :
    ∃ t, print .compact d = .ok t ∧ read (Utf8.encodeAll t) = .ok d.untupled := by
  obtain ⟨t, ht, hread⟩ := h.readsBack
  exact ⟨t, ht, hread.read_encodeAll (isPlain_print isPlain_compact d t ht)⟩

end Json

/-! ### Records with one more attribute -/

namespace Record

variable {r : Record}

/-- A record with one more attribute under a key of its own. -/
theorem IsRegular.of_perm_cons (hr : r.IsRegular) {as : List Attr} {key : Text} {v : Value}
    (hp : as.Perm ((key, v) :: r.attrs)) (hkey : key ≠ []) (hfresh : key ∉ r.attrs.map Prod.fst)
    (hv : v.settle.IsRegular) (hnesting : 2 + v.settle.nesting ≤ Wire.maxDepth) :
    ({ r with attrs := as } : Record).IsRegular := by
  obtain ⟨hn, hvalues⟩ := Settled.isRegular_settle_group_iff.mp hr.values
  have hbelow (a : Attr) (ha : a ∈ r.attrs) : 2 + a.2.settle.nesting ≤ Wire.maxDepth := by
    refine Nat.le_trans ?_ hr.nesting
    rw [Value.settleMembers_eq_map]
    exact Settled.nesting_le_of_mem (List.mem_map_of_mem (f := fun a => (a.1, a.2.settle)) ha)
  have hkeys : (as.map Prod.fst).Perm (key :: r.attrs.map Prod.fst) := hp.map Prod.fst
  have hall {p : Attr → Prop} (hnew : p (key, v)) (hold : ∀ a ∈ r.attrs, p a) : ∀ a ∈ as, p a :=
    fun a ha => List.forall_mem_cons.mpr ⟨hnew, hold⟩ a (hp.mem_iff.mp ha)
  refine ⟨hr.level, ?_, Settled.isRegular_settle_group_iff.mpr ⟨?_, ?_⟩, ?_⟩
  · rw [hkeys.mem_iff, List.mem_cons, not_or]
    exact ⟨hkey.symm, hr.keys⟩
  · exact hkeys.nodup_iff.mpr (List.nodup_cons.mpr ⟨hfresh, hn⟩)
  · exact hall hv hvalues
  · rw [Value.settleMembers_eq_map]
    exact Wire.nestingBelow_le (List.forall_mem_map.mpr (hall hnesting hbelow))

/-- What is decoded of a record has each of its attributes, in its canonical form. -/
theorem ReadsAs.exists_lookup {r' : Record} (h : r.ReadsAs r') (hn : (r.attrs.map Prod.fst).Nodup) {a : Attr}
    (ha : a ∈ r.attrs) : ∃ v, r'.attrs.lookup a.1 = some v ∧ a.2.settle.ReadsAs v := by
  have hreads := h.attrs
  rw [Value.settle, Value.settleMembers_eq_map] at hreads
  cases hreads with
  | group hk hv =>
    rw [List.map_map] at hk
    have hk : (r'.attrs.map Prod.fst).Perm (r.attrs.map Prod.fst) := hk
    obtain ⟨⟨_, v⟩, hmem, rfl⟩ := List.mem_map.mp (hk.mem_iff.mpr (List.mem_map_of_mem ha))
    exact ⟨v, Attrs.lookup_of_mem (hk.nodup_iff.mpr hn) hmem, hv _ _ _ (List.mem_map_of_mem ha) hmem⟩

end Record

/-! ### Lists and tuples -/

/-- A list or a tuple. -/
def Datum.IsSequence (d : Datum) : Prop := ∃ xs, d = .list xs ∨ d = .tuple xs

namespace Datum.IsSequence

theorem ofDatum_eq (h : d.IsSequence) : Value.ofDatum d = .held .any d := by
  obtain ⟨xs, rfl | rfl⟩ := h <;> rfl

theorem ne_sealed (h : d.IsSequence) (tag : Text) (data : Bytes) : d ≠ .sealed tag data := by
  obtain ⟨xs, rfl | rfl⟩ := h <;> nofun

theorem isSome_encode?_typeTag (h : d.IsSequence) : (Utf8.encode? (Wire.typeTag d)).isSome := by
  have hlist : (Utf8.encode? (Wire.typeTag (.list []))).isSome := by decide
  have htuple : (Utf8.encode? (Wire.typeTag (.tuple []))).isSome := by decide
  obtain ⟨xs, rfl | rfl⟩ := h
  · exact hlist
  · exact htuple

/-- A list or a tuple is sealed as it is printed. -/
theorem fill_eq (h : d.IsSequence) (ht : Json.print .compact d = .ok t) (key : Text) :
    Wire.fill key .unset (.held .any d) = .ok (.any (Wire.typeTag d) (Utf8.encodeAll t)) := by
  have hseal : Wire.sealPayload d = .ok ⟨Wire.typeTag d, Utf8.encodeAll t⟩ := by
    rw [Wire.sealPayload, ht]
    exact h.ne_sealed
  rw [Wire.fill, Wire.fillHeld, hseal, ok_bind, Wire.encodable?_of_isSome h.isSome_encode?_typeTag]
  rfl

end Datum.IsSequence

namespace Json

/-- **Lists and tuples of portable data come through the wire.** A record that can be written can be written with one of
them as one more attribute, wherever it stands, and the payload that is decoded under its key is converted to an object
of the tag of its type and the data, of which the tuples have become lists. -/
theorem exists_ofValue_decoded {x : Datum} (hx : IsPortable x) (hseq : x.IsSequence) {r : Record} (hr : r.IsRegular)
    {out : Bytes} (hout : r.encode = .ok out) {key : Text} (hkey : key ≠ []) (hfresh : key ∉ r.attrs.map Prod.fst)
    (hscalar : ∀ c ∈ key, c.isSurrogate = false) {as : List Attr} (hp : as.Perm ((key, Value.ofDatum x) :: r.attrs)) :
    ∃ bs, ({ r with attrs := as } : Record).encode = .ok bs ∧ (bs.length < 0x10000000000000000 →
      ∃ r' v, Record.decode bs = .ok r' ∧ r'.attrs.lookup key = some v ∧
        ofValue v = .ok (ofEntries [(Text.lit "@type", .text (Wire.typeTag x)), (Text.lit "value", x.untupled)])) := by
  obtain ⟨t, ht, hread⟩ := hx.exists_print_read
  have hsettle : (Value.ofDatum x).settle = .held .any x := by
    rw [hseq.ofDatum_eq]
    rfl
  have hregular : ({ r with attrs := as } : Record).IsRegular := by
    refine hr.of_perm_cons hp hkey hfresh ?_ ?_
    · rw [hsettle]
      exact .held (.any x)
    · have hdepth : 2 + 1 ≤ Wire.maxDepth := by decide
      rw [hsettle]
      exact hdepth
  have hn := (Settled.isRegular_settle_group_iff.mp hregular.values).1
  obtain ⟨m, hm, -⟩ := exists_of_map_eq_ok hout
  obtain ⟨hhead, hfills⟩ :=
    (Record.exists_fillRecord_iff (Settled.isRegular_settle_group_iff.mp hr.values).1).mp ⟨m, hm⟩
  have hfill : ∀ a ∈ as, (Utf8.encode? a.1).isSome ∧ ∃ m, Wire.fill a.1 .unset a.2.settle = .ok m := by
    intro a ha
    obtain rfl | ha := List.mem_cons.mp (hp.mem_iff.mp ha)
    · exact ⟨Utf8.isSome_encode?_iff.mpr hscalar, _, hsettle ▸ hseq.fill_eq ht key⟩
    · exact hfills a ha
  obtain ⟨m, hm⟩ := (Record.exists_fillRecord_iff hn).mpr ⟨hhead, hfill⟩
  refine ⟨m.toBytes, congrArg (Except.map _) hm, fun hl => ?_⟩
  obtain ⟨r', hr', hreads⟩ := Record.decode_toBytes hregular hm hl
  obtain ⟨v, hlookup, hv⟩ := hreads.exists_lookup hn (hp.mem_iff.mpr List.mem_cons_self)
  refine ⟨r', v, hr', hlookup, ?_⟩
  rw [hsettle] at hv
  cases hv with
  | kept h => cases h
  | sealed tag data => exact absurd rfl (hseq.ne_sealed tag data)
  | json ht' =>
    -- what was sealed is what was printed, since printing has one outcome
    obtain rfl := Except.ok.inj (ht'.symm.trans ht)
    change openSealed _ _ = _
    rw [openSealed, hread]
    rfl

/-- A tuple with a code point beyond the first plane, and with tuples in a list and under keys that are in no order. -/
def nestedTuple : Datum :=
  .tuple [.null, .bool true, .int (-7), .text (Text.lit "é\"\n" ++ [CodePoint.ofNat 0x1F600]),
    ofEntries [(Text.lit "b", .tuple []), (Text.lit "a", .list [.tuple [.int 0]])]]

/-- The same in JSON. -/
def nestedList : Datum :=
  .list [.null, .bool true, .int (-7), .text (Text.lit "é\"\n" ++ [CodePoint.ofNat 0x1F600]),
    ofEntries [(Text.lit "b", .list []), (Text.lit "a", .list [.list [.int 0]])]]

theorem isPortable_nestedTuple : IsPortable nestedTuple := by
  have hzero : IsPortable (.tuple [.int 0]) := .tuple (List.forall_mem_singleton.mpr (.int (by decide)))
  have hempty : IsPortable (.tuple []) := .tuple (List.forall_mem_nil _)
  have hmap : IsPortable (ofEntries [(Text.lit "b", .tuple []), (Text.lit "a", .list [.tuple [.int 0]])]) := by
    have hkeys : ∀ k ∈ [Text.lit "b", Text.lit "a"], (Utf8.encode? k).isSome := by decide
    refine .map (by decide) (fun e he => ?_) ?_
    · exact Utf8.isSome_encode?_iff.mp (hkeys e.1 (List.mem_map_of_mem he))
    · have hlist : IsPortable (.list [.tuple [.int 0]]) := .list (List.forall_mem_singleton.mpr hzero)
      exact List.forall_mem_cons.mpr ⟨hempty, List.forall_mem_singleton.mpr hlist⟩
  have htext : IsPortable (.text (Text.lit "é\"\n" ++ [CodePoint.ofNat 0x1F600])) :=
    .text (Utf8.isSome_encode?_iff.mp (by decide))
  refine .tuple ?_
  simp only [List.forall_mem_cons]
  exact ⟨.null, .bool true, .int (by decide), htext, hmap, List.forall_mem_nil _⟩

/-- A record with one attribute. -/
def carrier : Record := { message := Text.lit "m", attrs := [(Text.lit "n", .held .int (.int 1))] }

theorem isRegular_carrier : carrier.IsRegular where
  level := ⟨.unset, rfl⟩
  keys := by decide
  values := .group (by decide) (List.forall_mem_singleton.mpr (.held (.int 1)))
  nesting := by decide

/-- The record with the tuple behind its attribute. -/
def laden : Record := { carrier with attrs := carrier.attrs ++ [(Text.lit "x", Value.ofDatum nestedTuple)] }

theorem exists_ofValue_decoded_nestedTuple : ∃ bs r' v, laden.encode = .ok bs ∧ Record.decode bs = .ok r' ∧
    r'.attrs.lookup (Text.lit "x") = some v ∧ ofValue v = .ok (ofEntries
      [(Text.lit "@type", .text (Text.lit "py/builtins.tuple")), (Text.lit "value", nestedList)]) := by
  have hcarrier : carrier.encode.map List.length = .ok 12 := by cbv
  have hladen : laden.encode.map List.length = .ok 100 := by cbv
  obtain ⟨out, hout, -⟩ := exists_of_map_eq_ok hcarrier
  obtain ⟨bs, hbs, hlength⟩ := exists_of_map_eq_ok hladen
  have hkey : Text.lit "x" ≠ [] := by decide
  obtain ⟨bs', hbs', hdecoded⟩ := exists_ofValue_decoded isPortable_nestedTuple ⟨_, Or.inr rfl⟩ isRegular_carrier hout
    hkey (by decide) (Utf8.isSome_encode?_iff.mp (by decide)) (List.perm_append_singleton _ carrier.attrs)
  obtain rfl : bs' = bs := Except.ok.inj (hbs'.symm.trans hbs)
  obtain ⟨r', v, hr', hlookup, hv⟩ := hdecoded (by omega)
  exact ⟨bs', r', v, hbs', hr', hlookup, hv⟩

end Json

end LogStream
