import LogStream.Json.Lines
import LogStream.Proofs.Json.Ascii
import LogStream.Proofs.Json.Objects

/-! # Lines of records

A record has a line if its object is printed. What is read as JSON has a form in JSON (`isJson_read`), and so has what a
decoded value is converted to (`isJson_ofValue`), so a decoded record has a line just if it has an object
(`exists_line_iff`).

The lines of records are those of each record, one behind the other (`mapM_line_eq_ok`), so lines can be put together
(`lines_append`). A line is printable ASCII (`isPlain_line`), whatever its record holds, so the only ends of lines are
those that stand behind the records (`lines_are_one_each`). -/

namespace LogStream

/-! ### Integers that were read -/

namespace Text

theorem decimal?_lt {c : CodePoint} {d : Nat} (h : c.decimal? = some d) : d < 10 := by
  unfold CodePoint.decimal? at h
  split at h
  · split at h
    · next hd =>
      simp only [CodePoint.isAsciiDigit, Bool.and_eq_true, decide_eq_true_eq] at hd
      cases h
      omega
    · cases h
  · obtain ⟨z, hz, rfl⟩ := Option.map_eq_some_iff.mp h
    have hrange := List.find?_some hz
    simp only [Bool.and_eq_true, decide_eq_true_eq] at hrange
    omega

theorem lt_of_mem_spacedDigits? : ∀ {t : Text} {afterDigit : Bool} {ds : List Nat},
    spacedDigits? afterDigit t = some ds → ∀ d ∈ ds, d < 10
  | [], afterDigit, ds, h => by
    unfold spacedDigits? at h
    split at h <;> cases h
    exact List.forall_mem_nil _
  | c :: r, afterDigit, ds, h => by
    unfold spacedDigits? at h
    split at h
    · next d hd =>
      obtain ⟨rest, hrest, rfl⟩ := Option.map_eq_some_iff.mp h
      exact List.forall_mem_cons.mpr ⟨decimal?_lt hd, lt_of_mem_spacedDigits? hrest⟩
    · split at h
      · exact lt_of_mem_spacedDigits? h
      · cases h

/-- An integer that was read is not too long to be written. -/
theorem isPrintable_of_readInt? {t : Text} {n : Int} (h : readInt? t = some n) :
    (Datum.int n).isPrintable = true := by
  unfold readInt? at h
  dsimp only at h
  split at h
  · cases h
  next ds hds =>
  split at h
  · cases h
  next hlength =>
  have hlt := numberOf_lt (lt_of_mem_spacedDigits? hds)
  have hnat : n.natAbs = numberOf 10 ds := by
    split at h <;> cases h <;> simp
  have hpow : 10 ^ ds.length ≤ 10 ^ maxDigits := Nat.pow_le_pow_right (by decide) (Nat.not_lt.mp hlength)
  refine decide_eq_true (Nat.not_lt.mp (not_maxDigits_lt ?_ (by decide) (Nat.le_refl _)))
  rw [hnat]
  exact Nat.lt_of_lt_of_le hlt hpow

end Text

namespace Json

/-! ### Data of JSON -/

/-- A datum that has a form in JSON, its dictionaries under texts. -/
inductive IsJson : Datum → Prop
  | null : IsJson .null
  | bool (b : Bool) : IsJson (.bool b)
  | int {n : Int} (h : (Datum.int n).isPrintable = true) : IsJson (.int n)
  | float (x : Double) : IsJson (.float x)
  | text (t : Text) : IsJson (.text t)
  | list {xs : List Datum} (h : ∀ x ∈ xs, IsJson x) : IsJson (.list xs)
  | map {es : List (Text × Datum)} (h : ∀ e ∈ es, IsJson e.2) : IsJson (ofEntries es)

theorem isJson_dictionary {es : List (Text × Datum)} (h : ∀ e ∈ es, IsJson e.2) : IsJson (dictionary es) :=
  .map fun e he => (Attrs.mem_putAll he).elim (fun hnil => absurd hnil List.not_mem_nil) (h e)

theorem exists_printItems {layout : Layout} : ∀ {xs : List Datum}, (∀ x ∈ xs, ∃ t, print layout x = .ok t) →
    ∃ ts, printItems layout xs = .ok ts
  | [], _ => ⟨[], rfl⟩
  | x :: xs, h => by
    obtain ⟨⟨t, ht⟩, hxs⟩ := List.forall_mem_cons.mp h
    obtain ⟨ts, hts⟩ := exists_printItems hxs
    refine ⟨t :: ts, ?_⟩
    rw [printItems, ht, ok_bind, hts]
    rfl

theorem exists_printEntries {layout : Layout} : ∀ {es : List (Text × Datum)},
    (∀ e ∈ es, ∃ t, print layout e.2 = .ok t) →
    ∃ ts, printEntries layout (es.map fun e => (.text e.1, e.2)) = .ok ts
  | [], _ => ⟨[], rfl⟩
  | e :: es, h => by
    obtain ⟨⟨t, ht⟩, hes⟩ := List.forall_mem_cons.mp h
    obtain ⟨ts, hts⟩ := exists_printEntries hes
    refine ⟨(string e.1 ++ Text.lit layout.colon ++ t) :: ts, ?_⟩
    rw [List.map_cons, printEntries, key, ok_bind, ht, ok_bind, hts]
    rfl

/-- **What has a form in JSON is printed**, in every layout. -/
theorem IsJson.exists_print (layout : Layout) {d : Datum} (h : IsJson d) : ∃ t, print layout d = .ok t := by
  induction h with
  | null | bool | float | text => exact ⟨_, rfl⟩
  | @int n h => exact ⟨Text.ofInt n, by rw [print, integer, if_pos h]⟩
  | list _ ih =>
    obtain ⟨ts, hts⟩ := exists_printItems ih
    exact ⟨array layout ts, by rw [print, hts]; rfl⟩
  | map _ ih =>
    obtain ⟨ts, hts⟩ := exists_printEntries ih
    exact ⟨object layout ts, by rw [ofEntries, print, hts]; rfl⟩

/-! ### Data that were read -/

theorem isJson_readNumber (s : Text) : Yields (fun p => IsJson p.1) (readNumber s) := by
  unfold readNumber
  dsimp only
  split
  · exact yields_error
  split
  · split
    · next hn => exact yields_ok.mpr (.int (Text.isPrintable_of_readInt? hn))
    · exact yields_error
  · split
    · exact yields_ok.mpr (.float _)
    · exact yields_error

theorem isJson_readName? {s : Text} {p : Datum × Text} (h : readName? s = some p) : IsJson p.1 := by
  obtain ⟨n, hn, rfl⟩ := Option.map_eq_some_iff.mp h
  have hmem := List.mem_of_find?_eq_some hn
  have hall : ∀ n ∈ names, IsJson n.2 := by
    simp only [names, List.forall_mem_cons]
    exact ⟨.null, .bool true, .bool false, .float _, .float _, .float _, List.forall_mem_nil _⟩
  exact hall n hmem

/-- What is read with some fuel, as a datum, as items or as entries. -/
structure ReadsJson (fuel : Nat) : Prop where
  datum : ∀ s, Yields (fun p => IsJson p.1) (readDatum fuel s)
  items : ∀ s, Yields (fun p => ∀ x ∈ p.1, IsJson x) (readItems fuel s)
  entries : ∀ s, Yields (fun p => ∀ e ∈ p.1, IsJson e.2) (readEntries fuel s)

theorem isJson_datum {fuel : Nat} (h : ReadsJson fuel) : ∀ s, Yields (fun p => IsJson p.1) (readDatum (fuel + 1) s)
  | [] => yields_error
  | c :: r => by
    unfold readDatum
    split
    · split
      · exact yields_ok.mpr (.text _)
      · exact yields_error
    split
    · split
      · split
        · exact yields_ok.mpr (.list (List.forall_mem_nil _))
        · exact (h.items _).map fun _ hxs => .list hxs
      · exact yields_error
    split
    · split
      · split
        · exact yields_ok.mpr (@IsJson.map [] (List.forall_mem_nil _))
        · exact (h.entries _).map fun _ hes => isJson_dictionary hes
      · exact yields_error
    split
    · next hfound => exact yields_ok.mpr (isJson_readName? hfound)
    · exact isJson_readNumber _

theorem isJson_items {fuel : Nat} (h : ReadsJson fuel) (s : Text) :
    Yields (fun p => ∀ x ∈ p.1, IsJson x) (readItems (fuel + 1) s) := by
  unfold readItems
  refine (h.datum s).bind ?_
  rintro ⟨x, r⟩ hx
  dsimp only at hx ⊢
  split
  · exact yields_error
  split
  · exact yields_ok.mpr (List.forall_mem_singleton.mpr hx)
  split
  · exact (h.items _).bind fun q hxs => yields_ok.mpr (List.forall_mem_cons.mpr ⟨hx, hxs⟩)
  · exact yields_error

theorem isJson_entries {fuel : Nat} (h : ReadsJson fuel) : ∀ s,
    Yields (fun p => ∀ e ∈ p.1, IsJson e.2) (readEntries (fuel + 1) s)
  | [] => yields_error
  | q :: r => by
    unfold readEntries
    split
    · exact yields_error
    split
    · exact yields_error
    split
    · exact yields_error
    split
    · exact yields_error
    refine (h.datum _).bind ?_
    rintro ⟨d, r⟩ hd
    dsimp only at hd ⊢
    split
    · exact yields_error
    split
    · exact yields_ok.mpr (List.forall_mem_singleton.mpr hd)
    split
    · exact (h.entries _).bind fun q hes => yields_ok.mpr (List.forall_mem_cons.mpr ⟨hd, hes⟩)
    · exact yields_error

theorem readsJson : ∀ fuel, ReadsJson fuel
  | 0 => ⟨fun _ => yields_error, fun _ => yields_error, fun _ => yields_error⟩
  | fuel + 1 => ⟨isJson_datum (readsJson fuel), isJson_items (readsJson fuel), isJson_entries (readsJson fuel)⟩

/-- **What is read has a form in JSON.** -/
theorem isJson_read (bs : Bytes) : Yields IsJson (read bs) := by
  unfold read
  split
  · exact yields_error
  · refine ((readsJson _).datum _).bind ?_
    rintro ⟨d, r⟩ hd
    dsimp only at hd ⊢
    split
    · exact yields_ok.mpr hd
    · exact yields_error

/-! ### Decoded values -/

theorem isPrintable_of_lt {n : Int} (h : n.natAbs < 10 ^ 20) : (Datum.int n).isPrintable = true :=
  decide_eq_true (Nat.not_lt.mp (Text.not_maxDigits_lt h (by decide) (by decide)))

theorem isJson_ofMembers : ∀ {as : List Attr}, (∀ a ∈ as, Yields IsJson (ofValue a.2)) →
    Yields (fun ds => ∀ e ∈ ds, IsJson e.2) (ofMembers as)
  | [], _ => yields_ok.mpr (List.forall_mem_nil _)
  | a :: as, h => by
    obtain ⟨ha, has⟩ := List.forall_mem_cons.mp h
    rw [ofMembers_cons]
    exact ha.bind fun d hd => (isJson_ofMembers has).bind fun ds hds =>
      yields_ok.mpr (List.forall_mem_cons.mpr ⟨hd, hds⟩)

theorem isJson_openSealed (tag : Text) (data : Bytes) : Yields IsJson (openSealed tag data) := by
  have htagged {d : Datum} (hd : IsJson d) :
      IsJson (dictionary [(Text.lit "@type", .text tag), (Text.lit "value", d)]) :=
    isJson_dictionary (List.forall_mem_cons.mpr ⟨.text tag, List.forall_mem_singleton.mpr hd⟩)
  unfold openSealed
  split
  · next d hd => exact yields_ok.mpr (htagged (isJson_read data d hd))
  · exact yields_ok.mpr (htagged (.text _))
  · exact yields_error

theorem isJson_ofValue {v : Value} (hv : v.IsDecoded) : Yields IsJson (ofValue v) := by
  induction hv with
  | empty => exact yields_ok.mpr .null
  | bool b => exact yields_ok.mpr (.bool b)
  | float x => exact yields_ok.mpr (.float x)
  | @int n h =>
    have hsmall : n.natAbs < 10 ^ 20 := by
      simp only [int64Min, int64Max] at h
      omega
    exact yields_ok.mpr (.int (isPrintable_of_lt hsmall))
  | @uint n h =>
    have hsmall : n.natAbs < 10 ^ 20 := by
      simp only [uint64Max] at h
      omega
    exact yields_ok.mpr (.int (isPrintable_of_lt hsmall))
  | string => exact yields_ok.mpr (.text _)
  | time => exact yields_ok.mpr (.text _)
  | duration d => exact yields_ok.mpr (.float _)
  | @any tag data => exact isJson_openSealed tag data
  | group _ _ _ ih =>
    rw [ofValue]
    exact (isJson_ofMembers ih).map fun _ hds => isJson_dictionary hds

theorem isJson_ofRecord {r : Record} (hr : r.IsDecoded) : Yields IsJson (ofRecord r) := by
  obtain ⟨l, hl⟩ := hr.level
  rw [ofRecord_eq hl]
  cases hr.attrs with
  | group _ _ hv =>
    refine (isJson_ofMembers fun a ha => isJson_ofValue (hv a ha)).map fun ds hds => ?_
    refine isJson_dictionary (List.forall_mem_append.mpr ⟨fun e he => ?_, hds⟩)
    rcases List.mem_append.mp he with he | he
    · obtain ⟨t, -, rfl⟩ := Option.map_eq_some_iff.mp (Option.mem_toList.mp he)
      exact .text _
    · simp only [List.mem_cons, List.not_mem_nil, or_false] at he
      rcases he with rfl | rfl <;> exact .text _

/-! ### One line -/

/-- **A decoded record has a line** unless an integer in a payload is too long to be read. -/
theorem exists_line_iff {bs : Bytes} {r : Record} (h : Record.decode bs = .ok r) :
    (∃ l, line r = .ok l) ↔ ∀ a ∈ r.attrs, ¬ HoldsOverlong a.2 := by
  have hdecoded := Record.isDecoded_of_decode h
  rw [← exists_ofRecord_iff hdecoded]
  constructor
  · rintro ⟨l, hl⟩
    obtain ⟨obj, hobj, -⟩ := exists_of_bind_eq_ok hl
    exact ⟨obj, hobj⟩
  · rintro ⟨obj, hobj⟩
    obtain ⟨t, ht⟩ := (isJson_ofRecord hdecoded obj hobj).exists_print { showsOthers := true }
    refine ⟨t, ?_⟩
    rw [line, hobj, ok_bind, written, ht]

theorem isPlain_written {layout : Layout} (h : layout.IsPlain) (d : Datum) : Yields Text.IsPlain (written layout d) := by
  unfold written
  split
  · next t ht => exact yields_ok.mpr (isPlain_print h d t ht)
  · exact yields_error

theorem isPlain_line (r : Record) : Yields Text.IsPlain (line r) :=
  yields_bind_of_forall fun d => isPlain_written ⟨by decide, by decide⟩ d

/-! ### All lines -/

/-- What stands at the end of a line. -/
def lineEnd : CodePoint := CodePoint.ofChar '\n'

theorem mapM_line_eq_ok : ∀ {rs : List Record} {ls : List Text}, rs.mapM line = .ok ls →
    List.Forall₂ (fun r l => line r = .ok l) rs ls
  | [], _, h => by
    cases h
    exact .nil
  | r :: rs, _, h => by
    rw [List.mapM_cons] at h
    obtain ⟨l, hl, h⟩ := exists_of_bind_eq_ok h
    obtain ⟨ls, hls, h⟩ := exists_of_bind_eq_ok h
    cases h
    exact .cons hl (mapM_line_eq_ok hls)

theorem exists_of_mem_forall₂ {α β : Type} {R : α → β → Prop} {as : List α} {bs : List β}
    (h : List.Forall₂ R as bs) {b : β} (hb : b ∈ bs) : ∃ a ∈ as, R a b := by
  induction h with
  | nil => cases hb
  | cons hr _ ih =>
    rcases List.mem_cons.mp hb with rfl | hb
    · exact ⟨_, List.mem_cons_self, hr⟩
    · obtain ⟨a, hmem, hr⟩ := ih hb
      exact ⟨a, List.mem_cons_of_mem _ hmem, hr⟩

theorem lineEnd_not_mem {l : Text} (h : l.IsPlain) : lineEnd ∉ l := by
  intro hmem
  exact absurd (h _ hmem).1 (by decide)

/-- Records have lines just if each of them has one. -/
theorem exists_lines_iff {rs : List Record} : (∃ t, lines rs = .ok t) ↔ ∀ r ∈ rs, ∃ l, line r = .ok l := by
  constructor
  · rintro ⟨t, ht⟩ r hr
    obtain ⟨ls, hls, -⟩ := exists_of_bind_eq_ok ht
    obtain ⟨l, -, hl⟩ := exists_of_mem_forall₂ (mapM_line_eq_ok hls).flip hr
    exact ⟨l, hl⟩
  · intro h
    have hlines : ∃ ls, rs.mapM line = .ok ls := by
      induction rs with
      | nil => exact ⟨[], rfl⟩
      | cons r rs ih =>
        obtain ⟨⟨l, hl⟩, hrs⟩ := List.forall_mem_cons.mp h
        obtain ⟨ls, hls⟩ := ih hrs
        exact ⟨l :: ls, by rw [List.mapM_cons, hl, ok_bind, hls]; rfl⟩
    obtain ⟨ls, hls⟩ := hlines
    exact ⟨_, by rw [lines, hls, ok_bind]; rfl⟩

/-- Of lines that are ended, each end stands behind one of them. -/
theorem count_ended : ∀ {ls : List Text}, (∀ l ∈ ls, l.IsPlain) →
    (ls.flatMap (· ++ [lineEnd])).count lineEnd = ls.length
  | [], _ => rfl
  | l :: ls, h => by
    obtain ⟨hl, hls⟩ := List.forall_mem_cons.mp h
    rw [List.flatMap_cons, List.count_append, List.count_append, count_ended hls,
      List.count_eq_zero.mpr (lineEnd_not_mem hl), List.count_singleton_self, List.length_cons]
    omega

/-- Lines that are ended are joined lines with one more end behind. -/
theorem flatMap_ended : ∀ {ls : List Text}, ls ≠ [] →
    ls.flatMap (· ++ [lineEnd]) = Text.joinWith [lineEnd] ls ++ [lineEnd]
  | [l], _ => by simp [Text.joinWith]
  | l :: m :: ls, _ => by
    have hjoin : Text.joinWith [lineEnd] (l :: m :: ls) = l ++ [lineEnd] ++ Text.joinWith [lineEnd] (m :: ls) := rfl
    rw [List.flatMap_cons, flatMap_ended (List.cons_ne_nil m ls), hjoin, List.append_assoc _ _ [lineEnd]]

/-- The text has one line for each record. -/
structure IsOneEach (t : Text) (rs : List Record) : Prop where
  /-- The text is the lines of the records in their order, each with its end: joined by ends, with one more behind if
  there are any. -/
  ended : ∃ ls, List.Forall₂ (fun r l => line r = .ok l) rs ls ∧ t = ls.flatMap (· ++ [lineEnd]) ∧
    (ls ≠ [] → t = Text.joinWith [lineEnd] ls ++ [lineEnd])
  /-- There are no other ends of lines. -/
  count : t.count lineEnd = rs.length
  /-- All else is printable ASCII. -/
  plain : ∀ c ∈ t, c = lineEnd ∨ (32 ≤ c.val ∧ c.val < 127)

theorem isOneEach_lines {rs : List Record} {t : Text} (h : lines rs = .ok t) : IsOneEach t rs := by
  obtain ⟨ls, hls, h⟩ := exists_of_bind_eq_ok h
  cases h
  have hlines := mapM_line_eq_ok hls
  have hplain : ∀ l ∈ ls, l.IsPlain := by
    intro l hl
    obtain ⟨r, -, hr⟩ := exists_of_mem_forall₂ hlines hl
    exact isPlain_line r l hr
  exact {
    ended := ⟨ls, hlines, rfl, flatMap_ended⟩
    count := (count_ended hplain).trans hlines.length_eq.symm
    plain := fun c hc => by
      obtain ⟨l, hl, hc⟩ := List.mem_flatMap.mp hc
      rcases List.mem_append.mp hc with hc | hc
      · exact .inr (hplain l hl c hc)
      · exact .inl (List.mem_singleton.mp hc) }

theorem lines_append (xs ys : List Record) :
    lines (xs ++ ys) = (do let s ← lines xs; let t ← lines ys; return s ++ t) := by
  unfold lines
  rw [List.mapM_append]
  cases xs.mapM line with
  | error e => rfl
  | ok ls =>
    cases ys.mapM line with
    | error e => rfl
    | ok ms => exact congrArg Except.ok List.flatMap_append

/-- **Lines are put together, and each record has one of its own,** whatever the records hold. -/
theorem lines_are_one_each {xs ys : List Record} {s t : Text} (hs : lines xs = .ok s) (ht : lines ys = .ok t) :
    lines (xs ++ ys) = .ok (s ++ t) ∧ IsOneEach s xs := by
  constructor
  · rw [lines_append, hs, ok_bind, ht]
    rfl
  · exact isOneEach_lines hs

/-- A record with an end of line in its message and a code point beyond the first plane. -/
def brokenMessage : Record := { message := Text.lit "a\n" ++ [CodePoint.ofNat 0x1F600], level := .level .info }

/-- A payload in JSON, in which a surrogate stands alone. -/
def loneSurrogate : Value := .held .any (.sealed (Text.lit "t") (Utf8.encodeAll (Text.lit "[\"\\udc00\", true]")))

/-- A record that holds it in a group. -/
def sealedSurrogate : Record := { attrs := [(Text.lit "g", .group [(Text.lit "p", loneSurrogate)])] }

theorem lines_are_one_each_broken : ∃ s t, lines [brokenMessage] = .ok s ∧ lines [sealedSurrogate] = .ok t ∧
    lines [brokenMessage, sealedSurrogate] = .ok (s ++ t) ∧ s.count lineEnd = 1 := by
  have hs : lines [brokenMessage] = .ok
      (Text.lit "\x7b\"level\": \"INFO\", \"msg\": \"a\\n\\ud83d\\ude00\"\x7d\n") := by decide +kernel
  have ht : lines [sealedSurrogate] = .ok (Text.lit "\x7b\"level\": \"UNSET\", \"msg\": \"\", " ++
      Text.lit "\"g\": \x7b\"p\": \x7b\"@type\": \"t\", \"value\": [\"\\udc00\", true]\x7d\x7d\x7d\n") := by
    decide +kernel
  obtain ⟨hboth, heach⟩ := lines_are_one_each hs ht
  exact ⟨_, _, hs, ht, hboth, heach.count⟩

end Json

end LogStream
