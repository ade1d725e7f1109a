import LogStream.Json.Lines
import LogStream.Proofs.Datum.Mapping
import LogStream.Proofs.Outcome
import LogStream.Proofs.Wire.Image

/-! # Objects of records

The object of a record is made in two steps: the header, that is the time, the level and the message, and then the
attributes, which are put into the same object (`ofRecord_eq`). So all attributes stand there under their keys, and of
the header what no attribute has the key of. A value that was decoded has an object unless it holds a payload in JSON
with an integer that is too long to be read (`exists_ofValue_iff`), and this is the only way for a decoded record to
have none (`exists_ofRecord_iff`). -/

namespace LogStream.Json

variable {ds : List (Text × Datum)} {v : Value} {r : Record}

/-! ### Members -/

theorem ofMembers_cons (a : Attr) (as : List Attr) :
    ofMembers (a :: as) = (do let d ← ofValue a.2; let ds ← ofMembers as; return (a.1, d) :: ds) := rfl

/-- Members keep their keys, and each is converted by itself. -/
theorem ofMembers_eq_ok : ∀ {as : List Attr} {ds : List (Text × Datum)}, ofMembers as = .ok ds →
    ds.map Prod.fst = as.map Prod.fst ∧ ∀ a ∈ as, ∃ d, ofValue a.2 = .ok d ∧ (a.1, d) ∈ ds
  | [], _, h => by
    cases h
    exact ⟨rfl, List.forall_mem_nil _⟩
  | a :: as, _, h => by
    rw [ofMembers_cons] at h
    obtain ⟨d, hd, h⟩ := exists_of_bind_eq_ok h
    obtain ⟨ds, hds, h⟩ := exists_of_bind_eq_ok h
    cases h
    obtain ⟨hkeys, hall⟩ := ofMembers_eq_ok hds
    refine ⟨congrArg (a.1 :: ·) hkeys, List.forall_mem_cons.mpr ⟨⟨d, hd, List.mem_cons_self⟩, fun b hb => ?_⟩⟩
    obtain ⟨d', hd', hmem⟩ := hall b hb
    exact ⟨d', hd', List.mem_cons_of_mem _ hmem⟩

theorem exists_of_ofMembers_eq_error {e : LineError} : ∀ {as : List Attr}, ofMembers as = .error e →
    ∃ a ∈ as, ofValue a.2 = .error e
  | [], h => by cases h
  | a :: as, h => by
    rw [ofMembers_cons] at h
    cases hd : ofValue a.2 with
    | error e' =>
      rw [hd] at h
      cases h
      exact ⟨a, List.mem_cons_self, hd⟩
    | ok d =>
      rw [hd, ok_bind] at h
      obtain ⟨b, hb, he⟩ := exists_of_ofMembers_eq_error (eq_error_of_map h)
      exact ⟨b, List.mem_cons_of_mem a hb, he⟩

/-- A value holds, at any depth, a payload in JSON with an integer that is too long to be read. -/
inductive HoldsOverlong : Value → Prop
  | payload (tag : Text) {data : Bytes} (h : read data = .error .integerTooLong) :
      HoldsOverlong (.held .any (.sealed tag data))
  | member {as : List Attr} {a : Attr} (ha : a ∈ as) (h : HoldsOverlong a.2) : HoldsOverlong (.group as)

theorem not_ofValue_eq_ok_of_overlong (h : HoldsOverlong v) : ∀ d, ofValue v ≠ .ok d := by
  induction h with
  | payload tag h =>
    intro d hd
    change openSealed tag _ = .ok d at hd
    rw [openSealed, h] at hd
    cases hd
  | member ha _ ih =>
    intro d hd
    rw [ofValue] at hd
    obtain ⟨ds, hds, -⟩ := exists_of_map_eq_ok hd
    obtain ⟨d', hd', -⟩ := (ofMembers_eq_ok hds).2 _ ha
    exact ih d' hd'

theorem overlong_of_ofValue_eq_error (hv : v.IsDecoded) {e : LineError} (h : ofValue v = .error e) :
    e = .fault .badValue ∧ HoldsOverlong v := by
  induction hv with
  | empty | bool | float | int | uint | string | time | duration => cases h
  | @any tag data =>
    change openSealed tag data = .error e at h
    unfold openSealed at h
    cases hread : read data with
    | ok d =>
      rw [hread] at h
      cases h
    | error e' =>
      rw [hread] at h
      cases e' with
      | malformed => cases h
      | integerTooLong =>
        cases h
        exact ⟨rfl, .payload tag hread⟩
  | group _ _ _ ih =>
    rw [ofValue] at h
    obtain ⟨a, ha, he⟩ := exists_of_ofMembers_eq_error (eq_error_of_map h)
    obtain ⟨hfault, hholds⟩ := ih a ha he
    exact ⟨hfault, .member ha hholds⟩

/-- **What a decoded value is in a line**, if no integer is too long. -/
theorem exists_ofValue_iff (hv : v.IsDecoded) : (∃ d, ofValue v = .ok d) ↔ ¬ HoldsOverlong v := by
  constructor
  · rintro ⟨d, hd⟩ h
    exact not_ofValue_eq_ok_of_overlong h d hd
  · intro h
    cases he : ofValue v with
    | ok d => exact ⟨d, rfl⟩
    | error e => exact absurd (overlong_of_ofValue_eq_error hv he).2 h

/-! ### Header -/

/-- What stands in front of the attributes: the time of a record if it has one, its level and its message. -/
def header (r : Record) (l : Level) : List (Text × Datum) :=
  (r.time.map fun t => (Text.lit "time", Datum.text t.iso)).toList ++
    [(Text.lit "level", .text (Text.lit l.name)), (Text.lit "msg", .text r.message)]

theorem ofRecord_eq {l : Level} (hl : r.level = .level l) :
    ofRecord r = (ofMembers r.attrs).map fun ds => dictionary (header r l ++ ds) := by
  unfold ofRecord
  rw [hl]
  rfl

/-- An object of entries under texts. -/
def ofEntries (es : List (Text × Datum)) : Datum := .map (es.map fun e => (.text e.1, e.2))

/-- Entries put behind others that have distinct keys: each stands under its key, and what was there under no other
one. -/
theorem lookup_putAll_append (front : List (Text × Datum)) {back : List (Text × Datum)}
    (hn : (back.map Prod.fst).Nodup) :
    (∀ e ∈ back, (Attrs.putAll [] (front ++ back)).lookup e.1 = some e.2) ∧
    ∀ key, key ∉ back.map Prod.fst →
      (Attrs.putAll [] (front ++ back)).lookup key = front.reverse.lookup key := by
  have hlookup (key : Text) : (Attrs.putAll [] (front ++ back)).lookup key =
      (back.reverse.lookup key).or (front.reverse.lookup key) := by
    rw [Attrs.lookup_putAll, List.reverse_append, List.lookup_append, List.lookup_nil, Option.or_none]
  constructor
  · rintro ⟨key, d⟩ he
    have hback : back.reverse.lookup key = some d := by
      refine Attrs.lookup_of_mem ?_ (List.mem_reverse.mpr he)
      rw [List.map_reverse]
      exact List.nodup_reverse.mpr hn
    rw [hlookup, hback, Option.some_or]
  · intro key hkey
    have hback : back.reverse.lookup key = none := by
      refine Attrs.lookup_of_not_binds ?_
      rwa [Attrs.Binds, List.map_reverse, List.mem_reverse]
    rw [hlookup, hback, Option.none_or]

/-- The keys of the header, of which none is another one. -/
def headerKeys : List Text := [Text.lit "time", Text.lit "level", Text.lit "msg"]

theorem lookup_header (r : Record) (l : Level) :
    (header r l).reverse.lookup (Text.lit "time") = r.time.map (fun t => .text t.iso) ∧
    (header r l).reverse.lookup (Text.lit "level") = some (.text (Text.lit l.name)) ∧
    (header r l).reverse.lookup (Text.lit "msg") = some (.text r.message) ∧
    ∀ key, key ∉ headerKeys → (header r l).reverse.lookup key = none := by
  have hlevel : (Text.lit "level" == Text.lit "msg") = false := by decide
  have htime : (Text.lit "time" == Text.lit "msg") = false := by decide
  have htime' : (Text.lit "time" == Text.lit "level") = false := by decide
  have hother (key : Text) (hkey : key ∉ headerKeys) : (header r l).reverse.lookup key = none := by
    have hne : ∀ k ∈ headerKeys, (key == k) = false := fun k hk =>
      beq_false_of_ne fun he => hkey (he ▸ hk)
    simp only [headerKeys, List.forall_mem_cons] at hne
    obtain ⟨ht, hl, hm, -⟩ := hne
    cases hrt : r.time <;> simp [header, hrt, List.lookup_cons, ht, hl, hm]
  refine ⟨?_, ?_, ?_, hother⟩ <;>
    cases hrt : r.time <;> simp [header, hrt, List.lookup_cons, hlevel, htime, htime']

/-! ### Records -/

/-- What the entries of an object hold of a record: all its attributes, and what no attribute has the key of. -/
structure Holds (es : List (Text × Datum)) (r : Record) : Prop where
  /-- No key stands twice. -/
  distinct : (es.map Prod.fst).Nodup
  /-- Each attribute is converted and stands under its key. -/
  attrs : ∀ a ∈ r.attrs, ∃ d, ofValue a.2 = .ok d ∧ es.lookup a.1 = some d
  level : Text.lit "level" ∉ r.attrs.map Prod.fst →
    ∃ l, r.level = .level l ∧ es.lookup (Text.lit "level") = some (.text (Text.lit l.name))
  message : Text.lit "msg" ∉ r.attrs.map Prod.fst → es.lookup (Text.lit "msg") = some (.text r.message)
  /-- The time stands there just if the record has one. -/
  time : Text.lit "time" ∉ r.attrs.map Prod.fst →
    es.lookup (Text.lit "time") = r.time.map fun t => .text t.iso
  /-- Nothing else stands there. -/
  other : ∀ key, key ∉ r.attrs.map Prod.fst → key ∉ headerKeys → es.lookup key = none

theorem holds_putAll {l : Level} (hl : r.level = .level l) (hn : (r.attrs.map Prod.fst).Nodup)
    (h : ofMembers r.attrs = .ok ds) : Holds (Attrs.putAll [] (header r l ++ ds)) r := by
  obtain ⟨hkeys, hall⟩ := ofMembers_eq_ok h
  obtain ⟨hfound, hfront⟩ := lookup_putAll_append (header r l) (hkeys ▸ hn)
  rw [hkeys] at hfront
  obtain ⟨htime, hlevel, hmessage, hother⟩ := lookup_header r l
  exact {
    distinct := @Attrs.nodup_putAll _ [] List.nodup_nil _
    attrs := fun a ha => by
      obtain ⟨d, hd, hmem⟩ := hall a ha
      exact ⟨d, hd, hfound _ hmem⟩
    level := fun hkey => ⟨l, hl, (hfront _ hkey).trans hlevel⟩
    message := fun hkey => (hfront _ hkey).trans hmessage
    time := fun hkey => (hfront _ hkey).trans htime
    other := fun key hkey hhead => (hfront key hkey).trans (hother key hhead) }

theorem exists_ofRecord_iff (hr : r.IsDecoded) :
    (∃ obj, ofRecord r = .ok obj) ↔ ∀ a ∈ r.attrs, ¬ HoldsOverlong a.2 := by
  obtain ⟨l, hl⟩ := hr.level
  rw [ofRecord_eq hl]
  cases hr.attrs with
  | group _ _ hv =>
    constructor
    · rintro ⟨obj, hobj⟩ a ha
      obtain ⟨ds, hds, -⟩ := exists_of_map_eq_ok hobj
      obtain ⟨d, hd, -⟩ := (ofMembers_eq_ok hds).2 a ha
      exact (exists_ofValue_iff (hv a ha)).mp ⟨d, hd⟩
    · intro hnone
      cases hms : ofMembers r.attrs with
      | ok ds => exact ⟨_, rfl⟩
      | error e =>
        obtain ⟨a, ha, he⟩ := exists_of_ofMembers_eq_error hms
        exact absurd (overlong_of_ofValue_eq_error (hv a ha) he).2 (hnone a ha)

/-- **A decoded record as an object:** there is one unless an attribute holds an integer that is too long, and it holds
all attributes of the record, and of its level, its message and its time what no attribute has the key of. -/
theorem ofRecord_holds {bs : Bytes} {r : Record} (h : Record.decode bs = .ok r) :
    ((∃ obj, ofRecord r = .ok obj) ↔ ∀ a ∈ r.attrs, ¬ HoldsOverlong a.2) ∧
    ∀ obj, ofRecord r = .ok obj → ∃ es, obj = ofEntries es ∧ Holds es r := by
  have hdecoded := Record.isDecoded_of_decode h
  refine ⟨exists_ofRecord_iff hdecoded, fun obj hobj => ?_⟩
  obtain ⟨l, hl⟩ := hdecoded.level
  rw [ofRecord_eq hl] at hobj
  obtain ⟨ds, hds, rfl⟩ := exists_of_map_eq_ok hobj
  cases hdecoded.attrs with
  | group hn => exact ⟨_, rfl, holds_putAll hl hn hds⟩

/-- The bytes of a record with the message `hi` and an empty attribute under a key of its own. -/
def apartPayload : Bytes := [0x12, 0x02, 0x68, 0x69, 0x22, 0x03, 0x0A, 0x01, 0x6E]

theorem ofRecord_holds_apart : ∃ r es, Record.decode apartPayload = .ok r ∧ ofRecord r = .ok (ofEntries es) ∧
    es.lookup (Text.lit "msg") = some (.text (Text.lit "hi")) ∧ es.lookup (Text.lit "time") = none ∧
    ∃ d, ofValue .empty = .ok d ∧ es.lookup (Text.lit "n") = some d := by
  have hr : Record.decode apartPayload = .ok
      { message := Text.lit "hi", attrs := [(Text.lit "n", .empty)] } := rfl
  obtain ⟨hmade, hholds⟩ := ofRecord_holds hr
  obtain ⟨obj, hobj⟩ := hmade.mpr (List.forall_mem_singleton.mpr nofun)
  obtain ⟨es, rfl, h⟩ := hholds obj hobj
  exact ⟨_, es, hr, hobj, h.message (by decide), h.time (by decide), h.attrs _ List.mem_cons_self⟩

/-- The bytes of a record with the message `hi` and an empty attribute `msg`. -/
def sharedPayload : Bytes := [0x12, 0x02, 0x68, 0x69, 0x22, 0x05, 0x0A, 0x03, 0x6D, 0x73, 0x67]

/-- **Not every object holds the message of its record:** an attribute with its key stands in its place. -/
theorem not_holds_shared : ¬ ∀ (bs : Bytes) (r : Record) (es : List (Text × Datum)), Record.decode bs = .ok r →
    ofRecord r = .ok (ofEntries es) → es.lookup (Text.lit "msg") = some (.text r.message) := by
  intro h
  have hr : Record.decode sharedPayload = .ok
      { message := Text.lit "hi", attrs := [(Text.lit "msg", .empty)] } := rfl
  have hobj : ofRecord { message := Text.lit "hi", attrs := [(Text.lit "msg", .empty)] } = .ok
      (ofEntries [(Text.lit "level", .text (Text.lit "UNSET")), (Text.lit "msg", .null)]) := by rfl
  have hmessage := h sharedPayload _ _ hr hobj
  have hnull : List.lookup (Text.lit "msg")
      [(Text.lit "level", Datum.text (Text.lit "UNSET")), (Text.lit "msg", .null)] = some .null := rfl
  rw [hnull] at hmessage
  cases hmessage

end LogStream.Json
