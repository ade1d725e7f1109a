import LogStream.Proofs.Handler.NormalForm
import LogStream.Proofs.Handler.Writing
import LogStream.Proofs.Wire.Canonical
import LogStream.Proofs.Wire.Order

/-! # Relaying

A program that reads records and logs each of them again, through a handler of its own, writes what it has
read (`Handler.handle_relay`). What a handler builds is in normal form, leaves canonical members and is
therefore read as values that are built and leave the same members; the head of a record comes back in the
same way (`HeadWrittenAs.fillHead?_eq`); and the order of the attributes is not that of the message
(`Record.encode_of_decode`). -/

namespace LogStream

namespace Time

/-- Whether a time is the one that was never set is told by its instant. -/
theorem isZero_eq (t : Time) : t.isZero = (t.instant == -(epochWall : Int)) := by
  unfold isZero
  cases ho : t.offset with
  | none =>
    have hinstant : t.instant = (t.wall.val : Int) - epochWall := by
      unfold instant
      rw [ho, Option.getD_none]
      omega
    rw [hinstant, Bool.eq_iff_iff]
    simp only [Option.isNone_none, Option.isSome_none, Bool.and_true, Bool.false_and, Bool.or_false,
      beq_iff_eq]
    omega
  | some offset => simp

end Time

theorem Level.number_of_ofNumber? {n : Int} {l : Level} (h : Level.ofNumber? n = some l) :
    (l.number : Int) = n :=
  beq_iff_eq.mp (List.find?_some (p := fun l : Level => (l.number : Int) == n) h)

namespace Wire

/-! ### Heads of records -/

/-- What a message is read as, its attributes as they stand in it. -/
structure RecordMessage.ReadAs (m : RecordMessage) (r : Record) : Prop where
  message : r.message = m.message
  level : ∃ l, Level.ofNumber? m.level = some l ∧ r.level = .level l
  time : r.time.map some = m.time.map Stamp.toTime?
  attrs : Member.toValues (m.attrs.filter fun a => a.1 != []) = .ok r.attrs

theorem RecordMessage.readAs_of_toRecord {m : RecordMessage} {r : Record} (h : m.toRecord = .ok r) :
    m.ReadAs r := by
  unfold toRecord at h
  split at h
  · cases h
  next l hl =>
  cases hs : m.time with
  | none =>
    rw [hs] at h
    obtain ⟨time, ht, h⟩ := exists_of_bind_eq_ok h
    obtain ⟨attrs, ha, h⟩ := exists_of_bind_eq_ok h
    cases ht
    cases h
    exact ⟨rfl, ⟨l, hl, rfl⟩, by rw [hs]; rfl, ha⟩
  | some s =>
    rw [hs] at h
    obtain ⟨time, ht, h⟩ := exists_of_bind_eq_ok h
    obtain ⟨t, hst, rfl⟩ := eq_some_of_elim_error ht
    obtain ⟨attrs, ha, h⟩ := exists_of_bind_eq_ok h
    cases h
    exact ⟨rfl, ⟨l, hl, rfl⟩, by rw [hs, Option.map_some, Option.map_some, hst], ha⟩

/-- The time of a record that was read is written as it was. -/
theorem TimeWrittenAs.of_map_eq {time time' : Option Time} {stamp : Option Stamp}
    (h : TimeWrittenAs time stamp) (ht : time'.map some = stamp.map Stamp.toTime?) :
    TimeWrittenAs time' stamp := by
  cases h with
  | unset hz =>
    obtain rfl := Option.map_eq_none_iff.mp ht
    exact .unset rfl
  | @set t s hz hs =>
    obtain ⟨u, hu, -, hi⟩ := Stamp.toTime?_of_ofTime? hs
    obtain ⟨u', rfl, hu'⟩ := Option.map_eq_some_iff.mp ht
    obtain rfl : u' = u := Option.some.inj (hu'.trans hu)
    refine .set ?_ ((Stamp.ofTime?_of_instant hi).trans hs)
    rw [isZeroTime, Option.all_some, Time.isZero_eq] at hz ⊢
    rwa [hi]

/-- A message that says what a record says is the one that the record fills before its attributes. -/
theorem HeadWrittenAs.fillHead?_eq {r : Record} {m : RecordMessage} (h : HeadWrittenAs r m) :
    fillHead? .blank r = some { m with attrs := [] } := by
  have hcode : levelCode? r.level = some m.level := by
    unfold levelCode?
    rw [← h.level, if_pos h.bounds]
  unfold fillHead?
  rw [← h.message, encodable?_of_isSome h.encodable, hcode]
  simp only [Option.bind_eq_bind, Option.bind_some]
  have htime := h.time
  generalize r.time = time at htime
  generalize m.time = stamp at htime
  cases htime with
  | unset hz => rw [if_pos hz]; rfl
  | set hz hs => rw [if_neg (Bool.eq_false_iff.mp hz), Option.bind_some, hs]; rfl

theorem HeadWrittenAs.withAttrs {r : Record} {m : RecordMessage} (h : HeadWrittenAs r m)
    (as : List Attr) : HeadWrittenAs { r with attrs := as } m :=
  ⟨h.message, h.encodable, h.level, h.bounds, h.time⟩

/-- **The head of a record that was read is written as it was.** -/
theorem headWrittenAs_of_readAs {r₀ r : Record} {m : RecordMessage} (h : HeadWrittenAs r₀ m)
    {as : List (Text × Member)} (hr : RecordMessage.ReadAs { m with attrs := as } r) :
    HeadWrittenAs r m where
  message := hr.message.symm
  encodable := h.encodable
  level := by
    obtain ⟨l, hl, hlevel⟩ := hr.level
    rw [hlevel]
    exact (Level.number_of_ofNumber? hl).symm
  bounds := h.bounds
  time := h.time.of_map_eq hr.time

end Wire

/-! ### Records -/

open Wire

namespace Record

variable {r₀ r : Record} {m : RecordMessage}

/-- What was written of a record is read as its message with the attributes in order. -/
theorem readAs_of_decode (hm : fillRecord .blank r₀ = .ok m)
    (hlen : m.toBytes.length < 0x10000000000000000) (hr : decode m.toBytes = .ok r) :
    RecordMessage.ReadAs { m with attrs := inOrder m.attrs } r := by
  obtain ⟨hread, -⟩ := isReadable_of_fillRecord hm
  obtain ⟨hhead, -⟩ := fillRecord_eq_ok hm
  cases hread.fits with
  | group hn hk hfits =>
    have hdepth : Member.depthBelow m.attrs ≤ maxDepth := by
      refine Nat.le_of_not_lt fun hdeep => ?_
      unfold decode at hr
      rw [RecordMessage.read?_eq_none hk hfits hdeep hlen] at hr
      cases hr
    unfold decode at hr
    rw [RecordMessage.read?_toBytes
      ⟨hhead.time.fits, hhead.encodable, hhead.bounds, hn, hk, hfits, hdepth⟩ hlen] at hr
    exact RecordMessage.readAs_of_toRecord hr

/-- The values that are read fill the members that were written. -/
theorem allRestore_of_readAs (hb : AreBuilt r₀.attrs) (hm : fillRecord .blank r₀ = .ok m)
    (hr : RecordMessage.ReadAs { m with attrs := inOrder m.attrs } r) :
    [] ∉ (inOrder m.attrs).map Prod.fst ∧ AllRestore r.attrs (inOrder m.attrs) := by
  obtain ⟨-, hfill⟩ := fillRecord_eq_ok hm
  obtain ⟨hkeys, hcanonical⟩ := isCanonical_of_fillEach hb.nodup
    (fun a ha => (hb.values a ha).isCanonical_of_fill) hfill
  have hnil : [] ∉ (inOrder m.attrs).map Prod.fst := by
    rw [(map_fst_inOrder_perm m.attrs).mem_iff, hkeys]
    exact hb.keys
  have hfilter : (inOrder m.attrs).filter (fun a => a.1 != []) = inOrder m.attrs :=
    List.filter_eq_self.mpr fun a ha => bne_iff_ne.mpr fun he => hnil (he ▸ List.mem_map_of_mem ha)
  refine ⟨hnil, .of_toValues (fun b hmem v hv => ?_) (hfilter ▸ hr.attrs)⟩
  obtain ⟨a, ha, rfl⟩ := mem_inOrder hmem
  exact (hcanonical a ha).2.ordered.restores hv

/-- **What was written of a built record and is decoded is written again**, whatever the order of the
attributes, and these are built. -/
theorem encode_of_decode (hb : AreBuilt r₀.attrs) (hm : fillRecord .blank r₀ = .ok m)
    (hlen : m.toBytes.length < 0x10000000000000000) (hr : decode m.toBytes = .ok r)
    {as : List Attr} (hp : as.Perm r.attrs) :
    AreBuilt as ∧ encode { r with attrs := as } = .ok m.toBytes := by
  obtain ⟨hread, -⟩ := isReadable_of_fillRecord hm
  obtain ⟨hhead, -⟩ := fillRecord_eq_ok hm
  have hreads := readAs_of_decode hm hlen hr
  obtain ⟨hnil, hall⟩ := allRestore_of_readAs hb hm hreads
  obtain ⟨as', hall', hperm⟩ := List.perm_comp_forall₂ hp hall
  have hall' : AllRestore as as' := hall'
  cases hread.fits with
  | group hn hk hfits =>
    have hn' : (as'.map Prod.fst).Nodup :=
      (hperm.map Prod.fst).nodup_iff.mpr (nodup_inOrder hn)
    have hnil' : [] ∉ as'.map Prod.fst := fun h => hnil ((hperm.map Prod.fst).mem_iff.mp h)
    have hk' : ∀ a ∈ as', (Utf8.encode? a.1).isSome := by
      intro b hmem
      obtain ⟨a, ha, rfl⟩ := mem_inOrder (hperm.mem_iff.mp hmem)
      exact hk a ha
    have hhead' := (headWrittenAs_of_readAs hhead hreads).withAttrs as
    have hfill : fillRecord .blank { r with attrs := as } = .ok { m with attrs := as' } := by
      unfold fillRecord
      rw [hhead'.fillHead?_eq]
      dsimp only
      rw [fillAttrs_eq_fillEach, hall'.fillEach_eq hn' hk']
      rfl
    refine ⟨hall'.areBuilt hn' hnil', ?_⟩
    unfold encode
    rw [hfill]
    exact congrArg Except.ok (RecordMessage.toBytes_of_perm hperm hn hk hfits)

end Record

/-! ### Events -/

/-- The event that a program makes of a record that it has read, with the attributes in any order. -/
def Record.event (r : Record) (attrs : List Attr) (origin : Text) : Event :=
  { message := r.message, level := r.level, time := r.time, attrs, origin := some origin }

/-- **Relaying is a fixed point.** What a handler writes of an event, if a reader takes it, is written again
where the record that was read is handled by a root: the same frame, whatever the order of the attributes,
the origin of the event and the levels of the handlers are. The pools hold blank messages, as they do in
every session; the entries of a map are written in the order of their keys. -/
theorem Handler.handle_relay {level : LevelMark} {steps : List Derivation} {e : Event} {o : Output}
    (ho : o.pool.IsBlank) {payload f : Bytes}
    (hw : ((steps.foldl Handler.derive { level }).handle e o).1 = .written f)
    (hf : frame payload = .ok f) {r : Record} (hr : Record.decode payload = .ok r)
    {as : List Attr} (hp : as.Perm r.attrs) (level' : LevelMark) (origin : Text) {o' : Output}
    (ho' : o'.pool.IsBlank) :
    (({ level := level' } : Handler).handle (r.event as origin) o').1 = .written f := by
  obtain ⟨pool, -, he⟩ := Handler.handle_eq _ e ho
  rw [he] at hw
  obtain ⟨attrs, payload', hattrs, hencode, hlen, hout⟩ :=
    Handler.outcome_of_isSuccess (congrArg Outcome.isSuccess hw)
  obtain ⟨-, rfl⟩ := frame_eq_ok_iff.mp hf
  obtain rfl : payload' = payload :=
    congrArg (List.drop lengthSize) (Outcome.written.inj (hout.symm.trans hw))
  obtain ⟨m, hm, rfl⟩ := exists_of_map_eq_ok hencode
  obtain ⟨hbuilt, hagain⟩ :=
    Record.encode_of_decode (Handler.areBuilt_of_buildAttrs hattrs) hm (by omega) hr hp
  have hmerge : ({ level := level' } : Handler).buildAttrs (r.event as origin).attrs = .ok as :=
    (buildAttrs_root level' as).trans hbuilt.merge?_eq
  have hrecord : ((r.event as origin).record as).encode = .ok m.toBytes := hagain
  obtain ⟨pool', -, he'⟩ := Handler.handle_eq { level := level' } (r.event as origin) ho'
  rw [he']
  exact outcome_eq_written rfl hmerge hrecord hlen

/-- Steps to a handler with a group that is open behind an attribute: a truth value whose payload is an
integer. -/
def groupedSteps : List Derivation :=
  [.attrs [(Text.lit "b", .held .bool (.int 2))], .group (Text.lit "g")]

/-- A call with a lazy integer, an empty group and an empty value. -/
def groupedEvent : Event where
  message := Text.lit "m"
  time := Time.ofWall? (epochWall + 1) (some 60)
  attrs := [(Text.lit "z", .held .lazy (.lazy (.int 7))), (Text.lit "e", .group []),
    (Text.lit "a", .empty)]
  origin := some (Text.lit "main")

/-- What is built for it. -/
def groupedAttrs : List Attr :=
  [(Text.lit "b", .held .bool (.int 2)),
    (Text.lit "g", .group [(Text.lit "z", .held .int (.int 7)), (Text.lit "a", .empty)])]

theorem handle_relay_grouped :
    ∃ payload f r, ((groupedSteps.foldl Handler.derive {}).handle groupedEvent {}).1 = .written f ∧
      frame payload = .ok f ∧ Record.decode payload = .ok r ∧
      (({} : Handler).handle (r.event r.attrs.reverse (Text.lit "relay")) {}).1 = .written f := by
  have hbuild : (groupedSteps.foldl Handler.derive {}).buildAttrs groupedEvent.attrs =
      .ok groupedAttrs := by rfl
  have hnesting : (groupedEvent.record groupedAttrs).nesting ≤ Wire.maxDepth := by decide
  have hlength : (groupedEvent.record groupedAttrs).encode.map List.length = .ok 55 := by cbv
  obtain ⟨payload, hencode, hlength⟩ := exists_of_map_eq_ok hlength
  obtain ⟨r, hr⟩ := Record.exists_decode rfl hnesting hencode (by omega)
  have hf : frame payload = .ok (lengthBytes payload.length ++ payload) := if_pos (by omega)
  obtain ⟨pool, -, he⟩ := Handler.handle_eq (o := {}) (groupedSteps.foldl Handler.derive {})
    groupedEvent Wire.Pool.isBlank_empty
  have hw : ((groupedSteps.foldl Handler.derive {}).handle groupedEvent {}).1 =
      .written (lengthBytes payload.length ++ payload) := by
    rw [he]
    exact Handler.outcome_eq_written rfl hbuild hencode (by omega)
  exact ⟨payload, _, r, hw, hf, hr, Handler.handle_relay Wire.Pool.isBlank_empty hw hf hr
    r.attrs.reverse_perm (.level .debug) (Text.lit "relay") Wire.Pool.isBlank_empty⟩

end LogStream
