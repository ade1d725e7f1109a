import LogStream.Proofs.Handler.Session
import LogStream.Proofs.Wire.Acceptance

/-! # What a writer may write and a reader takes

A writer has no limits but the four bytes of a length. A reader takes a payload that is not longer
than its limit, and no message in it may be nested too deep. A call that keeps to these limits
(`Call.isReadable`) is read, whatever its values are and however they came to be nested, as long as
the calls in front of it keep to them too (`readable_run`). No weaker limits will do: a reader stops
at the first call that does not keep to them (`recordsRead_of_levels`), and a writer may well write
such calls (`not_readable_run`). -/

namespace LogStream

namespace Call

variable {limit : Int} {c : Call} {m : Wire.RecordMessage} {payload : Bytes}

/-- The message of the record that the call asks for. -/
def message? (c : Call) : Option Wire.RecordMessage := do
  let attrs ← (c.handler.buildAttrs c.event.attrs).toOption
  (Wire.fillRecord .blank (c.event.record attrs)).toOption

/-- The call is made at a level, messages are nested in what it asks for no deeper than they are
read, and its payload is not longer than a limit. -/
def isReadable (limit : Int) (c : Call) : Bool :=
  c.event.level.level?.isSome &&
    c.message?.all (Wire.Member.depthBelow ·.attrs ≤ Wire.maxDepth) &&
    c.payload?.all (·.length ≤ limit)

theorem payload?_eq (c : Call) : c.payload? = c.message?.map (·.toBytes) := by
  unfold payload? message?
  cases c.handler.buildAttrs c.event.attrs with
  | error e => rfl
  | ok attrs =>
    unfold Record.encode
    dsimp only [Except.toOption, Option.bind_eq_bind, Option.bind_some]
    cases Wire.fillRecord .blank (c.event.record attrs) <;> rfl

theorem exists_message (hp : c.payload? = some payload) :
    ∃ m, c.message? = some m ∧ m.toBytes = payload := by
  rw [payload?_eq] at hp
  exact Option.map_eq_some_iff.mp hp

theorem exists_level (h : c.event.level.level?.isSome) : ∃ l, c.event.level = .level l := by
  cases hl : c.event.level with
  | level l => exact ⟨l, rfl⟩
  | number n => rw [hl] at h; cases h

/-- The payload of a call at a level is refused exactly if messages are nested in it deeper than
they are read. -/
theorem decode_of_message {l : Level} (hl : c.event.level = .level l) (hm : c.message? = some m)
    (hlen : m.toBytes.length < 0x10000000000000000) :
    (Wire.Member.depthBelow m.attrs ≤ Wire.maxDepth → ∃ r, Record.decode m.toBytes = .ok r) ∧
      (Wire.maxDepth < Wire.Member.depthBelow m.attrs →
        Record.decode m.toBytes = .error .malformed) := by
  obtain ⟨attrs, -, hfill⟩ := Option.bind_eq_some_iff.mp hm
  have hrecord : (c.event.record attrs).level = .level l := hl
  exact Record.decode_of_depth hrecord (eq_ok_of_toOption hfill) hlen

theorem isReadable_iff_of_message {l : Level} (hl : c.event.level = .level l)
    (hm : c.message? = some m) :
    c.isReadable limit = true ↔
      Wire.Member.depthBelow m.attrs ≤ Wire.maxDepth ∧ m.toBytes.length ≤ limit := by
  unfold isReadable
  rw [hl, payload?_eq, hm]
  simp [LevelMark.level?]

/-- **The payload of a call that keeps to the limits is decoded.** -/
theorem isOk_decode_of_isReadable (h : c.isReadable limit = true)
    (hp : c.payload? = some payload) (hlen : payload.length < 0x10000000000000000) :
    payload.length ≤ limit ∧ (Record.decode payload).isOk := by
  obtain ⟨hlevel, -⟩ := Bool.and_eq_true_iff.mp (Bool.and_eq_true_iff.mp h).1
  obtain ⟨l, hl⟩ := exists_level hlevel
  obtain ⟨m, hm, rfl⟩ := exists_message hp
  obtain ⟨hdepth, hsize⟩ := (isReadable_iff_of_message hl hm).mp h
  obtain ⟨r, hr⟩ := (decode_of_message hl hm hlen).1 hdepth
  rw [hr]
  exact ⟨hsize, rfl⟩

/-- **The payload of a call that does not keep to the limits is too long, or it is refused.** -/
theorem tooLong_or_refused (hl : c.event.level.level?.isSome) (h : ¬c.isReadable limit = true)
    (hp : c.payload? = some payload) (hlen : payload.length < 0x10000000000000000) :
    limit < payload.length ∨
      payload.length ≤ limit ∧ Record.decode payload = .error .malformed := by
  obtain ⟨l, hl⟩ := exists_level hl
  obtain ⟨m, hm, rfl⟩ := exists_message hp
  rw [isReadable_iff_of_message hl hm, Decidable.not_and_iff_not_or_not] at h
  by_cases hsize : (m.toBytes.length : Int) ≤ limit
  · have hdeep : Wire.maxDepth < Wire.Member.depthBelow m.attrs :=
      Nat.lt_of_not_le (h.resolve_right fun hn => hn hsize)
    exact Or.inr ⟨hsize, (decode_of_message hl hm hlen).2 hdeep⟩
  · exact Or.inl (Int.lt_of_not_ge hsize)

end Call

namespace Session

variable {limit : Int} {reads : List Bytes} {s : Session} {front back : List Call} {c : Call}
  {payload : Bytes}

/-! ### How far a reader comes -/

/-- Behind the records of calls that keep to the limits a reader gets what is in the frames of the
other calls. -/
theorem Sound.recordsRead_append (hs : s.Sound)
    (hreads : received reads = s.output.written.flatten) (hcalls : s.successes = front ++ back)
    (hfront : ∀ c ∈ front, c.isReadable limit) :
    ∃ records, front.map Call.readBack? = records.map some ∧ recordsRead limit reads =
      (records ++ (contents limit (back.flatMap (·.outcome.frames)).flatten).1,
        (contents limit (back.flatMap (·.outcome.frames)).flatten).2) := by
  have hmem : ∀ c ∈ front, c ∈ s.successes := fun c hc => hcalls ▸ List.mem_append_left _ hc
  have hpayload : ∀ c ∈ front, ∀ p, c.payload? = some p →
      p.length ≤ limit ∧ (Record.decode p).isOk := by
    intro c hc p hp
    obtain ⟨payload, hp', hn, -⟩ := hs.payload_of_success (hmem c hc)
    rw [hp] at hp'
    cases hp'
    exact Call.isOk_decode_of_isReadable (hfront c hc) hp (by omega)
  obtain ⟨payloads, records, hbytes, hrecords, hframes⟩ := exists_payloads front
    (fun c hc => hs.payload_of_success (hmem c hc)) hpayload
  have he := ending_readPieces_keeper limit reads
  rw [hreads, hs.written, ← flatMap_frames_successes, hcalls, List.flatMap_append,
    List.flatten_append, hbytes, contents_frames_append _ _ hframes] at he
  exact ⟨records, hrecords, Prod.ext (congrArg (fun e => e.1.1) he) (congrArg (fun e => e.2) he)⟩

/-- A reader gets no further than a call at whose frame it stops. -/
theorem Sound.recordsRead_of_stop (hs : s.Sound)
    (hreads : received reads = s.output.written.flatten)
    (hcalls : s.successes = front ++ c :: back) (hfront : ∀ c ∈ front, c.isReadable limit)
    (hp : c.payload? = some payload) {failure : ReadFailure Empty}
    (hstop : payload.length < 0x100000000 → ∀ rest,
      contents limit (lengthBytes payload.length ++ payload ++ rest) = ([], some failure)) :
    (recordsRead limit reads).1.map some = front.map Call.readBack? ∧
      (recordsRead limit reads).2 = some failure := by
  have hmem : c ∈ s.successes := hcalls ▸ List.mem_append_right _ List.mem_cons_self
  obtain ⟨payload', hp', hn, hframe⟩ := hs.payload_of_success hmem
  rw [hp] at hp'
  cases hp'
  obtain ⟨records, hrecords, hread⟩ := hs.recordsRead_append hreads hcalls hfront
  rw [List.flatMap_cons, hframe, List.singleton_append, List.flatten_cons, hstop hn,
    List.append_nil] at hread
  rw [hread]
  exact ⟨hrecords.symm, rfl⟩

/-- A reader gets no further than a call whose payload is longer than its limit. -/
theorem Sound.recordsRead_of_tooLong (hs : s.Sound)
    (hreads : received reads = s.output.written.flatten)
    (hcalls : s.successes = front ++ c :: back) (hfront : ∀ c ∈ front, c.isReadable limit)
    (hp : c.payload? = some payload) (hl : limit < payload.length) :
    (recordsRead limit reads).1.map some = front.map Call.readBack? ∧
      (recordsRead limit reads).2 = some (.frame (.tooLarge payload.length limit)) :=
  hs.recordsRead_of_stop hreads hcalls hfront hp fun hn => contents_frame_tooLarge hn hl

/-- A reader gets no further than a call whose payload is refused. -/
theorem Sound.recordsRead_of_refused (hs : s.Sound)
    (hreads : received reads = s.output.written.flatten)
    (hcalls : s.successes = front ++ c :: back) (hfront : ∀ c ∈ front, c.isReadable limit)
    (hp : c.payload? = some payload) (hl : payload.length ≤ limit) {e : DecodeError}
    (he : Record.decode payload = .error e) :
    (recordsRead limit reads).1.map some = front.map Call.readBack? ∧
      (recordsRead limit reads).2 = some (.payload e) :=
  hs.recordsRead_of_stop hreads hcalls hfront hp fun hn => contents_frame_refused hn hl he

/-- Behind the records of the calls up to the first one that does not keep to the limits, a reader
gets what is in the frames of the others. -/
theorem Sound.recordsRead_takeWhile (limit : Int) (hs : s.Sound)
    (hreads : received reads = s.output.written.flatten) :
    ∃ records, (s.successes.takeWhile (·.isReadable limit)).map Call.readBack? =
        records.map some ∧
      recordsRead limit reads =
        (records ++ (contents limit ((s.successes.dropWhile (·.isReadable limit)).flatMap
            (·.outcome.frames)).flatten).1,
          (contents limit ((s.successes.dropWhile (·.isReadable limit)).flatMap
            (·.outcome.frames)).flatten).2) :=
  hs.recordsRead_append hreads List.takeWhile_append_dropWhile.symm
    fun _ hc => List.mem_takeWhile_imp hc

/-- **No weaker limits will do.** Where all calls are made at levels, a reader gets the records of
the calls up to the first one that does not keep to the limits, and it comes to the end of the
stream only if there is none. -/
theorem Sound.recordsRead_of_levels (hs : s.Sound)
    (hreads : received reads = s.output.written.flatten)
    (hlevels : ∀ c ∈ s.successes, c.event.level.level?.isSome) :
    (recordsRead limit reads).1.map some =
        (s.successes.takeWhile (·.isReadable limit)).map Call.readBack? ∧
      ((recordsRead limit reads).2 = none ↔ ∀ c ∈ s.successes, c.isReadable limit = true) := by
  cases hrest : s.successes.dropWhile (·.isReadable limit) with
  | nil =>
    obtain ⟨records, hrecords, hread⟩ := hs.recordsRead_takeWhile limit hreads
    rw [hrest, List.flatMap_nil, List.flatten_nil, contents, List.append_nil] at hread
    rw [hread]
    exact ⟨hrecords.symm, iff_of_true rfl (List.dropWhile_eq_nil_iff.mp hrest)⟩
  | cons c back =>
    have hcalls := List.takeWhile_append_dropWhile (p := (·.isReadable limit)) (l := s.successes)
    rw [hrest] at hcalls
    have hmem : c ∈ s.successes := hcalls ▸ List.mem_append_right _ List.mem_cons_self
    have hc : ¬c.isReadable limit = true := by
      have hhead := List.head?_dropWhile_not (Call.isReadable limit) s.successes
      rw [hrest] at hhead
      exact Bool.eq_false_iff.mp hhead
    obtain ⟨payload, hp, hn, -⟩ := hs.payload_of_success hmem
    have hfront : ∀ d ∈ s.successes.takeWhile (·.isReadable limit), d.isReadable limit = true :=
      fun _ hd => List.mem_takeWhile_imp hd
    obtain ⟨failure, hrecords, hfailure⟩ : ∃ failure,
        (recordsRead limit reads).1.map some =
            (s.successes.takeWhile (·.isReadable limit)).map Call.readBack? ∧
          (recordsRead limit reads).2 = some failure := by
      rcases Call.tooLong_or_refused (hlevels c hmem) hc hp (by omega) with hlong | ⟨hl, he⟩
      · exact ⟨_, hs.recordsRead_of_tooLong hreads hcalls.symm hfront hp hlong⟩
      · exact ⟨_, hs.recordsRead_of_refused hreads hcalls.symm hfront hp hl he⟩
    refine ⟨hrecords, iff_of_false ?_ fun h => hc (h c hmem)⟩
    rw [hfailure]
    exact Option.some_ne_none failure

end Session

end LogStream
