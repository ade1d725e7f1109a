import Mathlib
import LogStream.Proofs.Handler.Writing
import LogStream.Proofs.Reader.Contents

/-! # Sessions

A session is what a program does that logs: it starts with one root handler and nothing written, and
each action derives a handler from one that is there, or makes a call on one. Through all actions
the pool stays blank, each call comes to what its handler and its event say, and what was written
are the frames of the calls in their order (`sound_run`). So a reader of the bytes gets the records
of the calls that were neither dropped nor failed, in their order, and a clean end
(`recordsRead_run`). -/

namespace LogStream

/-- What a program does that logs. Handlers are counted in the order in which they came about. -/
inductive Action
  | derive (on : Nat) (step : Derivation)
  | handle (on : Nat) (e : Event)

/-- A call that was made, and what became of it. -/
structure Call where
  handler : Handler
  event : Event
  outcome : Outcome

namespace Call

/-- The payload of the record that the call asks for. -/
def payload? (c : Call) : Option Bytes := do
  let attrs ← (c.handler.buildAttrs c.event.attrs).toOption
  (c.event.record attrs).encode.toOption

/-- The record that the call asks for, written and read back. -/
def readBack? (c : Call) : Option Record := do
  let payload ← c.payload?
  (Record.decode payload).toOption

end Call

/-- The handlers of a program, what they wrote, and the calls that were made. -/
structure Session where
  handlers : List Handler
  output : Output := {}
  calls : List Call := []

namespace Session

/-- One action; nothing happens on a handler that is not there. -/
def act (s : Session) : Action → Session
  | .derive on step =>
    match s.handlers[on]? with
    | none => s
    | some h => { s with handlers := s.handlers ++ [h.derive step] }
  | .handle on e =>
    match s.handlers[on]? with
    | none => s
    | some h =>
      let (outcome, output) := h.handle e s.output
      { s with output, calls := s.calls ++ [⟨h, e, outcome⟩] }

/-- A session from a root handler on. -/
def run (level : LevelMark) (actions : List Action) : Session :=
  actions.foldl act { handlers := [{ level }] }

/-- The calls that were neither dropped nor failed. -/
def successes (s : Session) : List Call := s.calls.filter (·.outcome.isSuccess)

/-! ### What all actions keep -/

/-- The pool is blank, each call came to what its handler and its event say, and the frames of the
calls were written. -/
structure Sound (s : Session) : Prop where
  pool : s.output.pool.IsBlank
  outcome : ∀ c ∈ s.calls, c.outcome = c.handler.outcome c.event
  written : s.output.written = s.calls.flatMap (·.outcome.frames)

theorem sound_start (level : LevelMark) : Sound { handlers := [{ level }] } where
  pool := Wire.Pool.isBlank_empty
  outcome _ hc := absurd hc List.not_mem_nil
  written := rfl

theorem sound_act {s : Session} (hs : s.Sound) (a : Action) : (s.act a).Sound := by
  cases a with
  | derive on step =>
    rw [act]
    cases s.handlers[on]? with
    | none => exact hs
    | some h => exact ⟨hs.pool, hs.outcome, hs.written⟩
  | handle on e =>
    rw [act]
    cases s.handlers[on]? with
    | none => exact hs
    | some h =>
      obtain ⟨pool, hp, he⟩ := h.handle_eq e hs.pool
      simp only [he]
      refine ⟨hp, fun c hc => ?_, ?_⟩
      · rcases List.mem_append.mp hc with hc | hc
        · exact hs.outcome c hc
        · obtain rfl := List.mem_singleton.mp hc
          rfl
      · rw [hs.written, List.flatMap_append, List.flatMap_singleton]

/-- **What one action keeps, a session keeps.** -/
theorem sound_run (level : LevelMark) (actions : List Action) : (run level actions).Sound := by
  suffices ∀ s : Session, s.Sound → (actions.foldl act s).Sound from this _ (sound_start level)
  induction actions with
  | nil => exact fun _ hs => hs
  | cons a actions ih => exact fun s hs => ih (s.act a) (sound_act hs a)

/-! ### What was written -/

theorem Sound.payload_of_success {s : Session} (hs : s.Sound) {c : Call} (hc : c ∈ s.successes) :
    ∃ payload, c.payload? = some payload ∧ payload.length < 0x100000000 ∧
      c.outcome.frames = [lengthBytes payload.length ++ payload] := by
  obtain ⟨hmem, hsucc⟩ := List.mem_filter.mp hc
  have ho := hs.outcome c hmem
  rw [ho] at hsucc
  obtain ⟨attrs, payload, ha, hr, hn, hw⟩ := Handler.outcome_of_isSuccess hsucc
  refine ⟨payload, ?_, hn, ?_⟩
  · unfold Call.payload?
    rw [ha]
    exact congrArg Except.toOption hr
  · rw [ho, hw]
    rfl

/-- A call that is no success writes nothing. -/
theorem frames_of_not_isSuccess {o : Outcome} (h : o.isSuccess = false) : o.frames = [] := by
  cases o with
  | written f => cases h
  | dropped n => rfl
  | disabled => rfl
  | failed e => rfl

theorem flatMap_frames_successes (s : Session) :
    s.successes.flatMap (·.outcome.frames) = s.calls.flatMap (·.outcome.frames) := by
  unfold successes
  induction s.calls with
  | nil => rfl
  | cons c calls ih =>
    rw [List.filter_cons]
    by_cases h : c.outcome.isSuccess
    · rw [if_pos h, List.flatMap_cons, List.flatMap_cons, ih]
    · rw [if_neg h, List.flatMap_cons, ih, frames_of_not_isSuccess (Bool.eq_false_iff.mpr h),
        List.nil_append]

/-- Calls of which each wrote the frame of its payload wrote these frames one after the other. -/
theorem exists_payloads {limit : Int} : ∀ calls : List Call,
    (∀ c ∈ calls, ∃ payload, c.payload? = some payload ∧ payload.length < 0x100000000 ∧
      c.outcome.frames = [lengthBytes payload.length ++ payload]) →
    (∀ c ∈ calls, ∀ p, c.payload? = some p → p.length ≤ limit ∧ (Record.decode p).isOk) →
      ∃ payloads records, (calls.flatMap (·.outcome.frames)).flatten =
          (payloads.flatMap fun p => lengthBytes p.length ++ p) ∧
        calls.map Call.readBack? = records.map some ∧
        List.Forall₂ (fun p r => p.length < 0x100000000 ∧ (p.length : Int) ≤ limit ∧
          Record.decode p = .ok r) payloads records
  | [], _, _ => ⟨[], [], rfl, rfl, .nil⟩
  | c :: calls, hw, hd => by
    obtain ⟨payload, hp, hn, hf⟩ := hw c List.mem_cons_self
    obtain ⟨hl, hok⟩ := hd c List.mem_cons_self payload hp
    obtain ⟨payloads, records, h1, h2, h3⟩ := exists_payloads calls
      (fun c hc => hw c (List.mem_cons_of_mem _ hc)) fun c hc => hd c (List.mem_cons_of_mem _ hc)
    cases hr : Record.decode payload with
    | error e => rw [hr] at hok; cases hok
    | ok record =>
      refine ⟨payload :: payloads, record :: records, ?_, ?_, .cons ⟨hn, hl, hr⟩ h3⟩
      · rw [List.flatMap_cons, hf, List.flatMap_cons, ← h1, List.singleton_append,
          List.flatten_cons]
      · have hb : c.readBack? = some record := by
          unfold Call.readBack?
          rw [hp]
          exact congrArg Except.toOption hr
        rw [List.map_cons, List.map_cons, hb, h2]

/-- **A stream holds the calls of its session.** However the bytes are cut on their way, a reader
gets one record for each call that was neither dropped nor failed, in the order of the calls, and
that is the record of the call written and read back; then the stream ends. -/
theorem recordsRead_run (level : LevelMark) (actions : List Action) (limit : Int)
    (reads : List Bytes)
    (hreads : received reads = (run level actions).output.written.flatten)
    (hpayloads : ∀ c ∈ (run level actions).successes, ∀ p, c.payload? = some p →
      p.length ≤ limit ∧ (Record.decode p).isOk) :
    (recordsRead limit reads).1.map some = (run level actions).successes.map Call.readBack? ∧
      (recordsRead limit reads).2 = none := by
  have hs := sound_run level actions
  obtain ⟨payloads, records, h1, h2, h3⟩ :=
    exists_payloads _ (fun c hc => hs.payload_of_success hc) hpayloads
  rw [flatMap_frames_successes, ← hs.written, ← hreads] at h1
  have he := ending_readPieces_keeper limit reads
  rw [h1, contents_frames limit h3] at he
  have hrecords : (recordsRead limit reads).1 = records := congrArg (fun e => e.1.1) he
  have hfailure : (recordsRead limit reads).2 = none := congrArg (fun e => e.2) he
  exact ⟨by rw [hrecords, h2], hfailure⟩

/-- A call inside of a group, one that is dropped, one that fails and one on the root. -/
def fiveActions : List Action :=
  [.derive 0 (.group (Text.lit "r")),
    .handle 1
      { message := Text.lit "a", attrs := [(Text.lit "k", .held .int (.int 5))],
        origin := some (Text.lit "o") },
    .handle 0 { message := Text.lit "b" },
    .handle 0
      { message := Text.lit "c", attrs := [(Text.lit "x", .held .lazy .loop)],
        origin := some (Text.lit "o") },
    .handle 0 { message := Text.lit "d", time := some Time.epoch }]

/-- Their frames, cut inside of the first length and inside of the second payload. -/
def fiveActionsCut : List Bytes :=
  [[23, 0], [0, 0, 18, 1, 97, 24, 1, 34, 16, 10, 1, 114, 18, 11, 66, 9, 10, 7, 10, 1, 107, 18, 2,
    24, 5, 7, 0, 0, 0, 10], [0, 18, 1, 100, 24, 1]]

theorem recordsRead_run_fiveActions :
    (run (.level .debug) fiveActions).successes.length = 2 ∧
      (recordsRead 23 fiveActionsCut).1.map some =
        (run (.level .debug) fiveActions).successes.map Call.readBack? ∧
      (recordsRead 23 fiveActionsCut).2 = none := by
  have hreads : received fiveActionsCut =
      (run (.level .debug) fiveActions).output.written.flatten := by cbv
  have hlength : (run (.level .debug) fiveActions).successes.length = 2 := by cbv
  have hpayloads : (run (.level .debug) fiveActions).successes.map Call.payload? =
      [some [18, 1, 97, 24, 1, 34, 16, 10, 1, 114, 18, 11, 66, 9, 10, 7, 10, 1, 107, 18, 2, 24, 5],
        some [10, 0, 18, 1, 100, 24, 1]] := by cbv
  refine ⟨hlength, recordsRead_run (.level .debug) fiveActions 23 fiveActionsCut hreads ?_⟩
  intro c hc p hp
  have hm : some p ∈ (run (.level .debug) fiveActions).successes.map Call.payload? :=
    hp ▸ List.mem_map_of_mem hc
  rw [hpayloads, List.mem_cons, List.mem_singleton] at hm
  rcases hm with hm | hm
  · cases hm
    exact ⟨by decide, by decide +kernel⟩
  · cases hm
    exact ⟨by decide, by decide +kernel⟩

end Session

end LogStream
