import LogStream.Handler.Basic

/-! # What a call writes

A message comes out of a pool blank as long as the pool holds blank messages only, and it goes back
blank. So what becomes of an event depends on the event and on the handler alone (`outcome`), not on
what was written before (`handle_eq`), and the pool stays as it was in this respect. -/

namespace LogStream

namespace Wire.Pool

/-- All messages that are free are blank. -/
def IsBlank (p : Pool) : Prop := ∀ m ∈ p.free, m.content = .blank

theorem isBlank_empty : ({} : Pool).IsBlank := fun _ hm => absurd hm List.not_mem_nil

theorem content_borrow {p : Pool} (h : p.IsBlank) : p.borrow.1.content = .blank := by
  obtain ⟨limit, free, made⟩ := p
  cases free with
  | nil => rfl
  | cons m free => exact h m List.mem_cons_self

theorem isBlank_borrow {p : Pool} (h : p.IsBlank) : p.borrow.2.IsBlank := by
  obtain ⟨limit, free, made⟩ := p
  cases free with
  | nil => exact h
  | cons m free => exact fun n hn => h n (List.mem_cons_of_mem m hn)

theorem isBlank_giveBack {p : Pool} (h : p.IsBlank) (m : PooledMessage) :
    (p.giveBack m).IsBlank := by
  unfold giveBack
  by_cases hf : p.isFull
  · rw [if_pos hf]; exact h
  · rw [if_neg hf]
    intro n hn
    rcases List.mem_cons.mp hn with rfl | hn
    · rfl
    · exact h n hn

end Wire.Pool

/-- **A record is written as it would be into a new message.** -/
theorem Output.encode_eq {o : Output} (h : o.pool.IsBlank) (r : Record) :
    ∃ pool, pool.IsBlank ∧ o.encode r = (r.encode, { o with pool }) := by
  refine ⟨o.pool.borrow.2.giveBack o.pool.borrow.1, ?_, ?_⟩
  · exact Wire.Pool.isBlank_giveBack (Wire.Pool.isBlank_borrow h) _
  · unfold Output.encode Record.encode
    rw [← Wire.Pool.content_borrow h]

namespace Outcome

/-- The frames that were written. -/
def frames : Outcome → List Bytes
  | written f => [f]
  | _ => []

/-- The event was neither dropped nor did its writing fail. -/
def isSuccess : Outcome → Bool
  | dropped _ => false
  | failed _ => false
  | _ => true

end Outcome

/-- The record of an event with the attributes that were built for it. -/
def Event.record (e : Event) (attrs : List Attr) : Record :=
  { message := e.message, level := e.level, time := e.time, attrs }

namespace Handler

/-- What becomes of the record of an event. -/
def outcomeOf (r : Record) : Outcome :=
  match r.encode with
  | .error err => .failed err
  | .ok payload =>
    match frame payload with
    | .error err => .failed err
    | .ok f => .written f

/-- What becomes of an event, whatever was written before. -/
def outcome (h : Handler) (e : Event) : Outcome :=
  if e.origin.isNone && e.time.isNone then .dropped (dropNotice e.message)
  else
    match h.buildAttrs e.attrs with
    | .error err => .failed (.resolve err)
    | .ok attrs => outcomeOf (e.record attrs)

/-- **What becomes of an event does not depend on what was written before**, and a frame is written
exactly where the outcome says so. -/
theorem handle_eq (h : Handler) (e : Event) {o : Output} (hb : o.pool.IsBlank) :
    ∃ pool, pool.IsBlank ∧
      h.handle e o = (h.outcome e, ⟨o.written ++ (h.outcome e).frames, pool⟩) := by
  unfold handle outcome
  by_cases hd : (e.origin.isNone && e.time.isNone) = true
  · rw [if_pos hd, if_pos hd]
    exact ⟨o.pool, hb, by simp [Outcome.frames]⟩
  · rw [if_neg hd, if_neg hd]
    cases ha : h.buildAttrs e.attrs with
    | error err => exact ⟨o.pool, hb, by simp [Outcome.frames]⟩
    | ok attrs =>
      obtain ⟨pool, hp, he⟩ := Output.encode_eq hb (e.record attrs)
      refine ⟨pool, hp, ?_⟩
      dsimp only [Event.record] at he ⊢
      unfold outcomeOf
      rw [he]
      cases Record.encode { message := e.message, level := e.level, time := e.time, attrs } with
      | error err => simp [Outcome.frames]
      | ok payload =>
        cases hf : frame payload with
        | error err => simp [Outcome.frames, hf]
        | ok f => simp [Outcome.frames, Output.write, hf]

/-- An event that was neither dropped nor failed was written as one frame with the payload of its
record. -/
theorem outcome_of_isSuccess {h : Handler} {e : Event} (hs : (h.outcome e).isSuccess = true) :
    ∃ attrs payload, h.buildAttrs e.attrs = .ok attrs ∧ (e.record attrs).encode = .ok payload ∧
      payload.length < 0x100000000 ∧
        h.outcome e = .written (lengthBytes payload.length ++ payload) := by
  unfold outcome at hs ⊢
  by_cases hd : (e.origin.isNone && e.time.isNone) = true
  · rw [if_pos hd] at hs; cases hs
  · rw [if_neg hd] at hs ⊢
    cases ha : h.buildAttrs e.attrs with
    | error err => rw [ha] at hs; cases hs
    | ok attrs =>
      rw [ha] at hs
      dsimp only at hs ⊢
      unfold outcomeOf at hs ⊢
      cases hr : (e.record attrs).encode with
      | error err => rw [hr] at hs; cases hs
      | ok payload =>
        rw [hr] at hs
        dsimp only at hs ⊢
        cases hf : frame payload with
        | error err => rw [hf] at hs; cases hs
        | ok f =>
          obtain ⟨hn, rfl⟩ := frame_eq_ok_iff.mp hf
          exact ⟨attrs, payload, rfl, hr, hn, rfl⟩

/-- An event with an origin whose payload has a length of four bytes is written. -/
theorem outcome_eq_written {h : Handler} {e : Event} {attrs : List Attr} {payload : Bytes}
    (ho : e.origin.isSome) (ha : h.buildAttrs e.attrs = .ok attrs)
    (hp : (e.record attrs).encode = .ok payload) (hn : payload.length < 0x100000000) :
    h.outcome e = .written (lengthBytes payload.length ++ payload) := by
  have hdrop : (e.origin.isNone && e.time.isNone) = false := by
    rw [Option.isNone_eq_false_iff.mpr ho]
    rfl
  unfold outcome outcomeOf frame
  simp only [hdrop, Bool.false_eq_true, if_false, ha, hp, if_pos hn]

end Handler

end LogStream
