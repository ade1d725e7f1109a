import LogStream.Proofs.Reader.Moments

/-! # Cancellation takes precedence

A reader that is told to give up does nothing more: it does not read, decode or hand over anything, and ends
as a cancelled one. What it hands over it was allowed to look for, and allowed again to decode, since it
handed over the record before; and a payload is refused only if decoding it was allowed last
(`heedsPolls_readers`). What was done right before a moment is known from the moment (`Moment.Recent`), and
each step keeps this (`Moment.Recent.step`), whatever the client answers and in whatever manner payloads are
looked for. -/

namespace LogStream

variable {α σ ε : Type} {c : Client σ ε} {w : Manner α σ}

/-- What is done right before the outcome of a decoding is known: the client was asked before the payload was
looked for, and again before it was decoded. -/
def ReadEvent.approach (reads : List Nat) (payload : Bytes) : List ReadEvent :=
  [.polled false, .searched reads (some payload), .polled false, .decoded payload]

theorem Client.poll_cases (c : Client σ ε) (p : Progress σ) :
    ((c.cancelled p.client).1 = true ∧ ∃ q, c.poll p = .done ⟨q, some .cancelled⟩) ∨
      ((c.cancelled p.client).1 = false ∧ ∃ q, c.poll p = .go q) := by
  unfold poll
  rcases c.cancelled p.client with ⟨_ | _, client⟩
  · exact Or.inr ⟨rfl, _, rfl⟩
  · exact Or.inl ⟨rfl, _, rfl⟩

namespace Moment

/-- What was done right before a moment. -/
def Recent (es : List ReadEvent) : Moment α σ ε → Prop
  | turn _ _ => True
  | looking _ _ => [.polled false] <:+ es
  | holding _ _ payload => ∃ reads, [.polled false, .searched reads (some payload)] <:+ es
  | decoding _ _ payload =>
    ∃ reads, [.polled false, .searched reads (some payload), .polled false] <:+ es
  | handing _ _ record =>
    ∃ reads payload, Record.decode payload = .ok record ∧ ReadEvent.approach reads payload <:+ es
  | closed r =>
    (r.failure = some .cancelled → [.polled true] <:+ es) ∧
      ∀ e, r.failure = some (.payload e) →
        ∃ reads payload, Record.decode payload = .error e ∧ ReadEvent.approach reads payload <:+ es

/-- **Each step keeps what is known of what was done before.** -/
theorem Recent.step {es : List ReadEvent} {m m' : Moment α σ ε} {e : ReadEvent} (h : m.Recent es)
    (hn : m.next c w = some (e, m')) : m'.Recent (es ++ [e]) := by
  cases m with
  | turn a p =>
    cases hn
    rcases c.poll_cases p with ⟨hs, q, hq⟩ | ⟨hs, q, hq⟩ <;> rw [hs, hq]
    · exact ⟨fun _ => List.suffix_append .., nofun⟩
    · exact List.suffix_append ..
  | looking a p =>
    cases hn
    cases (w.search a p).found with
    | payload bs rest => exact ⟨_, List.suffix_append_self_iff.mpr h⟩
    | more rest q => trivial
    | ended q result => cases result <;> exact ⟨nofun, nofun⟩
  | holding a p payload =>
    cases hn
    obtain ⟨reads, h⟩ := h
    rcases c.poll_cases p with ⟨hs, q, hq⟩ | ⟨hs, q, hq⟩ <;> rw [hs, hq]
    · exact ⟨fun _ => List.suffix_append .., nofun⟩
    · exact ⟨reads, List.suffix_append_self_iff.mpr h⟩
  | decoding a p payload =>
    cases hn
    obtain ⟨reads, h⟩ := h
    cases hd : Record.decode payload with
    | error e =>
      refine ⟨nofun, fun e' he => ?_⟩
      cases he
      exact ⟨reads, payload, hd, List.suffix_append_self_iff.mpr h⟩
    | ok record => exact ⟨reads, payload, hd, List.suffix_append_self_iff.mpr h⟩
  | handing a p record =>
    cases hn
    cases (c.take p.client record).1 with
    | next => trivial
    | stop => exact ⟨nofun, nofun⟩
    | fail e => exact ⟨nofun, nofun⟩
  | closed r => cases hn

theorem recent_after (a : α) (p : Progress σ) (n : Nat) :
    ((turn a p : Moment α σ ε).after c w n).2.Recent ((turn a p).after c w n).1 :=
  after_induction (P := Recent) (m := turn a p) trivial Recent.step n

theorem after_closed (r : Reading σ ε) (n : Nat) :
    (closed r : Moment α σ ε).after c w n = ([], closed r) := by
  induction n with
  | zero => rfl
  | succ n ih => exact after_succ_of_closed ih rfl

/-- A reader that has come to a moment has heeded what the client said. -/
structure HeedsPolls (es : List ReadEvent) (m : Moment α σ ε) : Prop where
  /-- The first time that the client says so the reader gives up. -/
  stops : ∀ front behind, es = front ++ .polled true :: behind →
    behind = [] ∧ ∃ p, m = closed ⟨p, some .cancelled⟩
  /-- It does not give up otherwise. -/
  cancelled : ∀ p, m = closed ⟨p, some .cancelled⟩ → [.polled true] <:+ es
  hands : ∀ front record behind, es = front ++ .handed record :: behind →
    ∃ reads payload, Record.decode payload = .ok record ∧ ReadEvent.approach reads payload <:+ front
  refuses : ∀ p e, m = closed ⟨p, some (.payload e)⟩ →
    ∃ reads payload, Record.decode payload = .error e ∧ ReadEvent.approach reads payload <:+ es

/-- To be told to give up is the last thing that happens. -/
theorem closed_of_polled {m m' : Moment α σ ε} (h : m.next c w = some (.polled true, m')) :
    ∃ p, m' = closed ⟨p, some .cancelled⟩ := by
  cases m with
  | turn a p | holding a p payload =>
    injection h with h
    injection h with hs hm
    rcases c.poll_cases p with ⟨-, q, hq⟩ | ⟨hs', -⟩
    · exact ⟨q, by rw [← hm, hq]; rfl⟩
    · rw [hs'] at hs
      cases hs
  | looking _ _ | decoding _ _ _ | handing _ _ _ | closed _ => cases h

/-- Whatever the client answers, and in whatever manner payloads are looked for. -/
theorem heedsPolls_after (a : α) (p : Progress σ) (n : Nat) :
    HeedsPolls ((turn a p : Moment α σ ε).after c w n).1 ((turn a p).after c w n).2 := by
  have hrecent := recent_after (c := c) (w := w) a p n
  refine ⟨fun front behind h => ?_, fun q hq => ?_, fun front record behind h => ?_, fun q e hq => ?_⟩
  · obtain ⟨i, j, m₁, m₂, -, hn, hj⟩ := exists_of_events h
    obtain ⟨q, rfl⟩ := closed_of_polled hn
    rw [after_closed] at hj
    injection hj with hbehind hm
    exact ⟨hbehind.symm, q, hm.symm⟩
  · rw [hq] at hrecent
    exact hrecent.1 rfl
  · obtain ⟨i, j, m₁, m₂, hi, hn, -⟩ := exists_of_events h
    have hfront := recent_after (c := c) (w := w) a p i
    rw [hi] at hfront
    cases m₁ with
    | handing b q record' => cases hn; exact hfront
    | turn _ _ | looking _ _ | holding _ _ _ | decoding _ _ _ | closed _ => cases hn
  · rw [hq] at hrecent
    exact hrecent.2 e rfl

end Moment

/-- **Cancellation is prompt and takes precedence**, whether a stream is read in pieces or all bytes are
there: at every moment on the way to the end the reader has heeded what the client said. -/
theorem heedsPolls_readers (c : Client σ ε) (limit : Int) (p : Progress σ) :
    (∀ reads,
      (∀ n, Moment.HeedsPolls ((Moment.turn ⟨{ limit }, reads⟩ p).after c .pieces n).1
        ((Moment.turn ⟨{ limit }, reads⟩ p).after c .pieces n).2) ∧
      (Moment.turn ⟨{ limit }, reads⟩ p).Leads c .pieces (.closed (readPieces c { limit } p reads))) ∧
    ∀ bs,
      (∀ n, Moment.HeedsPolls ((Moment.turn bs p).after c (.bytes limit) n).1
        ((Moment.turn bs p).after c (.bytes limit) n).2) ∧
      (Moment.turn bs p).Leads c (.bytes limit) (.closed (readWhole c limit p bs)) :=
  ⟨fun reads => ⟨Moment.heedsPolls_after _ p, leads_readPieces c _ p reads⟩,
    fun bs => ⟨Moment.heedsPolls_after bs p, leads_readWhole c limit p bs⟩⟩

end LogStream
