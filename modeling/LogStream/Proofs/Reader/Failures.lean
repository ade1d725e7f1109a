import LogStream.Proofs.Reader.Chunks

/-! # Failures of the client

A reader fails with an error of its client only if the client answered with this error to a record
that was decoded (`fails_of_readPieces`, `fails_of_readWhole`). So what a client never
answers does not end a reading. -/

namespace LogStream

variable {σ ε : Type}

/-- The client answers with the error to a record of some payload. -/
def Client.Fails (c : Client σ ε) (e : ε) : Prop :=
  ∃ payload record st, Record.decode payload = .ok record ∧ (c.take st record).1 = .fail e

namespace Client

variable {c : Client σ ε} {e : ε}

theorem failure_of_poll {p : Progress σ} {r : Reading σ ε} (h : c.poll p = .done r) :
    r.failure = some .cancelled := by
  unfold poll at h
  split at h
  · cases h; rfl
  · cases h

theorem fails_of_poll {p : Progress σ} {r : Reading σ ε} (h : c.poll p = .done r)
    (he : r.failure = some (.client e)) : c.Fails e := by
  rw [failure_of_poll h] at he
  cases he

theorem fails_of_deliver {p : Progress σ} {notesStop : Bool} {payload : Bytes} {r : Reading σ ε}
    (h : c.deliver p notesStop payload = .done r) (he : r.failure = some (.client e)) :
    c.Fails e := by
  unfold deliver at h
  split at h
  · next r' hr =>
    cases h
    exact fails_of_poll hr he
  · next q hq =>
    split at h
    · cases h; cases he
    · next record hd =>
      rcases ht : c.take q.client record with ⟨reply, notices, client⟩
      simp only [ht] at h
      cases reply with
      | next => cases h
      | stop => cases h; cases he
      | fail e' =>
        cases h
        cases he
        exact ⟨payload, record, q.client, hd, by rw [ht]⟩

end Client

theorem Splitter.fails_of_drain {c : Client σ ε} {e : ε} (s : Splitter) (p : Progress σ)
    {r : Reading σ ε} (h : s.drain c p = .inl r) (he : r.failure = some (.client e)) :
    c.Fails e := by
  induction hn : s.buffer.length using Nat.strongRecOn generalizing s p with
  | ind n ih =>
    rw [drain_eq] at h
    split at h
    · next r' hp =>
      cases h
      exact Client.fails_of_poll hp he
    · split at h
      · cases h; cases he
      · cases h
      · next payload t hs =>
        split at h
        · next r' hd =>
          cases h
          exact Client.fails_of_deliver hd he
        · exact ih _ (hn ▸ buffer_lt_of_next hs) t _ h rfl

theorem failure_endRead_ne (s : Splitter) (p : Progress σ) (e : ε) :
    (endRead s p : Reading σ ε).failure ≠ some (.client e) := by
  unfold endRead
  split <;> nofun

/-- **A reader of pieces fails with an error of its client only if the client answered with it.** -/
theorem fails_of_readPieces {c : Client σ ε} {e : ε} : ∀ (reads : List Bytes) (s : Splitter)
    (p : Progress σ), (readPieces c s p reads).failure = some (.client e) → c.Fails e
  | [], s, p, h => by
    unfold readPieces at h
    split at h
    · next r hr => exact s.fails_of_drain p hr h
    · exact absurd h (failure_endRead_ne _ _ e)
  | piece :: reads, s, p, h => by
    unfold readPieces at h
    split at h
    · next r hr => exact s.fails_of_drain p hr h
    · split at h
      · exact absurd h (failure_endRead_ne _ _ e)
      · exact fails_of_readPieces reads _ _ h

/-- **A reader of all bytes fails with an error of its client only if the client answered with
it.** -/
theorem fails_of_readWhole {c : Client σ ε} {e : ε} (s : Splitter) (p : Progress σ)
    (h : (readWhole c s.limit p s.buffer).failure = some (.client e)) : c.Fails e := by
  induction hn : s.buffer.length using Nat.strongRecOn generalizing s p with
  | ind n ih =>
    rw [readWhole_eq] at h
    split at h
    · next r hp => exact Client.fails_of_poll hp h
    · split at h
      · cases h
      · unfold Splitter.rest at h
        dsimp only at h
        split at h <;> cases h
      · next payload t hs =>
        split at h
        · next r hd => exact Client.fails_of_deliver hd h
        · exact ih _ (hn ▸ Splitter.buffer_lt_of_next hs) t _ h rfl

/-- A client that fails on the first record of a stream ends the reading. -/
theorem failure_readPieces_of_first {c : Client σ ε} (hc : c.IsSteady) {s t : Splitter}
    {p : Progress σ} {reads : List Bytes} {payload : Bytes} {record : Record} {e : ε}
    (hp : c.poll p = .go p) (hs : (s.feed (received reads)).next = .ok (some (payload, t)))
    (hd : Record.decode payload = .ok record) (ht : (c.take p.client record).1 = .fail e) :
    (readPieces c s p reads).failure = some (.client e) := by
  rcases hk : c.take p.client record with ⟨reply, notices, client⟩
  obtain rfl : reply = .fail e := by rw [hk] at ht; exact ht
  have hdeliver := c.deliver_record hp hd hk false
  have hend := congrArg Prod.snd (ending_readPieces hc reads s p)
  have hwhole := readWhole_eq c p (s.feed (received reads))
  simp only [hp, hs] at hwhole
  cases hr : c.deliver p false payload with
  | go q => rw [hr] at hdeliver; cases hdeliver
  | done r =>
    rw [hr] at hdeliver hwhole
    exact hend.trans
      ((congrArg Reading.failure hwhole).trans (congrArg Prod.snd (Sum.inl.inj hdeliver)))

end LogStream
