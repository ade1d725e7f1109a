import LogStream.Proofs.Reader.Agreement

/-! # The offer of a stream

A reader that nobody tells to give up offers the contents of its stream to the client, one record after
the other, until the client stops or fails (`Client.offer`). This is proved of the frames that a splitter
takes (`contents_eq`): what is left to offer does not change while it takes them
(`offer_contents_of_drain`). So a reader comes to the end of the offer, or to the end of the contents
(`ending_readPieces_of_offer`), and it asks for no piece behind the end of the offer
(`readPieces_append_of_offer`). -/

namespace LogStream

variable {σ ε : Type}

/-! ### Contents as a splitter takes them -/

/-- The contents of a stream are those of the frames that a splitter takes out of it. -/
theorem contents_eq (s : Splitter) :
    contents s.limit s.buffer =
      match s.next with
      | .error e => ([], some (.frame e))
      | .ok none => ([], s.rest)
      | .ok (some (payload, t)) =>
        match Record.decode payload with
        | .error e => ([], some (.payload e))
        | .ok record =>
          (record :: (contents t.limit t.buffer).1, (contents t.limit t.buffer).2) := by
  rcases Splitter.buffer_cases s.buffer with hb | ⟨a, b, d, e, r, hb⟩
  · rw [Splitter.next_of_short hb]
    unfold Splitter.rest Splitter.finish
    rcases hs : s.buffer with _ | ⟨a, _ | ⟨b, _ | ⟨c, _ | ⟨d, r⟩⟩⟩⟩
    · rw [contents]
    · rw [contents] <;> simp
    · rw [contents] <;> simp
    · rw [contents] <;> simp
    · exact absurd hb (by simp [hs, lengthSize])
  · rw [Splitter.next_of_length hb, hb, contents]
    dsimp only
    split_ifs with h1 h2
    · rfl
    · unfold Splitter.rest Splitter.finish
      rw [hb]
    · rfl

/-- What is wrong with a stream, for a reader that may also fail with its client. -/
def ReadFailure.ofStream : ReadFailure Empty → ReadFailure ε
  | .cancelled => .cancelled
  | .frame e => .frame e
  | .payload e => .payload e
  | .client e => e.elim

theorem Splitter.map_ofStream_rest (s : Splitter) :
    (s.rest : Option (ReadFailure Empty)).map .ofStream = (s.rest : Option (ReadFailure ε)) := by
  unfold rest
  cases s.finish <;> rfl

/-! ### Offering records -/

namespace Client

/-- Nobody tells the reader to give up. -/
def NeverCancelled (c : Client σ ε) : Prop := ∀ st, c.cancelled st = (false, st)

/-- The records are handed over one after the other until the client stops or fails. -/
def offer (c : Client σ ε) (k : σ × Nat) :
    List Record → ((σ × Nat) × Option (ReadFailure ε)) ⊕ (σ × Nat)
  | [] => .inr k
  | r :: rs =>
    match (c.take k.1 r).1.core ((c.take k.1 r).2.2, k.2 + 1) with
    | .inl e => .inl e
    | .inr k => c.offer k rs

/-- How a reading ends that offers the contents of a stream. -/
def endOffer (c : Client σ ε) (k : σ × Nat) (all : List Record × Option (ReadFailure Empty)) :
    (σ × Nat) × Option (ReadFailure ε) :=
  match c.offer k all.1 with
  | .inl e => e
  | .inr k => (k, all.2.map .ofStream)

variable {c : Client σ ε}

theorem NeverCancelled.isSteady (hc : c.NeverCancelled) : c.IsSteady := fun st => by rw [hc st]

theorem NeverCancelled.poll_eq (hc : c.NeverCancelled) (p : Progress σ) : c.poll p = .go p := by
  unfold poll
  rw [hc]

theorem NeverCancelled.deliver_error (hc : c.NeverCancelled) {payload : Bytes} {e : DecodeError}
    (he : Record.decode payload = .error e) (p : Progress σ) (notesStop : Bool) :
    c.deliver p notesStop payload = .done ⟨p, some (.payload e)⟩ := by
  unfold deliver
  rw [hc.poll_eq]
  simp only [he]

theorem NeverCancelled.core_deliver_record (hc : c.NeverCancelled) {payload : Bytes}
    {record : Record} (hr : Record.decode payload = .ok record) (p : Progress σ)
    (notesStop : Bool) :
    (c.deliver p notesStop payload).core =
      (c.take p.client record).1.core ((c.take p.client record).2.2, p.count + 1) :=
  c.deliver_record (hc.poll_eq p) hr rfl notesStop

theorem NeverCancelled.reads_deliver (hc : c.NeverCancelled) (p : Progress σ) (notesStop : Bool)
    (payload : Bytes) : (c.deliver p notesStop payload).progress.reads = p.reads := by
  unfold deliver
  rw [hc.poll_eq]
  cases Record.decode payload with
  | error e => rfl
  | ok record =>
    rcases ht : c.take p.client record with ⟨reply, notices, client⟩
    simp only [ht]
    cases reply with
    | next => rfl
    | fail e => rfl
    | stop => cases notesStop <;> rfl

theorem offer_cons (c : Client σ ε) (k : σ × Nat) (r : Record) (rs : List Record) :
    c.offer k (r :: rs) =
      match (c.take k.1 r).1.core ((c.take k.1 r).2.2, k.2 + 1) with
      | .inl e => .inl e
      | .inr k => c.offer k rs := rfl

/-- Records behind the end of an offer change nothing. -/
theorem offer_append_of_inl {e : (σ × Nat) × Option (ReadFailure ε)} (more : List Record) :
    ∀ {rs : List Record} {k : σ × Nat}, c.offer k rs = .inl e → c.offer k (rs ++ more) = .inl e
  | [], k, h => by cases h
  | r :: rs, k, h => by
    rw [List.cons_append, offer_cons]
    rw [offer_cons] at h
    cases hr : (c.take k.1 r).1.core ((c.take k.1 r).2.2, k.2 + 1) with
    | inl e' => rw [hr] at h; exact h
    | inr k' => rw [hr] at h; exact offer_append_of_inl more h

theorem offer_of_isPrefix {e : (σ × Nat) × Option (ReadFailure ε)} {front rs : List Record}
    {k : σ × Nat} (hf : front <+: rs) (h : c.offer k front = .inl e) : c.offer k rs = .inl e := by
  obtain ⟨more, rfl⟩ := hf
  exact offer_append_of_inl more h

end Client

variable {c : Client σ ε}

/-- A reader of all bytes offers their contents. -/
theorem ending_readWhole_of_neverCancelled (hc : c.NeverCancelled) (s : Splitter)
    (p : Progress σ) :
    (readWhole c s.limit p s.buffer).ending =
      c.endOffer p.core (contents s.limit s.buffer) := by
  induction hn : s.buffer.length using Nat.strongRecOn generalizing s p with
  | ind n ih =>
    rw [readWhole_eq, contents_eq, hc.poll_eq]
    dsimp only
    cases hs : s.next with
    | error e => rfl
    | ok found =>
      cases found with
      | none => exact congrArg (p.core, ·) (s.map_ofStream_rest).symm
      | some found =>
        obtain ⟨payload, t⟩ := found
        have hlt := Splitter.buffer_lt_of_next hs
        dsimp only
        cases hd : Record.decode payload with
        | error e => rw [hc.deliver_error hd]; rfl
        | ok record =>
          have hk := hc.core_deliver_record hd p false
          unfold Client.endOffer
          dsimp only
          rw [Client.offer_cons, show p.core.1 = p.client from rfl,
            show p.core.2 = p.count from rfl, ← hk]
          cases c.deliver p false payload with
          | done r => rfl
          | go q => exact ih _ (hn ▸ hlt) t q rfl

/-- A reader of pieces offers the contents of what it is given. -/
theorem ending_readPieces_of_offer (hc : c.NeverCancelled) (s : Splitter) (p : Progress σ)
    (reads : List Bytes) :
    (readPieces c s p reads).ending =
      c.endOffer p.core (contents s.limit (s.buffer ++ received reads)) := by
  rw [ending_readPieces hc.isSteady]
  exact ending_readWhole_of_neverCancelled hc (s.feed (received reads)) p

namespace Splitter

/-- What is left to offer stays the same while a splitter takes frames out of its buffer. -/
theorem offer_contents_of_drain (hc : c.NeverCancelled) (rest : Bytes) {s t : Splitter}
    {p q : Progress σ} (h : s.drain c p = .inr (t, q)) :
    t.next = .ok none ∧ t.limit = s.limit ∧ q.reads = p.reads ∧
      c.offer p.core (contents s.limit (s.buffer ++ rest)).1 =
        c.offer q.core (contents t.limit (t.buffer ++ rest)).1 := by
  induction hn : s.buffer.length using Nat.strongRecOn generalizing s p with
  | ind n ih =>
    rw [drain_eq, hc.poll_eq] at h
    dsimp only at h
    cases hs : s.next with
    | error e => rw [hs] at h; cases h
    | ok found =>
      rw [hs] at h
      cases found with
      | none => cases h; exact ⟨hs, rfl, rfl, rfl⟩
      | some found =>
        obtain ⟨payload, u⟩ := found
        have hlt := buffer_lt_of_next hs
        have hcontents := contents_eq (s.feed rest)
        rw [next_feed_of_some hs] at hcontents
        dsimp only [limit_feed, buffer_feed] at hcontents h
        cases hd : Record.decode payload with
        | error e => rw [hc.deliver_error hd] at h; cases h
        | ok record =>
          have hk := hc.core_deliver_record hd p true
          have hreads := hc.reads_deliver p true payload
          rw [hd] at hcontents
          rw [hcontents, Client.offer_cons, show p.core.1 = p.client from rfl,
            show p.core.2 = p.count from rfl, ← hk]
          cases hf : c.deliver p true payload with
          | done r => rw [hf] at h; cases h
          | go p' =>
            rw [hf] at h hreads
            obtain ⟨hnext, hlimit, hr, hoffer⟩ := ih _ (hn ▸ hlt) h rfl
            exact ⟨hnext, hlimit.trans (limit_of_next hs), hr.trans hreads, hoffer⟩

/-- A splitter asks for nothing while the client ends the reading. -/
theorem reads_of_drain (hc : c.NeverCancelled) {s : Splitter} {p : Progress σ} {r : Reading σ ε}
    (h : s.drain c p = .inl r) : r.progress.reads = p.reads := by
  induction hn : s.buffer.length using Nat.strongRecOn generalizing s p with
  | ind n ih =>
    rw [drain_eq, hc.poll_eq] at h
    dsimp only at h
    split at h
    · cases h; rfl
    · cases h
    · next payload t hs =>
      have hreads := hc.reads_deliver p true payload
      split at h
      · next hd => cases h; rw [hd] at hreads; exact hreads
      · next q hd =>
        rw [hd] at hreads
        exact (ih _ (hn ▸ buffer_lt_of_next hs) h rfl).trans hreads

/-- A splitter that needs more went through all the records in its buffer. -/
theorem offer_ne_inl_of_drain (hc : c.NeverCancelled) {s t : Splitter} {p q : Progress σ}
    (h : s.drain c p = .inr (t, q)) (e : (σ × Nat) × Option (ReadFailure ε)) :
    c.offer p.core (contents s.limit s.buffer).1 ≠ .inl e := by
  obtain ⟨ht, -, -, ho⟩ := offer_contents_of_drain hc [] h
  rw [List.append_nil, List.append_nil, contents_eq t, ht] at ho
  rw [ho]
  nofun

end Splitter

theorem readPieces_of_drain {s : Splitter} {p : Progress σ} {r : Reading σ ε}
    (h : s.drain c p = .inl r) (reads : List Bytes) : readPieces c s p reads = r := by
  cases reads <;> (unfold readPieces; rw [h])

/-- **A reader asks for nothing behind the end of an offer**: if the client ends the reading within
the contents of the first pieces, then no further piece comes, and further ones change nothing. -/
theorem readPieces_append_of_offer (hc : c.NeverCancelled) {e : (σ × Nat) × Option (ReadFailure ε)} :
    ∀ {reads : List Bytes} {s : Splitter} {p : Progress σ},
      c.offer p.core (contents s.limit (s.buffer ++ received reads)).1 = .inl e →
      (readPieces c s p reads).progress.reads <+: p.reads ++ reads.map List.length ∧
        ∀ more, readPieces c s p (reads ++ more) = readPieces c s p reads := by
  intro reads
  induction reads with
  | nil =>
    intro s p h
    cases hd : s.drain c p with
    | inl r =>
      rw [readPieces_of_drain hd, Splitter.reads_of_drain hc hd]
      exact ⟨List.prefix_append _ _, readPieces_of_drain hd⟩
    | inr found =>
      refine absurd h ?_
      rw [show received [] = [] from rfl, List.append_nil]
      exact Splitter.offer_ne_inl_of_drain hc hd e
  | cons piece reads ih =>
    intro s p h
    cases hd : s.drain c p with
    | inl r =>
      rw [readPieces_of_drain hd, Splitter.reads_of_drain hc hd]
      exact ⟨List.prefix_append _ _, fun more => readPieces_of_drain hd _⟩
    | inr found =>
      obtain ⟨t, q⟩ := found
      by_cases hpiece : piece = []
      · refine absurd h ?_
        rw [hpiece, received_nil_cons, List.append_nil]
        exact Splitter.offer_ne_inl_of_drain hc hd e
      obtain ⟨-, -, hreads, ho⟩ :=
        Splitter.offer_contents_of_drain hc (received (piece :: reads)) hd
      rw [ho, received_cons hpiece, ← List.append_assoc] at h
      have hgo (more : List Bytes) : readPieces c s p (piece :: more) =
          readPieces c (t.feed piece) (q.read piece.length) more := by
        rw [readPieces, hd]
        exact if_neg hpiece
      obtain ⟨hfront, hmore⟩ := ih (s := t.feed piece) (p := q.read piece.length) h
      refine ⟨?_, fun more => ?_⟩
      · rw [hgo, List.map_cons, ← List.singleton_append, ← List.append_assoc, ← hreads]
        exact hfront
      · rw [List.cons_append, hgo, hgo, hmore]

end LogStream
