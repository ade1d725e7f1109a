import LogStream.Reader.Basic
import Mathlib.Tactic.SplitIfs

/-! # Reading does not depend on the cut

A reader that is given a stream piece by piece comes to the same end as one that has all of it: the
client is left in the same state, the same number of records was handed over, and the same failure
stopped it (`ending_readPieces`). This holds for every client whose state does not change when it is
asked whether to go on. What a splitter takes out of its buffer it also takes out if more bytes
stand behind (`next_feed_of_some`, `next_feed_of_error`), so the reader of all bytes follows `drain`
step by step (`ending_drain`). -/

namespace LogStream

/-! ### Splitters with more bytes behind -/

namespace Splitter

@[simp] theorem buffer_feed (s : Splitter) (bs : Bytes) : (s.feed bs).buffer = s.buffer ++ bs := rfl

@[simp] theorem limit_feed (s : Splitter) (bs : Bytes) : (s.feed bs).limit = s.limit := rfl

/-- What is done with a buffer that holds a length. -/
theorem next_of_length {s : Splitter} {a b c d : UInt8} {r : Bytes}
    (hb : s.buffer = a :: b :: c :: d :: r) :
    s.next =
      if s.limit < lengthOf a b c d then .error (.tooLarge (lengthOf a b c d) s.limit)
      else if r.length < lengthOf a b c d then .ok none
      else
        .ok (some (r.take (lengthOf a b c d), { s with buffer := r.drop (lengthOf a b c d) })) := by
  unfold next; rw [hb]

theorem next_of_short {s : Splitter} (hb : s.buffer.length < lengthSize) : s.next = .ok none := by
  unfold next
  split
  · next a b c d r h =>
    rw [h] at hb
    simp only [lengthSize, List.length_cons] at hb
    omega
  · rfl

/-- A buffer holds a length, or less than one. -/
theorem buffer_cases (bs : Bytes) :
    bs.length < lengthSize ∨ ∃ a b c d r, bs = a :: b :: c :: d :: r := by
  match bs with
  | a :: b :: c :: d :: r => exact Or.inr ⟨a, b, c, d, r, rfl⟩
  | [] => exact Or.inl (by simp [lengthSize])
  | [_] => exact Or.inl (by simp [lengthSize])
  | [_, _] => exact Or.inl (by simp [lengthSize])
  | [_, _, _] => exact Or.inl (by simp [lengthSize])

theorem limit_of_next {s t : Splitter} {payload : Bytes} (h : s.next = .ok (some (payload, t))) :
    t.limit = s.limit := by
  rcases buffer_cases s.buffer with hb | ⟨a, b, c, d, r, hb⟩
  · rw [next_of_short hb] at h; cases h
  · rw [next_of_length hb] at h
    split_ifs at h
    · cases h
    · cases h; rfl

theorem next_feed_of_some {s t : Splitter} {payload : Bytes} (h : s.next = .ok (some (payload, t)))
    (rest : Bytes) : (s.feed rest).next = .ok (some (payload, t.feed rest)) := by
  rcases buffer_cases s.buffer with hb | ⟨a, b, c, d, r, hb⟩
  · rw [next_of_short hb] at h; cases h
  · rw [next_of_length hb] at h
    split_ifs at h with h1 h2
    · cases h
    cases h
    have hf : (s.feed rest).buffer = a :: b :: c :: d :: (r ++ rest) := by rw [buffer_feed, hb]; rfl
    have h3 : ¬ (r ++ rest).length < lengthOf a b c d := by rw [List.length_append]; omega
    rw [next_of_length hf, limit_feed, if_neg h1, if_neg h3,
      List.take_append_of_le_length (Nat.not_lt.mp h2),
      List.drop_append_of_le_length (Nat.not_lt.mp h2)]
    rfl

theorem next_feed_of_error {s : Splitter} {e : FrameError} (h : s.next = .error e) (rest : Bytes) :
    (s.feed rest).next = .error e := by
  rcases buffer_cases s.buffer with hb | ⟨a, b, c, d, r, hb⟩
  · rw [next_of_short hb] at h; cases h
  · rw [next_of_length hb] at h
    split_ifs at h with h1 h2
    · have hf : (s.feed rest).buffer = a :: b :: c :: d :: (r ++ rest) := by
        rw [buffer_feed, hb]; rfl
      rw [next_of_length hf, limit_feed, if_pos h1]
      exact h

end Splitter

/-! ### What is left of a reading -/

variable {σ ε : Type}

/-- The state of the client, and how many records were handed over. -/
def Progress.core (p : Progress σ) : σ × Nat := (p.client, p.count)

/-- How a reading ended: notices and the sizes of the pieces apart. -/
def Reading.ending (r : Reading σ ε) : (σ × Nat) × Option (ReadFailure ε) :=
  (r.progress.core, r.failure)

/-- A step without notices and sizes. -/
def Step.core : Step σ ε → ((σ × Nat) × Option (ReadFailure ε)) ⊕ (σ × Nat)
  | .done r => .inl r.ending
  | .go p => .inr p.core

/-- What a reply makes of a step. -/
def Reply.core (k : σ × Nat) : Reply ε → ((σ × Nat) × Option (ReadFailure ε)) ⊕ (σ × Nat)
  | .next => .inr k
  | .stop => .inl (k, none)
  | .fail e => .inl (k, some (.client e))

theorem Progress.core_eq_iff {p q : Progress σ} :
    p.core = q.core ↔ p.client = q.client ∧ p.count = q.count := by
  unfold core; rw [Prod.mk.injEq]

namespace Client

variable (c : Client σ ε)

theorem core_poll {p q : Progress σ} (h : p.core = q.core) : (c.poll p).core = (c.poll q).core := by
  obtain ⟨hc, hn⟩ := Progress.core_eq_iff.mp h
  unfold poll
  rw [hc]
  obtain ⟨stop, client⟩ := c.cancelled q.client
  cases stop <;> simp only [Step.core, Reading.ending, Progress.core, hn]

/-- Two steps that agree end the same way, or both go on and agree. -/
theorem core_cases {s t : Step σ ε} (h : s.core = t.core) :
    (∃ r r', s = .done r ∧ t = .done r' ∧ r.ending = r'.ending) ∨
      ∃ p q, s = .go p ∧ t = .go q ∧ p.core = q.core := by
  cases s with
  | done r =>
    cases t with
    | done r' => exact Or.inl ⟨r, r', rfl, rfl, Sum.inl.inj h⟩
    | go q => cases h
  | go p =>
    cases t with
    | done r' => cases h
    | go q => exact Or.inr ⟨p, q, rfl, rfl, Sum.inr.inj h⟩

/-- A record that is handed over. -/
theorem deliver_record {p q : Progress σ} {payload : Bytes} {record : Record} {reply : Reply ε}
    {notices : List Notice} {client : σ} (hp : c.poll p = .go q)
    (hd : Record.decode payload = .ok record)
    (ht : c.take q.client record = (reply, notices, client)) (notesStop : Bool) :
    (c.deliver p notesStop payload).core = reply.core (client, q.count + 1) := by
  unfold deliver
  simp only [hp, hd, ht]
  cases reply with
  | next => rfl
  | fail e => rfl
  | stop => cases notesStop <;> rfl

theorem core_deliver {p q : Progress σ} (h : p.core = q.core) (a b : Bool) (payload : Bytes) :
    (c.deliver p a payload).core = (c.deliver q b payload).core := by
  rcases core_cases (c.core_poll h) with ⟨r, r', hp, hq, he⟩ | ⟨p', q', hp, hq, he⟩
  · unfold deliver
    rw [hp, hq]
    exact congrArg Sum.inl he
  · cases hd : Record.decode payload with
    | error e =>
      unfold deliver
      simp only [hp, hq, hd]
      exact congrArg (fun k => Sum.inl (k, some (ReadFailure.payload e))) he
    | ok record =>
      obtain ⟨hc, hn⟩ := Progress.core_eq_iff.mp he
      rcases ht : c.take q'.client record with ⟨reply, notices, client⟩
      have ht' : c.take p'.client record = (reply, notices, client) := by rw [hc, ht]
      rw [c.deliver_record hp hd ht', c.deliver_record hq hd ht, hn]

end Client

/-! ### Reading all bytes as a splitter does -/

/-- What is wrong with bytes that hold no further frame. -/
def Splitter.rest (s : Splitter) : Option (ReadFailure ε) :=
  match s.finish with
  | .error e => some (.frame e)
  | .ok () => none

/-- The reader of all bytes takes frames as a splitter does that holds them. -/
theorem readWhole_eq (c : Client σ ε) (p : Progress σ) (s : Splitter) :
    readWhole c s.limit p s.buffer =
      match c.poll p with
      | .done r => r
      | .go p =>
        match s.next with
        | .error e => ⟨p, some (.frame e)⟩
        | .ok none => ⟨p, s.rest⟩
        | .ok (some (payload, t)) =>
          match c.deliver p false payload with
          | .done r => r
          | .go p => readWhole c t.limit p t.buffer := by
  rw [readWhole]
  cases c.poll p with
  | done r => rfl
  | go q =>
    dsimp only
    rcases Splitter.buffer_cases s.buffer with hb | ⟨a, b, d, e, r, hb⟩
    · rw [Splitter.next_of_short hb]
      unfold Splitter.rest Splitter.finish
      match s.buffer, hb with
      | [], _ => rfl
      | [_], _ => rfl
      | [_, _], _ => rfl
      | [_, _, _], _ => rfl
    · rw [Splitter.next_of_length hb, hb]
      dsimp only
      split_ifs with h1 h2
      · rfl
      · unfold Splitter.rest Splitter.finish
        rw [hb]
      · rfl

/-- The reader of all bytes comes to the same end wherever its client and count are the same. -/
theorem ending_readWhole_congr (c : Client σ ε) {p q : Progress σ} (h : p.core = q.core)
    (s : Splitter) :
    (readWhole c s.limit p s.buffer).ending = (readWhole c s.limit q s.buffer).ending := by
  induction hn : s.buffer.length using Nat.strongRecOn generalizing s p q with
  | ind n ih =>
    rw [readWhole_eq, readWhole_eq c q]
    rcases Client.core_cases (c.core_poll h) with ⟨r, r', hp, hq, he⟩ | ⟨p', q', hp, hq, he⟩
    · rw [hp, hq]; exact he
    · rw [hp, hq]
      dsimp only
      cases hs : s.next with
      | error e => exact congrArg (·, some (ReadFailure.frame e)) he
      | ok found =>
        cases found with
        | none => exact congrArg (·, s.rest) he
        | some found =>
          obtain ⟨payload, t⟩ := found
          dsimp only
          have hlt := Splitter.buffer_lt_of_next hs
          rcases Client.core_cases (c.core_deliver he false false payload) with
            ⟨r, r', hp, hq, he⟩ | ⟨p'', q'', hp, hq, he⟩
          · rw [hp, hq]; exact he
          · rw [hp, hq]; exact ih _ (hn ▸ hlt) he t rfl

/-! ### Piece by piece -/

/-- To ask the client whether to go on changes nothing. -/
def Client.IsSteady (c : Client σ ε) : Prop := ∀ st, (c.cancelled st).2 = st

theorem Client.IsSteady.poll_eq {c : Client σ ε} (hc : c.IsSteady) {p q : Progress σ}
    (h : c.poll p = .go q) : q = p := by
  have hs := hc p.client
  unfold Client.poll at h
  rcases hk : c.cancelled p.client with ⟨stop, client⟩
  rw [hk] at h hs
  cases stop with
  | true => cases h
  | false =>
    cases h
    rw [show client = p.client from hs]

namespace Splitter

theorem drain_eq (s : Splitter) (c : Client σ ε) (p : Progress σ) :
    s.drain c p =
      match c.poll p with
      | .done r => .inl r
      | .go p =>
        match s.next with
        | .error e => .inl ⟨p, some (.frame e)⟩
        | .ok none => .inr (s, p)
        | .ok (some (payload, t)) =>
          match c.deliver p true payload with
          | .done r => .inl r
          | .go p => t.drain c p := by
  rw [drain]
  cases c.poll p with
  | done r => rfl
  | go p =>
    dsimp only
    split
    · next e h => rw [h]
    · next h => rw [h]
    · next payload t h => rewrite [h]; rfl

/-- **What is handed over from a buffer is handed over from all bytes**, and then the reader of all
bytes is where the splitter is that needs more. -/
theorem ending_drain {c : Client σ ε} (hc : c.IsSteady) (rest : Bytes) (s : Splitter)
    (p : Progress σ) :
    match s.drain c p with
    | .inl r => (readWhole c s.limit p (s.buffer ++ rest)).ending = r.ending
    | .inr (t, q) =>
      t.limit = s.limit ∧ t.next = .ok none ∧ c.poll q = .go q ∧
        (readWhole c s.limit p (s.buffer ++ rest)).ending =
          (readWhole c s.limit q (t.buffer ++ rest)).ending := by
  induction hn : s.buffer.length using Nat.strongRecOn generalizing s p with
  | ind n ih =>
    have hw := readWhole_eq c p (s.feed rest)
    rw [limit_feed, buffer_feed] at hw
    rw [drain_eq]
    cases hp : c.poll p with
    | done r => rw [hp] at hw; exact congrArg Reading.ending hw
    | go q =>
      obtain rfl := hc.poll_eq hp
      rw [hp] at hw
      dsimp only at hw ⊢
      cases hs : s.next with
      | error e =>
        rw [next_feed_of_error hs] at hw
        exact congrArg Reading.ending hw
      | ok found =>
        cases found with
        | none => exact ⟨rfl, hs, hp, rfl⟩
        | some found =>
          obtain ⟨payload, t⟩ := found
          rw [next_feed_of_some hs] at hw
          dsimp only at hw ⊢
          have hl := limit_of_next hs
          rcases Client.core_cases (c.core_deliver (rfl : q.core = q.core) false true payload) with
            ⟨r, r', hf, ht, he⟩ | ⟨p', q', hf, ht, he⟩
          · rw [hf] at hw
            rw [ht]
            exact (congrArg Reading.ending hw).trans he
          · rw [hf] at hw
            rw [ht]
            have ih := ih _ (hn ▸ buffer_lt_of_next hs) t q' rfl
            have hcong := ending_readWhole_congr c he (t.feed rest)
            rw [limit_feed, buffer_feed, hl] at hcong
            rw [limit_feed, buffer_feed, hl] at hw
            have hw := (congrArg Reading.ending hw).trans hcong
            dsimp only
            rw [hl] at ih
            cases hd : t.drain c q' with
            | inl r => rw [hd] at ih; exact hw.trans ih
            | inr found =>
              obtain ⟨u, k⟩ := found
              rw [hd] at ih
              obtain ⟨h1, h2, h3, h4⟩ := ih
              exact ⟨h1, h2, h3, hw.trans h4⟩

end Splitter

/-- The bytes that a source gives before its first empty piece. -/
def received (reads : List Bytes) : Bytes := (reads.takeWhile (· ≠ [])).flatten

theorem received_nil_cons (reads : List Bytes) : received ([] :: reads) = [] := rfl

theorem received_cons {piece : Bytes} (h : piece ≠ []) (reads : List Bytes) :
    received (piece :: reads) = piece ++ received reads := by
  unfold received
  rw [List.takeWhile_cons_of_pos (by simpa using h), List.flatten_cons]

/-- At the end of the stream both readers say what is wrong with the rest. -/
theorem ending_endRead (c : Client σ ε) (s : Splitter) {p : Progress σ} (hs : s.next = .ok none)
    (hp : c.poll p = .go p) (n : Nat) :
    (endRead s (p.read n) : Reading σ ε).ending = (readWhole c s.limit p s.buffer).ending := by
  rw [readWhole_eq, hp, hs]
  dsimp only
  unfold endRead Splitter.rest
  cases s.finish <;> rfl

/-- **Reading piece by piece ends as reading all bytes does.** -/
theorem ending_readPieces {c : Client σ ε} (hc : c.IsSteady) : ∀ (reads : List Bytes) (s : Splitter)
    (p : Progress σ),
    (readPieces c s p reads).ending = (readWhole c s.limit p (s.buffer ++ received reads)).ending
  | [], s, p => by
    have hd := Splitter.ending_drain hc [] s p
    unfold readPieces
    cases h : s.drain c p with
    | inl r => rw [h] at hd; exact hd.symm
    | inr found =>
      obtain ⟨t, q⟩ := found
      rw [h] at hd
      obtain ⟨hl, ht, hq, he⟩ := hd
      refine (ending_endRead c t ht hq 0).trans ?_
      rw [hl, ← List.append_nil t.buffer]
      exact he.symm
  | piece :: reads, s, p => by
    have hd := Splitter.ending_drain hc (received (piece :: reads)) s p
    unfold readPieces
    cases h : s.drain c p with
    | inl r => rw [h] at hd; exact hd.symm
    | inr found =>
      obtain ⟨t, q⟩ := found
      rw [h] at hd
      obtain ⟨hl, ht, hq, he⟩ := hd
      dsimp only
      rw [he]
      by_cases hpiece : piece = []
      · subst hpiece
        rw [if_pos rfl, received_nil_cons, List.append_nil, ← hl]
        exact ending_endRead c t ht hq 0
      · have ih := ending_readPieces hc reads (t.feed piece) (q.read piece.length)
        have hk : (q.read piece.length).core = q.core := rfl
        have hcong := ending_readWhole_congr c hk ((t.feed piece).feed (received reads))
        rw [if_neg hpiece, received_cons hpiece, ih, ← List.append_assoc, ← hl]
        exact hcong

end LogStream
