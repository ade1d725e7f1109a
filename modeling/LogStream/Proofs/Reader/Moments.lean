import LogStream.Proofs.Reader.Chunks

/-! # The moments of a reading

A reading is cut at the moments between the things that a reader does: the client is asked whether to give
up, a payload is looked for, a payload is decoded, a record is handed over (`Moment.next`). The reader of
pieces and the reader of all bytes differ in how they look for payloads (`Manner.pieces`, `Manner.bytes`).
What was done so far is listed in order (`Moment.after`), and wherever the list is cut there was a moment
(`Moment.exists_of_events`). A reader that takes turns in such a manner (`Client.TakesTurns`) goes through the
moments to its end, and both readers do (`leads_readPieces`, `leads_readWhole`). -/

namespace LogStream

variable {α σ ε : Type}

/-- Something that a reader does. -/
inductive ReadEvent
  /-- The client was asked whether to give up, and this is what it said. -/
  | polled (stop : Bool)
  /-- A payload was looked for. For that the source was read a number of times, and each time some bytes
  came, or none at its end. -/
  | searched (reads : List Nat) (payload? : Option Bytes)
  | decoded (payload : Bytes)
  | handed (record : Record)

/-! ### Looking for payloads -/

/-- What comes of looking for a payload. -/
inductive Found (α σ : Type)
  /-- A payload, and what is left. -/
  | payload (bs : Bytes) (rest : α)
  /-- There is more to look at, but the client is asked first. -/
  | more (rest : α) (p : Progress σ)
  /-- There is no further payload, and perhaps something is wrong. -/
  | ended (p : Progress σ) (result : Except FrameError Unit)

namespace Found

def payload? : Found α σ → Option Bytes
  | payload bs _ => some bs
  | more .. | ended .. => none

/-- What is left to be looked at. -/
def rest? : Found α σ → Option α
  | payload _ rest | more rest _ => some rest
  | ended .. => none

end Found

/-- What comes of looking for a payload, and how many bytes came for each read of the source. -/
structure Search (α σ : Type) where
  reads : List Nat
  found : Found α σ

/-- How a reader looks for payloads, and whether it notes how it came to an end. -/
structure Manner (α σ : Type) where
  search : α → Progress σ → Search α σ
  notes : Bool

/-- A splitter, and the pieces that a source still gives. -/
structure Piecewise where
  splitter : Splitter
  pieces : List Bytes
deriving DecidableEq, Repr

/-- Looks into a splitter, and reads a piece if no payload is complete. -/
def Manner.pieces : Manner Piecewise σ where
  notes := true
  search a p :=
    match a.splitter.next with
    | .error e => ⟨[], .ended p (.error e)⟩
    | .ok (some (payload, t)) => ⟨[], .payload payload { a with splitter := t }⟩
    | .ok none =>
      match a.pieces with
      | [] => ⟨[0], .ended (p.read 0) a.splitter.finish⟩
      | piece :: pieces =>
        if piece = [] then ⟨[0], .ended (p.read 0) a.splitter.finish⟩
        else ⟨[piece.length], .more ⟨a.splitter.feed piece, pieces⟩ (p.read piece.length)⟩

/-- Reads a length, and then as many bytes. -/
def Manner.bytes (limit : Int) : Manner Bytes σ where
  notes := false
  search bs p :=
    match bs with
    | a :: b :: d :: e :: r =>
      let size := lengthOf a b d e
      if limit < size then ⟨[lengthSize], .ended p (.error (.tooLarge size limit))⟩
      else if r.length < size then
        ⟨[lengthSize, r.length],
          .ended p (.error (.truncated (lengthSize + size) (lengthSize + r.length)))⟩
      else ⟨[lengthSize, size], .payload (r.take size) (r.drop size)⟩
    | [] => ⟨[0], .ended p (.ok ())⟩
    | bs => ⟨[bs.length], .ended p (.error (.truncated lengthSize bs.length))⟩

/-! ### Moments -/

/-- How a reading ends that finds no further payload. -/
def Reading.ofResult (notes : Bool) (p : Progress σ) : Except FrameError Unit → Reading σ ε
  | .error e => ⟨p, some (.frame e)⟩
  | .ok () => ⟨if notes then p.note [.debug (Text.lit "end of stream")] else p, none⟩

/-- A moment of a reading. How far the reader has come is known at each, and what there is to be looked at
until the reading is over. -/
inductive Moment (α σ ε : Type)
  /-- The client is to be asked before a payload is looked for. -/
  | turn (a : α) (p : Progress σ)
  | looking (a : α) (p : Progress σ)
  /-- The client is to be asked before the payload is decoded. -/
  | holding (a : α) (p : Progress σ) (payload : Bytes)
  | decoding (a : α) (p : Progress σ) (payload : Bytes)
  | handing (a : α) (p : Progress σ) (record : Record)
  | closed (r : Reading σ ε)

namespace Moment

/-- What there is to be looked at. -/
def supply? : Moment α σ ε → Option α
  | turn a _ | looking a _ | holding a _ _ | decoding a _ _ | handing a _ _ => some a
  | closed _ => none

/-- The reading is over, or goes on with a moment. -/
def ofStep (go : Progress σ → Moment α σ ε) : Step σ ε → Moment α σ ε
  | .done r => closed r
  | .go p => go p

variable (c : Client σ ε) (w : Manner α σ)

/-- The moment after a search. -/
def ofFound (p : Progress σ) : Found α σ → Moment α σ ε
  | .payload bs rest => holding rest p bs
  | .more rest p => turn rest p
  | .ended p result => closed (.ofResult w.notes p result)

/-- The moment after a payload was decoded. -/
def ofDecoded (a : α) (p : Progress σ) : Except DecodeError Record → Moment α σ ε
  | .error e => closed ⟨p, some (.payload e)⟩
  | .ok record => handing a p record

/-- The moment after a record was handed over. -/
def ofReply (a : α) (p : Progress σ) : Reply ε → Moment α σ ε
  | .next => turn a p
  | .stop => closed ⟨if w.notes then p.note [Client.stopNotice p.count] else p, none⟩
  | .fail e => closed ⟨p, some (.client e)⟩

/-- What is done next, and the moment after it. -/
def next : Moment α σ ε → Option (ReadEvent × Moment α σ ε)
  | turn a p => some (.polled (c.cancelled p.client).1, ofStep (looking a) (c.poll p))
  | looking a p =>
    some (.searched (w.search a p).reads (w.search a p).found.payload?,
      ofFound w p (w.search a p).found)
  | holding a p payload =>
    some (.polled (c.cancelled p.client).1, ofStep (fun p => decoding a p payload) (c.poll p))
  | decoding a p payload => some (.decoded payload, ofDecoded a p (Record.decode payload))
  | handing a p record =>
    let (reply, notices, client) := c.take p.client record
    some (.handed record, ofReply w a ({ p with client, count := p.count + 1 }.note notices) reply)
  | closed _ => none

/-- What was done after a number of steps, in order, and the moment that was reached. A reading that is
over stays so. -/
def after (m : Moment α σ ε) : Nat → List ReadEvent × Moment α σ ε
  | 0 => ([], m)
  | n + 1 =>
    match (after m n).2.next c w with
    | none => after m n
    | some (e, m') => ((after m n).1 ++ [e], m')

/-- A moment comes some time after another. -/
def Leads (m m' : Moment α σ ε) : Prop := ∃ n, (m.after c w n).2 = m'

variable {c w}

theorem after_succ_of_next {m m' m'' : Moment α σ ε} {e : ReadEvent} {es : List ReadEvent} {n : Nat}
    (h : m.after c w n = (es, m')) (hn : m'.next c w = some (e, m'')) :
    m.after c w (n + 1) = (es ++ [e], m'') := by
  rw [after, h]
  dsimp only
  rw [hn]

theorem after_succ_of_closed {m m' : Moment α σ ε} {es : List ReadEvent} {n : Nat}
    (h : m.after c w n = (es, m')) (hn : m'.next c w = none) :
    m.after c w (n + 1) = (es, m') := by
  rw [after, h]
  dsimp only
  rw [hn]

/-- What holds at the start and is kept by each step holds at every moment. -/
theorem after_induction {P : List ReadEvent → Moment α σ ε → Prop} {m : Moment α σ ε} (start : P [] m)
    (step : ∀ {es m' e m''}, P es m' → m'.next c w = some (e, m'') → P (es ++ [e]) m'') (n : Nat) :
    P (m.after c w n).1 (m.after c w n).2 := by
  induction n with
  | zero => exact start
  | succ n ih =>
    cases hn : (m.after c w n).2.next c w with
    | none => rwa [after_succ_of_closed rfl hn]
    | some found => rw [after_succ_of_next rfl hn]; exact step ih hn

/-- What is done after a first step. -/
theorem after_of_next {m m' : Moment α σ ε} {e : ReadEvent} (h : m.next c w = some (e, m')) (n : Nat) :
    m.after c w (n + 1) = (e :: (m'.after c w n).1, (m'.after c w n).2) := by
  induction n with
  | zero => exact after_succ_of_next rfl h
  | succ n ih =>
    cases hn : (m'.after c w n).2.next c w with
    | none => rw [after_succ_of_closed ih hn, after_succ_of_closed rfl hn]
    | some found => rw [after_succ_of_next ih hn, after_succ_of_next rfl hn]; rfl

theorem Leads.refl (m : Moment α σ ε) : m.Leads c w m := ⟨0, rfl⟩

theorem Leads.head {m m' m'' : Moment α σ ε} {e : ReadEvent} (h : m.next c w = some (e, m'))
    (hm : m'.Leads c w m'') : m.Leads c w m'' := by
  obtain ⟨n, hn⟩ := hm
  exact ⟨n + 1, by rw [after_of_next h]; exact hn⟩

/-- A list that grew by one entry is cut before this entry, or further in front. -/
theorem concat_eq_append_cons {β : Type} {front behind xs : List β} {x y : β}
    (h : xs ++ [y] = front ++ x :: behind) :
    (behind = [] ∧ front = xs ∧ x = y) ∨ ∃ more, behind = more ++ [y] ∧ xs = front ++ x :: more := by
  rcases List.eq_nil_or_concat behind with rfl | ⟨more, z, hz⟩
  · obtain ⟨hxs, hy⟩ := List.append_inj' h rfl
    exact Or.inl ⟨rfl, hxs.symm, (List.cons.inj hy).1.symm⟩
  · rw [hz, List.concat_eq_append, ← List.cons_append, ← List.append_assoc] at h
    obtain ⟨hxs, hy⟩ := List.append_inj' h rfl
    exact Or.inr ⟨more, by rw [hz, List.concat_eq_append, hy], hxs⟩

/-- **Wherever the events are cut there was a moment**: it was reached with what stands before the cut, the
next event was done at it, and the others followed. -/
theorem exists_of_events {m : Moment α σ ε} {n : Nat} {front behind : List ReadEvent} {e : ReadEvent}
    (h : (m.after c w n).1 = front ++ e :: behind) :
    ∃ i j m₁ m₂, m.after c w i = (front, m₁) ∧ m₁.next c w = some (e, m₂) ∧
      m₂.after c w j = (behind, (m.after c w n).2) := by
  induction n generalizing behind with
  | zero => exact absurd h (by simp [after])
  | succ n ih =>
    cases hn : (m.after c w n).2.next c w with
    | none =>
      rw [after_succ_of_closed rfl hn] at h ⊢
      exact ih h
    | some found =>
      obtain ⟨e', m'⟩ := found
      rw [after_succ_of_next rfl hn] at h ⊢
      rcases concat_eq_append_cons h with ⟨rfl, rfl, rfl⟩ | ⟨more, rfl, hes⟩
      · exact ⟨n, 0, _, m', rfl, hn, rfl⟩
      · obtain ⟨i, j, m₁, m₂, hi, he, hj⟩ := ih hes
        exact ⟨i, j + 1, m₁, m₂, hi, he, after_succ_of_next hj hn⟩

/-- What there is to be looked at changes by looking alone. -/
theorem supply?_of_next {m m' : Moment α σ ε} {e : ReadEvent} {a' : α}
    (h : m.next c w = some (e, m')) (ha : m'.supply? = some a') :
    ∃ a, m.supply? = some a ∧ (a' = a ∨ ∃ p, (w.search a p).found.rest? = some a') := by
  cases m with
  | turn a p =>
    cases h
    refine ⟨a, rfl, Or.inl ?_⟩
    cases hp : c.poll p <;> rw [hp] at ha <;> cases ha
    rfl
  | looking a p =>
    cases h
    refine ⟨a, rfl, Or.inr ⟨p, ?_⟩⟩
    cases hf : (w.search a p).found <;> rw [hf] at ha <;> cases ha <;> rfl
  | holding a p payload =>
    cases h
    refine ⟨a, rfl, Or.inl ?_⟩
    cases hp : c.poll p <;> rw [hp] at ha <;> cases ha
    rfl
  | decoding a p payload =>
    cases h
    refine ⟨a, rfl, Or.inl ?_⟩
    cases hd : Record.decode payload <;> rw [hd] at ha <;> cases ha
    rfl
  | handing a p record =>
    cases h
    refine ⟨a, rfl, Or.inl ?_⟩
    cases hr : (c.take p.client record).1 <;> rw [hr] at ha <;> cases ha
    rfl
  | closed r => cases h

/-- What holds of all that there is to be looked at at the start, and of what each search leaves, holds at
every moment. -/
theorem supply_induction {P : α → Prop} {a : α} {p : Progress σ} (start : P a)
    (search : ∀ {a p rest}, P a → (w.search a p).found.rest? = some rest → P rest) (n : Nat) :
    ∀ a', ((turn a p : Moment α σ ε).after c w n).2.supply? = some a' → P a' := by
  refine after_induction (P := fun _ m => ∀ a', m.supply? = some a' → P a') ?_ ?_ n
  · rintro a' ha
    cases ha
    exact start
  · rintro es m e m' ih h a' ha
    obtain ⟨a, hm, rfl | ⟨p, hrest⟩⟩ := supply?_of_next h ha
    · exact ih a' hm
    · exact search (ih a hm) hrest

end Moment

/-! ### Readers that take turns -/

namespace Client

variable (c : Client σ ε) (w : Manner α σ)

/-- The rest of a turn: what was found is handed over, and then, or if there is more to look at, comes the
next turn. -/
def finishTurn (read : α → Progress σ → Reading σ ε) (p : Progress σ) : Found α σ → Reading σ ε
  | .payload bs rest =>
    match c.deliver p w.notes bs with
    | .done r => r
    | .go p => read rest p
  | .more rest p => read rest p
  | .ended p result => .ofResult w.notes p result

/-- A reader that does in each turn what a manner says. What there is to be looked at becomes less. -/
structure TakesTurns (size : α → Nat) (read : α → Progress σ → Reading σ ε) : Prop where
  shrinks : ∀ a p rest, (w.search a p).found.rest? = some rest → size rest < size a
  turn : ∀ a p, read a p =
    match c.poll p with
    | .done r => r
    | .go q => c.finishTurn w read q (w.search a q).found

variable {c w}

/-- A payload that is held is handed over as readers do. -/
theorem leads_deliver {m : Moment α σ ε} (a : α) (p : Progress σ) (payload : Bytes)
    (hm : (Moment.ofStep (.turn a) (c.deliver p w.notes payload)).Leads c w m) :
    (Moment.holding a p payload).Leads c w m := by
  unfold deliver at hm
  refine .head rfl ?_
  cases hp : c.poll p with
  | done r =>
    rw [hp] at hm
    exact hm
  | go q =>
    rw [hp] at hm
    refine .head rfl ?_
    dsimp only at hm
    cases hd : Record.decode payload with
    | error e =>
      rw [hd] at hm
      exact hm
    | ok record =>
      rw [hd] at hm
      refine .head rfl ?_
      dsimp only at hm ⊢
      cases hr : (c.take q.client record).1 with
      | next => rw [hr] at hm; exact hm
      | stop => rw [hr] at hm; exact hm
      | fail e => rw [hr] at hm; exact hm

/-- **A reader that takes turns goes through the moments to its end.** -/
theorem TakesTurns.leads {size : α → Nat} {read : α → Progress σ → Reading σ ε}
    (h : c.TakesTurns w size read) (a : α) (p : Progress σ) :
    (Moment.turn a p).Leads c w (.closed (read a p)) := by
  induction hs : size a using Nat.strongRecOn generalizing a p with
  | ind n ih =>
    rw [h.turn]
    refine .head rfl ?_
    cases c.poll p with
    | done r => exact .refl _
    | go q =>
      refine .head rfl ?_
      have hlt := h.shrinks a q
      dsimp only
      cases hf : (w.search a q).found with
      | ended q' result => exact .refl _
      | more rest q' =>
        rw [hf] at hlt
        exact ih _ (hs ▸ hlt rest rfl) rest q' rfl
      | payload bs rest =>
        rw [hf] at hlt
        refine leads_deliver rest q bs ?_
        dsimp only [finishTurn]
        cases c.deliver q w.notes bs with
        | done r => exact .refl _
        | go q' => exact ih _ (hs ▸ hlt rest rfl) rest q' rfl

end Client

/-! ### The two readers -/

variable (c : Client σ ε)

/-- How much there is to be looked at: the bytes that wait or will come, and the pieces that they come
in. -/
def Piecewise.size (a : Piecewise) : Nat :=
  a.splitter.buffer.length + a.pieces.flatten.length + a.pieces.length

theorem endRead_eq (s : Splitter) (p : Progress σ) :
    (endRead s p : Reading σ ε) = .ofResult true p s.finish := by
  unfold endRead
  cases s.finish <;> rfl

/-- A piece is read when no payload is left to hand over. -/
theorem readPieces_eq (s : Splitter) (p : Progress σ) (reads : List Bytes) :
    readPieces c s p reads =
      match s.drain c p with
      | .inl r => r
      | .inr (s, p) =>
        match reads with
        | [] => endRead s (p.read 0)
        | piece :: pieces =>
          if piece = [] then endRead s (p.read 0)
          else readPieces c (s.feed piece) (p.read piece.length) pieces := by
  cases reads with
  | nil => exact readPieces.eq_1 c s p
  | cons piece pieces => exact readPieces.eq_2 c s p piece pieces

theorem takesTurns_readPieces :
    c.TakesTurns .pieces Piecewise.size fun a p => readPieces c a.splitter p a.pieces where
  shrinks a p rest h := by
    obtain ⟨s, pieces⟩ := a
    unfold Manner.pieces at h
    unfold Piecewise.size
    dsimp only at h ⊢
    cases hs : s.next with
    | error e => rw [hs] at h; cases h
    | ok found =>
      rw [hs] at h
      rcases found with _ | ⟨payload, t⟩
      · rcases pieces with _ | ⟨piece, pieces⟩
        · cases h
        · dsimp only at h
          split_ifs at h
          · cases h
          · cases h
            simp only [Splitter.buffer_feed, List.length_append, List.flatten_cons,
              List.length_cons]
            omega
      · cases h
        have hlt := Splitter.buffer_lt_of_next hs
        dsimp only
        omega
  turn a p := by
    obtain ⟨s, pieces⟩ := a
    dsimp only
    rw [readPieces_eq, Splitter.drain_eq]
    cases c.poll p with
    | done r => rfl
    | go q =>
      dsimp only [Manner.pieces]
      cases s.next with
      | error e => rfl
      | ok found =>
        rcases found with _ | ⟨payload, t⟩
        · rcases pieces with _ | ⟨piece, pieces⟩
          · exact endRead_eq _ _
          · dsimp only
            split_ifs
            · exact endRead_eq _ _
            · rfl
        · dsimp only [Client.finishTurn]
          cases c.deliver q true payload with
          | done r => rfl
          | go q' => exact (readPieces_eq c t q' pieces).symm

theorem takesTurns_readWhole (limit : Int) :
    c.TakesTurns (.bytes limit) List.length fun bs p => readWhole c limit p bs where
  shrinks bs p rest h := by
    unfold Manner.bytes at h
    dsimp only at h
    split at h
    · split_ifs at h
      · cases h
      · cases h
      · cases h
        simp only [List.length_drop, List.length_cons]
        omega
    · cases h
    · cases h
  turn bs p := by
    rw [readWhole]
    cases c.poll p with
    | done r => rfl
    | go q =>
      dsimp only [Manner.bytes]
      rcases bs with _ | ⟨a, _ | ⟨b, _ | ⟨d, _ | ⟨e, r⟩⟩⟩⟩
      case cons.cons.cons.cons =>
        dsimp only
        split_ifs <;> rfl
      all_goals rfl

/-- **The reader of pieces goes through its moments to its end.** -/
theorem leads_readPieces (s : Splitter) (p : Progress σ) (reads : List Bytes) :
    (Moment.turn ⟨s, reads⟩ p).Leads c .pieces (.closed (readPieces c s p reads)) :=
  (takesTurns_readPieces c).leads ⟨s, reads⟩ p

/-- **The reader of all bytes goes through its moments to its end.** -/
theorem leads_readWhole (limit : Int) (p : Progress σ) (bs : Bytes) :
    (Moment.turn bs p).Leads c (.bytes limit) (.closed (readWhole c limit p bs)) :=
  (takesTurns_readWhole c limit).leads bs p

end LogStream
