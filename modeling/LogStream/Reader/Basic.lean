import LogStream.Record.Notice
import LogStream.Wire.Decode
import LogStream.Wire.Frame

/-! # Reading a stream

A reader takes frames out of a stream and hands the records in them to a client, one after the other,
until the stream ends, the client stops, or something fails. The client is asked whether to go on before
a frame is taken out and again before its payload is decoded. A stream comes piece by piece, and then a
splitter holds what has come so far; or it is all there, and is read frame by frame. -/

namespace LogStream

/-- What a client says to a record. -/
inductive Reply (ε : Type)
  | next
  | stop
  | fail (e : ε)

/-- Who a reader works for. A client has a state, which its answers may change. -/
structure Client (σ ε : Type) where
  /-- Whether the reader shall give up. -/
  cancelled : σ → Bool × σ
  /-- What the client says to a record, and what it notes about it. -/
  take : σ → Record → Reply ε × List Notice × σ

/-- Why a stream was not read to its end. -/
inductive ReadFailure (ε : Type)
  | cancelled
  | frame (e : FrameError)
  | payload (e : DecodeError)
  | client (e : ε)

/-- What is said when the reader was told to give up. -/
def ReadFailure.cancelledMessage : Text := Text.lit "read cancelled"

/-- How far a reader has come. -/
structure Progress (σ : Type) where
  client : σ
  /-- How many records were handed over. -/
  count : Nat := 0
  /-- How many bytes came piece by piece; the end of the stream is a piece of none. -/
  reads : List Nat := []
  notices : List Notice := []

namespace Progress

variable {σ : Type}

def note (p : Progress σ) (ns : List Notice) : Progress σ := { p with notices := p.notices ++ ns }

end Progress

/-- How a reader came to an end. -/
structure Reading (σ ε : Type) where
  progress : Progress σ
  failure : Option (ReadFailure ε) := none

/-- What a reader does next: it has come to an end, or goes on. -/
inductive Step (σ ε : Type)
  | done (r : Reading σ ε)
  | go (p : Progress σ)

namespace Client

variable {σ ε : Type}

/-- Asks the client whether to go on. -/
def poll (c : Client σ ε) (p : Progress σ) : Step σ ε :=
  match c.cancelled p.client with
  | (true, client) => .done ⟨{ p with client }, some .cancelled⟩
  | (false, client) => .go { p with client }

/-- The notice that a client stopped. -/
def stopNotice (count : Nat) : Notice :=
  .debug (Text.lit s!"read stopped by callback after {count} records")

/-- Hands a payload over, as a record. -/
def deliver (c : Client σ ε) (p : Progress σ) (notesStop : Bool) (payload : Bytes) : Step σ ε :=
  match c.poll p with
  | .done r => .done r
  | .go p =>
    match Record.decode payload with
    | .error e => .done ⟨p, some (.payload e)⟩
    | .ok record =>
      let (reply, notices, client) := c.take p.client record
      let p := { p with client, count := p.count + 1 }.note notices
      match reply with
      | .next => .go p
      | .stop => .done ⟨if notesStop then p.note [stopNotice p.count] else p, none⟩
      | .fail e => .done ⟨p, some (.client e)⟩

end Client

/-! ### Piece by piece -/

namespace Splitter

variable {σ ε : Type}

/-- Hands over what is complete: the reader has come to an end, or needs more. -/
def drain (s : Splitter) (c : Client σ ε) (p : Progress σ) :
    Reading σ ε ⊕ (Splitter × Progress σ) :=
  match c.poll p with
  | .done r => .inl r
  | .go p =>
    match h : s.next with
    | .error e => .inl ⟨p, some (.frame e)⟩
    | .ok none => .inr (s, p)
    | .ok (some (payload, t)) =>
      have := buffer_lt_of_next h
      match c.deliver p true payload with
      | .done r => .inl r
      | .go p => drain t c p
termination_by s.buffer.length

end Splitter

/-- A number of bytes came, or none at the end of the stream. -/
def Progress.read {σ : Type} (p : Progress σ) (n : Nat) : Progress σ :=
  { p with reads := p.reads ++ [n] }

/-- The stream has ended; what the splitter still holds is the front of a frame. -/
def endRead {σ ε : Type} (s : Splitter) (p : Progress σ) : Reading σ ε :=
  match s.finish with
  | .error e => ⟨p, some (.frame e)⟩
  | .ok () => ⟨p.note [.debug (Text.lit "end of stream")], none⟩

/-- Reads pieces, of which one without bytes is the end of the stream. -/
def readPieces {σ ε : Type} (c : Client σ ε) (s : Splitter) (p : Progress σ) :
    List Bytes → Reading σ ε
  | [] =>
    match s.drain c p with
    | .inl r => r
    | .inr (s, p) => endRead s (p.read 0)
  | piece :: pieces =>
    match s.drain c p with
    | .inl r => r
    | .inr (s, p) =>
      if piece = [] then endRead s (p.read 0)
      else readPieces c (s.feed piece) (p.read piece.length) pieces

/-- Bytes cut into pieces of a size, of which the last one may be shorter. Without a size they stay in one
piece, and so does what is short enough. -/
def cut (size : Nat) (bs : Bytes) : List Bytes :=
  if size = 0 ∨ bs.length ≤ size then [bs] else bs.take size :: cut size (bs.drop size)
termination_by bs.length
decreasing_by simp only [List.length_drop]; omega

/-- The pieces read the bytes. -/
theorem flatten_cut (size : Nat) (bs : Bytes) : (cut size bs).flatten = bs := by
  rw [cut]
  split
  · rw [List.flatten_cons, List.flatten_nil, List.append_nil]
  · rw [List.flatten_cons, flatten_cut size (bs.drop size), List.take_append_drop]
termination_by bs.length
decreasing_by simp only [List.length_drop]; omega

/-- No piece is longer than the size. -/
theorem length_le_of_mem_cut {size : Nat} (hs : size ≠ 0) (bs : Bytes) :
    ∀ piece ∈ cut size bs, piece.length ≤ size := by
  intro piece hp
  rw [cut] at hp
  split at hp
  · rw [List.mem_singleton] at hp
    subst hp
    omega
  · rcases List.mem_cons.mp hp with rfl | hp
    · exact List.length_take_le ..
    · exact length_le_of_mem_cut hs (bs.drop size) piece hp
termination_by bs.length
decreasing_by simp only [List.length_drop]; omega

/-- What a source of chunks gives if it is asked for a number of bytes again and again. -/
def pieces (size : Nat) (chunks : List Bytes) : List Bytes :=
  if size = 0 then [] else chunks.flatMap (cut size)

/-- A source of chunks gives all its bytes. -/
theorem flatten_pieces {size : Nat} (hs : size ≠ 0) (chunks : List Bytes) :
    (pieces size chunks).flatten = chunks.flatten := by
  rw [pieces, if_neg hs]
  induction chunks with
  | nil => rfl
  | cons c cs ih =>
    rw [List.flatMap_cons, List.flatten_append, flatten_cut, ih, List.flatten_cons]

/-- How many bytes are asked for unless another number is given. -/
def defaultChunkSize : Nat := 65536

/-- Reads a source of chunks. -/
def readChunks {σ ε : Type} (c : Client σ ε) (client : σ) (size : Nat) (limit : Int)
    (chunks : List Bytes) : Reading σ ε :=
  let start : Progress σ :=
    { client, notices := [.debug (Text.lit s!"reading stream (chunk_size={size})")] }
  readPieces c { limit } start (pieces size chunks)

/-! ### Frame by frame -/

/-- Reads bytes that are all there. -/
def readWhole {σ ε : Type} (c : Client σ ε) (limit : Int) (p : Progress σ) (bs : Bytes) :
    Reading σ ε :=
  match c.poll p with
  | .done r => r
  | .go p =>
    match bs with
    | a :: b :: d :: e :: r =>
      let size := lengthOf a b d e
      if limit < size then ⟨p, some (.frame (.tooLarge size limit))⟩
      else if r.length < size then
        ⟨p, some (.frame (.truncated (lengthSize + size) (lengthSize + r.length)))⟩
      else
        match c.deliver p false (r.take size) with
        | .done r => r
        | .go p => readWhole c limit p (r.drop size)
    | [] => ⟨p, none⟩
    | bs => ⟨p, some (.frame (.truncated lengthSize bs.length))⟩
termination_by bs.length
decreasing_by simp only [List.length_drop, List.length_cons]; omega

/-- Reads a stream that is fed with chunks. -/
def readFed {σ ε : Type} (c : Client σ ε) (client : σ) (limit : Int) (chunks : List Bytes) :
    Reading σ ε :=
  readWhole c limit { client } chunks.flatten

end LogStream
