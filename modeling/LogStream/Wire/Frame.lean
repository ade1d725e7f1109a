import LogStream.Wire.Encode

/-! # Frames

A frame is a payload behind its length, which is four bytes, the lowest first. A stream is one frame
after the other and nothing else. A splitter takes bytes as they come and gives back payloads as soon
as they are complete: a complete frame at the front of its buffer is taken (`next_of_buffer`), and what is
taken stood there (`buffer_of_next`). -/

namespace LogStream

/-- The four bytes of a length. -/
def lengthBytes (n : Nat) : Bytes :=
  [byte n, byte (n / 256), byte (n / 65536), byte (n / 16777216)]

/-- The length that four bytes hold. -/
def lengthOf (a b c d : UInt8) : Nat :=
  a.toNat + 256 * b.toNat + 65536 * c.toNat + 16777216 * d.toNat

/-- A length reads back from its four bytes. -/
theorem lengthOf_byte {n : Nat} (h : n < 0x100000000) :
    lengthOf (byte n) (byte (n / 256)) (byte (n / 65536)) (byte (n / 16777216)) = n := by
  simp [lengthOf, byte]
  omega

/-- Four bytes hold no other lengths. -/
theorem lengthOf_lt (a b c d : UInt8) : lengthOf a b c d < 0x100000000 := by
  have ha := a.toNat_lt
  have hb := b.toNat_lt
  have hc := c.toNat_lt
  have hd := d.toNat_lt
  unfold lengthOf
  omega

/-- Four bytes are the bytes of the length that they hold. -/
theorem lengthBytes_lengthOf (a b c d : UInt8) : lengthBytes (lengthOf a b c d) = [a, b, c, d] := by
  have ha := a.toNat_lt
  have hb := b.toNat_lt
  have hc := c.toNat_lt
  have hd := d.toNat_lt
  simp only [lengthBytes, lengthOf, byte, List.cons.injEq, and_true]
  refine ⟨?_, ?_, ?_, ?_⟩ <;> apply UInt8.toNat_inj.mp <;> simp <;> omega

/-- How many bytes a length takes. -/
def lengthSize : Nat := 4

/-- The longest payload that a frame may have unless another limit is given. -/
def defaultMaxFrame : Int := 67108864

/-- A payload as a frame. -/
def frame (payload : Bytes) : Except EncodeError Bytes :=
  if payload.length < 0x100000000 then .ok (lengthBytes payload.length ++ payload)
  else .error (.payloadTooLong payload.length)

theorem frame_eq_ok_iff {payload framed : Bytes} :
    frame payload = .ok framed ↔
      payload.length < 0x100000000 ∧ lengthBytes payload.length ++ payload = framed := by
  unfold frame
  split
  · next h => simp [h]
  · next h => simp [h]

/-- Why bytes are no stream of frames. -/
inductive FrameError
  /-- The bytes end inside a frame. -/
  | truncated (expected available : Nat)
  | tooLarge (size : Nat) (limit : Int)
deriving DecidableEq, Repr

namespace FrameError

def message : FrameError → Text
  | truncated expected available =>
    Text.lit
      s!"stream truncated: frame needs {expected} bytes, only {available} available"
  | tooLarge size limit =>
    Text.lit s!"frame of {size} bytes exceeds limit of " ++ Text.ofInt limit ++ Text.lit " bytes"

end FrameError

/-- Bytes that wait for the rest of their frame, and the longest payload that is taken. -/
structure Splitter where
  buffer : Bytes := []
  limit : Int := defaultMaxFrame
deriving DecidableEq, Repr

namespace Splitter

/-- More bytes behind those that wait. -/
def feed (s : Splitter) (bs : Bytes) : Splitter := { s with buffer := s.buffer ++ bs }

/-- The next payload, if it is complete, and the splitter without it. -/
def next (s : Splitter) : Except FrameError (Option (Bytes × Splitter)) :=
  match s.buffer with
  | a :: b :: c :: d :: r =>
    let size := lengthOf a b c d
    if s.limit < size then .error (.tooLarge size s.limit)
    else if r.length < size then .ok none
    else .ok (some (r.take size, { s with buffer := r.drop size }))
  | _ => .ok none

/-- A complete frame at the front of the buffer is taken. -/
theorem next_of_buffer {s : Splitter} {payload rest : Bytes}
    (hb : s.buffer = lengthBytes payload.length ++ payload ++ rest)
    (hn : payload.length < 0x100000000) (hl : (payload.length : Int) ≤ s.limit) :
    s.next = .ok (some (payload, { s with buffer := rest })) := by
  have hb : s.buffer = byte payload.length :: byte (payload.length / 256) ::
      byte (payload.length / 65536) :: byte (payload.length / 16777216) :: (payload ++ rest) := by
    rw [hb]; rfl
  unfold next
  rw [hb]
  simp only [lengthOf_byte hn]
  rw [if_neg (by omega), if_neg (by simp), List.take_left, List.drop_left]

/-- What is taken stood at the front of the buffer, and nothing is lost. -/
theorem buffer_of_next {s t : Splitter} {payload : Bytes} (h : s.next = .ok (some (payload, t))) :
    s.buffer = lengthBytes payload.length ++ payload ++ t.buffer := by
  unfold next at h
  split at h
  · next a b c d r hb =>
    dsimp only at h
    split at h
    · cases h
    · split at h
      · cases h
      · next hr =>
        injection h with h
        injection h with h
        injection h with hp ht
        subst hp ht
        rw [hb, List.length_take, Nat.min_eq_left (by omega), lengthBytes_lengthOf,
          List.append_assoc, List.take_append_drop]
        rfl
  · cases h

/-- A payload that was taken leaves a shorter buffer. -/
theorem buffer_lt_of_next {s t : Splitter} {payload : Bytes}
    (h : s.next = .ok (some (payload, t))) : t.buffer.length < s.buffer.length := by
  rw [buffer_of_next h]
  simp only [lengthBytes, List.length_append, List.length_cons]
  omega

/-- All complete payloads, the error that stops them if one does, and what is left. -/
def frames (s : Splitter) : List Bytes × Option FrameError × Splitter :=
  match h : s.next with
  | .error e => ([], some e, s)
  | .ok none => ([], none, s)
  | .ok (some (p, t)) =>
    have := buffer_lt_of_next h
    let (ps, e, u) := frames t
    (p :: ps, e, u)
termination_by s.buffer.length

/-- Nothing more will come: what still waits is the front of a frame. -/
def finish (s : Splitter) : Except FrameError Unit :=
  match s.buffer with
  | [] => .ok ()
  | a :: b :: c :: d :: r =>
    .error (.truncated (lengthSize + lengthOf a b c d) (lengthSize + r.length))
  | bs => .error (.truncated lengthSize bs.length)

end Splitter

end LogStream
