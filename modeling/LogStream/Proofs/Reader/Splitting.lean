import LogStream.Proofs.Outcome
import LogStream.Proofs.Reader.Chunks

/-! # Splitting conserves bytes

Whatever a splitter is asked for, and in whatever order, the bytes that were fed to it are the frames of
the payloads that were taken, and behind them what still waits (`Splitting.isFaithful_run`). An iteration
over the complete payloads takes one each time it is resumed, so it may be abandoned at any point, and
several of them may take turns. The account is kept by what one call does (`Splitting.Conserves.act`), also
if it fails. What waits begins with no complete frame when none is found
(`Splitter.not_startsWithFrame_of_next`), and with the length of a payload that is too long when it is refused
(`Splitter.lengthBytes_of_next`); at the end it is nothing, or the front of a frame that needs more bytes
(`Splitter.finish_cases`). -/

namespace LogStream

/-! ### Frames at the front -/

/-- The bytes begin with a complete frame. -/
def StartsWithFrame (bs : Bytes) : Prop :=
  ∃ payload framed, frame payload = .ok framed ∧ framed <+: bs

/-- How many bytes a frame needs of which these are the front: those of its length, and once the length is
there, those of the payload too. -/
inductive NeedsBytes : Bytes → Nat → Prop
  | length {bs : Bytes} : bs ≠ [] → bs.length < lengthSize → NeedsBytes bs lengthSize
  | payload {size : Nat} (rest : Bytes) :
      size < 0x100000000 → NeedsBytes (lengthBytes size ++ rest) (lengthSize + size)

namespace NeedsBytes

theorem ne_nil {bs : Bytes} {needed : Nat} (h : NeedsBytes bs needed) : bs ≠ [] := by
  cases h with
  | length hne hlt => exact hne
  | payload rest hs => exact List.cons_ne_nil _ _

end NeedsBytes

namespace Splitter

/-- What is done with a buffer that begins with the bytes of a length. -/
theorem next_of_lengthBytes {s : Splitter} {size : Nat} {rest : Bytes} (hs : size < 0x100000000)
    (hb : s.buffer = lengthBytes size ++ rest) :
    s.next =
      if s.limit < size then .error (.tooLarge size s.limit)
      else if rest.length < size then .ok none
      else .ok (some (rest.take size, { s with buffer := rest.drop size })) := by
  have h := next_of_length (s := s) hb
  rw [lengthOf_byte hs] at h
  exact h

/-- What is taken stood at the front of the buffer as a frame. -/
theorem frame_of_next {s t : Splitter} {payload : Bytes} (h : s.next = .ok (some (payload, t))) :
    ∃ framed, frame payload = .ok framed ∧ s.buffer = framed ++ t.buffer := by
  have hlt : payload.length < 0x100000000 := by
    rcases buffer_cases s.buffer with hb | ⟨a, b, c, d, r, hb⟩
    · rw [next_of_short hb] at h
      cases h
    · rw [next_of_length hb] at h
      split_ifs at h
      · cases h
      · cases h
        exact Nat.lt_of_le_of_lt (List.length_take_le _ _) (lengthOf_lt a b c d)
  exact ⟨_, frame_eq_ok_iff.mpr ⟨hlt, rfl⟩, buffer_of_next h⟩

/-- A buffer in which no payload is found begins with no complete frame. -/
theorem not_startsWithFrame_of_next {s : Splitter} (h : s.next = .ok none) :
    ¬ StartsWithFrame s.buffer := by
  rintro ⟨payload, framed, hf, rest, hb⟩
  obtain ⟨hlt, rfl⟩ := frame_eq_ok_iff.mp hf
  rw [List.append_assoc] at hb
  rw [next_of_lengthBytes hlt hb.symm] at h
  split_ifs at h with hlimit hshort
  · rw [List.length_append] at hshort
    omega
  · cases h

/-- A buffer is refused for the length at its front alone. -/
theorem lengthBytes_of_next {s : Splitter} {e : FrameError} (h : s.next = .error e) :
    ∃ size rest, s.buffer = lengthBytes size ++ rest ∧ s.limit < size ∧ e = .tooLarge size s.limit := by
  rcases buffer_cases s.buffer with hb | ⟨a, b, c, d, r, hb⟩
  · rw [next_of_short hb] at h
    cases h
  · rw [next_of_length hb] at h
    split_ifs at h with hlimit
    · cases h
      exact ⟨_, r, by rw [hb, lengthBytes_lengthOf]; rfl, hlimit, rfl⟩

/-- At the end nothing waits, or the front of a frame, which is told with the bytes that are there. -/
theorem finish_cases (s : Splitter) :
    s.buffer = [] ∧ s.finish = .ok () ∨
      ∃ needed, NeedsBytes s.buffer needed ∧
        s.finish = .error (.truncated needed s.buffer.length) := by
  rcases hb : s.buffer with _ | ⟨a, _ | ⟨b, _ | ⟨c, _ | ⟨d, r⟩⟩⟩⟩ <;> unfold finish <;> rw [hb]
  · exact Or.inl ⟨rfl, rfl⟩
  · exact Or.inr ⟨_, .length (List.cons_ne_nil _ _) (by simp [lengthSize]), rfl⟩
  · exact Or.inr ⟨_, .length (List.cons_ne_nil _ _) (by simp [lengthSize]), rfl⟩
  · exact Or.inr ⟨_, .length (List.cons_ne_nil _ _) (by simp [lengthSize]), rfl⟩
  · have hneeds := NeedsBytes.payload r (lengthOf_lt a b c d)
    rw [lengthBytes_lengthOf] at hneeds
    refine Or.inr ⟨_, hneeds, ?_⟩
    exact congrArg (fun n => Except.error (FrameError.truncated _ n)) (Nat.add_comm lengthSize r.length)

theorem finish_eq_ok_iff (s : Splitter) : s.finish = .ok () ↔ s.buffer = [] := by
  rcases s.finish_cases with ⟨hb, hf⟩ | ⟨needed, hneeds, hf⟩
  · exact iff_of_true hf hb
  · exact iff_of_false (by rw [hf]; nofun) hneeds.ne_nil

theorem needsBytes_of_finish {s : Splitter} {e : FrameError} (h : s.finish = .error e) :
    ∃ needed, NeedsBytes s.buffer needed ∧ e = .truncated needed s.buffer.length := by
  rcases s.finish_cases with ⟨-, hf⟩ | ⟨needed, hneeds, hf⟩ <;> rw [hf] at h <;> cases h
  exact ⟨needed, hneeds, rfl⟩

theorem frames_eq (s : Splitter) :
    s.frames =
      match s.next with
      | .error e => ([], some e, s)
      | .ok none => ([], none, s)
      | .ok (some (payload, t)) => (payload :: t.frames.1, t.frames.2) := by
  rw [frames]
  split
  · next e h => rw [h]
  · next h => rw [h]
  · next payload t h =>
    conv => rhs; rw [h]

/-- What is taken in one go stood at the front of the buffer, one frame after the other. -/
theorem frame_of_frames (s : Splitter) :
    ∃ framed, s.frames.1.mapM frame = .ok framed ∧
      s.buffer = framed.flatten ++ s.frames.2.2.buffer := by
  induction hn : s.buffer.length using Nat.strongRecOn generalizing s with
  | ind n ih =>
    rw [frames_eq]
    cases hs : s.next with
    | error e => exact ⟨[], rfl, rfl⟩
    | ok found =>
      cases found with
      | none => exact ⟨[], rfl, rfl⟩
      | some found =>
        obtain ⟨payload, t⟩ := found
        obtain ⟨framed, hf, hb⟩ := frame_of_next hs
        obtain ⟨more, hm, ht⟩ := ih _ (hn ▸ buffer_lt_of_next hs) t rfl
        refine ⟨framed :: more, ?_, ?_⟩
        · rw [List.mapM_cons, hf, ok_bind, hm, ok_bind]
          rfl
        · rw [hb, List.flatten_cons, List.append_assoc]
          exact congrArg (framed ++ ·) ht

/-- What a splitter may be asked for. -/
inductive Call
  | feed (bs : Bytes)
  /-- The next payload. -/
  | next
  /-- All complete payloads in one go. -/
  | frames
  /-- An iteration over the complete payloads begins. It takes nothing before it is resumed. -/
  | iterate
  /-- The iteration that was the n-th to begin takes its next payload. -/
  | resume (n : Nat)
  | finish
deriving DecidableEq, Repr

/-- The bytes that a call feeds. -/
def Call.bytes : Call → Bytes
  | feed bs => bs
  | _ => []

end Splitter

/-! ### Calls in a row -/

/-- A splitter in use. -/
structure Splitting where
  splitter : Splitter
  /-- The payloads that were taken, in order. -/
  taken : List Bytes := []
  /-- For each iteration that began, whether it may be resumed: one that found no payload is over. -/
  iterations : List Bool := []

namespace Splitting

/-- The next payload is taken if there is one. The second component says whether there was. -/
def take (u : Splitting) : Splitting × Bool :=
  match u.splitter.next with
  | .ok (some (payload, t)) => ({ u with splitter := t, taken := u.taken ++ [payload] }, true)
  | _ => (u, false)

/-- What a call does. -/
def act (u : Splitting) : Splitter.Call → Splitting
  | .feed bs => { u with splitter := u.splitter.feed bs }
  | .next => u.take.1
  | .frames =>
    let (payloads, _, t) := u.splitter.frames
    { u with splitter := t, taken := u.taken ++ payloads }
  | .iterate => { u with iterations := u.iterations ++ [true] }
  | .resume n =>
    if u.iterations[n]? = some true then
      { u.take.1 with iterations := u.iterations.set n u.take.2 }
    else u
  | .finish => u

/-- A new splitter, and what the calls do one after the other. -/
def run (limit : Int) (calls : List Splitter.Call) : Splitting :=
  calls.foldl act { splitter := { limit } }

/-- The bytes are the frames of what was taken, and behind them what waits. -/
def Conserves (u : Splitting) (fed : Bytes) : Prop :=
  ∃ framed, u.taken.mapM frame = .ok framed ∧ framed.flatten ++ u.splitter.buffer = fed

/-- What may be relied on after some bytes were fed. -/
structure IsFaithful (u : Splitting) (fed : Bytes) : Prop where
  conserves : u.Conserves fed
  /-- No payload is found only if none is complete. -/
  waits : u.splitter.next = .ok none → ¬ StartsWithFrame u.splitter.buffer
  /-- A payload is refused only if its length is there and is more than the limit. -/
  refuses : ∀ e, u.splitter.next = .error e →
    ∃ size rest, u.splitter.buffer = lengthBytes size ++ rest ∧ u.splitter.limit < size ∧
      e = .tooLarge size u.splitter.limit
  finishes : u.splitter.finish = .ok () ↔ u.splitter.buffer = []
  /-- Otherwise the bytes that are there are told, and those that the frame needs. -/
  reports : ∀ e, u.splitter.finish = .error e →
    ∃ needed, NeedsBytes u.splitter.buffer needed ∧ e = .truncated needed u.splitter.buffer.length

namespace Conserves

variable {u : Splitting} {fed : Bytes}

theorem append_nil (h : u.Conserves fed) : u.Conserves (fed ++ []) := by rwa [List.append_nil]

/-- Payloads are taken whose frames stood at the front of the buffer. -/
theorem took (h : u.Conserves fed) {t : Splitter} {payloads framed : List Bytes}
    (hf : payloads.mapM frame = .ok framed) (hb : u.splitter.buffer = framed.flatten ++ t.buffer)
    (iterations : List Bool) :
    (Splitting.mk t (u.taken ++ payloads) iterations).Conserves fed := by
  obtain ⟨before, hbefore, rfl⟩ := h
  refine ⟨before ++ framed, ?_, ?_⟩
  · rw [List.mapM_append, hbefore, ok_bind, hf, ok_bind]
    rfl
  · rw [List.flatten_append, List.append_assoc, hb]

theorem take (h : u.Conserves fed) : u.take.1.Conserves fed := by
  unfold Splitting.take
  split
  · next payload t hn =>
    obtain ⟨framed, hf, hb⟩ := Splitter.frame_of_next hn
    have hone : [payload].mapM frame = .ok [framed] := by
      rw [List.mapM_cons, hf]
      rfl
    exact h.took hone (by rw [hb, List.flatten_singleton]) u.iterations
  · exact h

/-- One call keeps the account. -/
theorem act (h : u.Conserves fed) (call : Splitter.Call) :
    (u.act call).Conserves (fed ++ call.bytes) := by
  cases call with
  | feed bs =>
    obtain ⟨framed, hf, rfl⟩ := h
    exact ⟨framed, hf, (List.append_assoc _ _ _).symm⟩
  | next => exact h.take.append_nil
  | frames =>
    obtain ⟨framed, hf, hb⟩ := u.splitter.frame_of_frames
    exact (h.took hf hb u.iterations).append_nil
  | iterate => exact h.append_nil
  | resume n =>
    unfold Splitting.act
    dsimp only
    split_ifs
    · exact h.take.append_nil
    · exact h.append_nil
  | finish => exact h.append_nil

/-- Calls in a row keep the account. -/
theorem foldl_act : ∀ {u : Splitting} {fed : Bytes} (calls : List Splitter.Call),
    u.Conserves fed →
      (calls.foldl Splitting.act u).Conserves (fed ++ calls.flatMap Splitter.Call.bytes)
  | _, _, [], h => by rwa [List.flatMap_nil, List.append_nil]
  | _, _, call :: calls, h => by
    rw [List.flatMap_cons, ← List.append_assoc]
    exact (h.act call).foldl_act calls

end Conserves

/-- **A splitter conserves bytes**, whatever it is asked for and in whatever order. -/
theorem isFaithful_run (limit : Int) (calls : List Splitter.Call) :
    (run limit calls).IsFaithful (calls.flatMap Splitter.Call.bytes) := by
  have hstart : Conserves { splitter := { limit } } [] := ⟨[], rfl, rfl⟩
  exact {
    conserves := hstart.foldl_act calls
    waits := Splitter.not_startsWithFrame_of_next
    refuses := fun _ => Splitter.lengthBytes_of_next
    finishes := Splitter.finish_eq_ok_iff _
    reports := fun _ => Splitter.needsBytes_of_finish }

end Splitting

end LogStream
