import LogStream.Proofs.Reader.Moments
import LogStream.Proofs.Reader.Splitting

/-! # Buffering is bounded

However hostile a stream is, a splitter never holds more than the longest payload that is taken, one piece
and three bytes (`isBounded_readPieces`). A splitter that finds no payload holds less than its frame needs,
and a frame that is too long is refused as soon as its length is there (`Splitter.length_buffer_of_next`).
Then alone a piece is read (`Piecewise.not_startsWithFrame_of_reads`), and it is added to what is held. The
number of pieces does not matter, so the bound holds for a source without an end as well. -/

namespace LogStream

variable {σ ε : Type}

/-- A splitter that finds no payload lacks a byte at least of a length, or of a payload that may be taken. -/
theorem Splitter.length_buffer_of_next {s : Splitter} (hl : 0 ≤ s.limit) (h : s.next = .ok none) :
    (s.buffer.length : Int) ≤ s.limit + 3 := by
  rcases buffer_cases s.buffer with hb | ⟨a, b, c, d, r, hb⟩
  · unfold lengthSize at hb
    omega
  · rw [next_of_length hb] at h
    split_ifs at h with hlimit hshort
    · rw [hb]
      simp only [List.length_cons]
      omega
    · cases h

namespace Piecewise

/-- A splitter with the given limit that holds no more than it should, and pieces of no more than a size. -/
structure IsBounded (limit : Int) (size : Nat) (a : Piecewise) : Prop where
  limit_eq : a.splitter.limit = limit
  buffer_le : (a.splitter.buffer.length : Int) ≤ limit + size + 3
  pieces_le : ∀ piece ∈ a.pieces, piece.length ≤ size

/-- A piece is read only if no complete frame is held. -/
theorem not_startsWithFrame_of_reads {a : Piecewise} {p : Progress σ}
    (h : (Manner.pieces.search a p).reads ≠ []) : ¬ StartsWithFrame a.splitter.buffer := by
  unfold Manner.pieces at h
  dsimp only at h
  split at h
  · exact absurd rfl h
  · exact absurd rfl h
  · next hs => exact Splitter.not_startsWithFrame_of_next hs

/-- A search leaves no more than it should. -/
theorem IsBounded.search {limit : Int} {size : Nat} (hl : 0 ≤ limit) {a rest : Piecewise}
    {p : Progress σ} (ha : a.IsBounded limit size)
    (h : (Manner.pieces.search a p).found.rest? = some rest) : rest.IsBounded limit size := by
  obtain ⟨hlimit, hbuffer, hpieces⟩ := ha
  unfold Manner.pieces at h
  dsimp only at h
  split at h
  · cases h
  · next payload t hs =>
    cases h
    have hlt := Splitter.buffer_lt_of_next hs
    exact ⟨(Splitter.limit_of_next hs).trans hlimit, by dsimp only; omega, hpieces⟩
  · next hs =>
    split at h
    · cases h
    · next piece pieces hp =>
      split_ifs at h
      · cases h
      · cases h
        rw [hp] at hpieces
        have hshort := Splitter.length_buffer_of_next (hlimit ▸ hl) hs
        have hpiece := hpieces piece List.mem_cons_self
        refine ⟨hlimit, ?_, fun piece hm => hpieces piece (List.mem_cons_of_mem _ hm)⟩
        dsimp only
        rw [Splitter.buffer_feed, List.length_append]
        omega

end Piecewise

/-- What holds at each moment of a reading whose payloads and pieces have at most the given lengths. -/
structure Moment.IsBounded (c : Client σ ε) (limit : Int) (size : Nat) (m : Moment Piecewise σ ε) :
    Prop where
  holds : ∀ a, m.supply? = some a → (a.splitter.buffer.length : Int) ≤ limit + size + 3
  /-- The source is not asked for bytes while a complete frame is held. -/
  reads : ∀ a sizes payload? m', m.supply? = some a →
    m.next c .pieces = some (.searched sizes payload?, m') → sizes ≠ [] →
      ¬ StartsWithFrame a.splitter.buffer

/-- **Buffering is bounded** at every moment of a reading, and the moments lead to its end. -/
theorem isBounded_readPieces (c : Client σ ε) (p : Progress σ) {limit : Int} (hl : 0 ≤ limit)
    {size : Nat} {reads : List Bytes} (hr : ∀ piece ∈ reads, piece.length ≤ size) :
    (∀ n, ((Moment.turn ⟨{ limit }, reads⟩ p).after c .pieces n).2.IsBounded c limit size) ∧
      (Moment.turn ⟨{ limit }, reads⟩ p).Leads c .pieces (.closed (readPieces c { limit } p reads)) := by
  refine ⟨fun n => ⟨fun a ha => ?_, fun a sizes payload? m' ha hn hne => ?_⟩, leads_readPieces ..⟩
  · have hstart : (Piecewise.mk { limit } reads).IsBounded limit size :=
      ⟨rfl, by simp only [List.length_nil]; omega, hr⟩
    exact (Moment.supply_induction hstart (Piecewise.IsBounded.search hl) n a ha).buffer_le
  · cases hm : ((Moment.turn ⟨{ limit }, reads⟩ p).after c .pieces n).2 with
    | looking b q =>
      rw [hm] at ha hn
      cases ha
      cases hn
      exact Piecewise.not_startsWithFrame_of_reads hne
    | turn _ _ | holding _ _ _ | decoding _ _ _ | handing _ _ _ | closed _ => rw [hm] at hn; cases hn

/-- A client that takes every record. -/
def Client.patient : Client Unit Empty := ⟨fun st => (false, st), fun st _ => (.next, [], st)⟩

/-- Where payloads have at most one byte, and each piece three: four bytes that are a length, then a piece. -/
def Piecewise.slow : Piecewise := ⟨{ limit := 1 }, [[1, 0, 0], [0], [7, 7, 7]]⟩

/-- The bound is attained: after two turns, in which the length came, and the third piece seven bytes are
held. -/
theorem isBounded_readPieces_slow :
    ((0 : Int) ≤ 1 ∧ ∀ piece ∈ Piecewise.slow.pieces, piece.length ≤ 3) ∧
      ((Moment.turn Piecewise.slow { client := () }).after .patient .pieces 6).2.IsBounded .patient 1 3 ∧
        ((Moment.turn Piecewise.slow { client := () }).after .patient .pieces 6).2.supply?.map
          (·.splitter.buffer.length) = some 7 :=
  ⟨⟨by decide, by decide⟩, (isBounded_readPieces .patient _ (by decide) (by decide)).1 6, rfl⟩

end LogStream
