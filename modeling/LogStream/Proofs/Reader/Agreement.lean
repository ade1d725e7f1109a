import Mathlib
import LogStream.Proofs.Reader.Contents

/-! # Readers agree

A stream that comes piece by piece and one that is all there are read by two loops. They ask the
client whether to go on a different number of times, and they count what is missing at the end in
different places. Both hand the same records over in the same order and come to the same end
(`readChunks_agrees_readFed`), for every client that nobody but itself tells to give up.

The records that are handed over are kept by a client that stands between the reader and the client
proper (`Client.recorded`). It changes nothing of the reading: a map of states that goes through the
answers of a client goes through the whole reading (`readWhole_map`). -/

namespace LogStream

variable {σ τ ε : Type}

/-! ### Maps of states -/

def Progress.map (f : τ → σ) (p : Progress τ) : Progress σ := { p with client := f p.client }

def Reading.map (f : τ → σ) (r : Reading τ ε) : Reading σ ε := ⟨r.progress.map f, r.failure⟩

def Step.map (f : τ → σ) : Step τ ε → Step σ ε
  | .done r => .done (r.map f)
  | .go p => .go (p.map f)

/-- A client answers as another one does whose state is a part of its own. -/
structure Client.Answers (c : Client τ ε) (f : τ → σ) (d : Client σ ε) : Prop where
  cancelled {st st' stop} :
    c.cancelled st = (stop, st') → d.cancelled (f st) = (stop, f st')
  take {st st' record reply notices} :
    c.take st record = (reply, notices, st') → d.take (f st) record = (reply, notices, f st')

namespace Client.Answers

variable {c : Client τ ε} {d : Client σ ε} {f : τ → σ}

theorem poll_map (h : c.Answers f d) (p : Progress τ) : d.poll (p.map f) = (c.poll p).map f := by
  rcases hk : c.cancelled p.client with ⟨stop, client⟩
  have hd : d.cancelled (p.map f).client = (stop, f client) := h.cancelled hk
  unfold poll
  rw [hk, hd]
  cases stop <;> rfl

theorem deliver_map (h : c.Answers f d) (p : Progress τ) (notesStop : Bool) (payload : Bytes) :
    d.deliver (p.map f) notesStop payload = (c.deliver p notesStop payload).map f := by
  unfold deliver
  rw [h.poll_map]
  cases c.poll p with
  | done r => rfl
  | go q =>
    dsimp only [Step.map]
    cases Record.decode payload with
    | error e => rfl
    | ok record =>
      rcases ht : c.take q.client record with ⟨reply, notices, client⟩
      have hd : d.take (q.map f).client record = (reply, notices, f client) := h.take ht
      simp only [hd, ht]
      cases reply with
      | next => rfl
      | fail e => rfl
      | stop => cases notesStop <;> rfl

/-- **A map that goes through the answers of a client goes through its readings.** -/
theorem readWhole_map (h : c.Answers f d) (limit : Int) (p : Progress τ) (bs : Bytes) :
    readWhole d limit (p.map f) bs = (readWhole c limit p bs).map f := by
  induction hn : bs.length using Nat.strongRecOn generalizing p bs with
  | ind n ih =>
    have hc := readWhole_eq c p { limit, buffer := bs }
    have hd := readWhole_eq d (p.map f) { limit, buffer := bs }
    dsimp only at hc hd
    rw [hc, hd, h.poll_map]
    cases c.poll p with
    | done r => rfl
    | go q =>
      dsimp only [Step.map]
      cases hs : ({ limit, buffer := bs } : Splitter).next with
      | error e => rfl
      | ok found =>
        cases found with
        | none => rfl
        | some found =>
          obtain ⟨payload, t⟩ := found
          have hlt := Splitter.buffer_lt_of_next hs
          have hl := Splitter.limit_of_next hs
          dsimp only at hl hlt ⊢
          rw [h.deliver_map]
          cases c.deliver q false payload with
          | done r => rfl
          | go q' => rw [hl]; exact ih _ (hn ▸ hlt) q' t.buffer rfl

end Client.Answers

/-! ### Records that are handed over -/

namespace Client

/-- The client, and behind it the records that were handed over to it. -/
def recorded (c : Client σ ε) : Client (σ × List Record) ε where
  cancelled st := ((c.cancelled st.1).1, (c.cancelled st.1).2, st.2)
  take st record :=
    ((c.take st.1 record).1, (c.take st.1 record).2.1, (c.take st.1 record).2.2, st.2 ++ [record])

/-- To keep the records changes nothing. -/
theorem answers_recorded (c : Client σ ε) : c.recorded.Answers Prod.fst c where
  cancelled h := by cases h; rfl
  take h := by cases h; rfl

theorem IsSteady.recorded {c : Client σ ε} (hc : c.IsSteady) : c.recorded.IsSteady :=
  fun st => Prod.ext (hc st.1) rfl

end Client

/-- The records that are handed over from a source of chunks. -/
def recordsOfChunks (c : Client σ ε) (client : σ) (size : Nat) (limit : Int)
    (chunks : List Bytes) : List Record :=
  (readChunks c.recorded (client, []) size limit chunks).progress.client.2

/-- The records that are handed over from a stream that is fed with chunks. -/
def recordsOfFed (c : Client σ ε) (client : σ) (limit : Int) (chunks : List Bytes) : List Record :=
  (readFed c.recorded (client, []) limit chunks).progress.client.2

/-- Nothing is cut into pieces without bytes but nothing. -/
theorem ne_nil_of_mem_cut {size : Nat} (hs : size ≠ 0) {bs : Bytes} (hb : bs ≠ []) :
    ∀ piece ∈ cut size bs, piece ≠ [] := by
  intro piece hp
  rw [cut] at hp
  split at hp
  · rw [List.mem_singleton] at hp
    exact hp ▸ hb
  · next h =>
    obtain ⟨-, hlt⟩ := not_or.mp h
    rcases List.mem_cons.mp hp with rfl | hp
    · exact fun h => (List.take_eq_nil_iff.mp h).elim hs hb
    · refine ne_nil_of_mem_cut hs ?_ piece hp
      exact List.ne_nil_of_length_pos (by rw [List.length_drop]; omega)
termination_by bs.length
decreasing_by simp only [List.length_drop]; omega

/-- All bytes of a source come in if none of its chunks is empty. -/
theorem received_pieces {size : Nat} (hs : size ≠ 0) {chunks : List Bytes} (hc : [] ∉ chunks) :
    received (pieces size chunks) = chunks.flatten := by
  have hp : ∀ piece ∈ pieces size chunks, piece ≠ [] := by
    rw [pieces, if_neg hs]
    intro piece hp
    obtain ⟨chunk, hchunk, hp⟩ := List.mem_flatMap.mp hp
    exact ne_nil_of_mem_cut hs (fun h => hc (h ▸ hchunk)) piece hp
  unfold received
  rw [List.takeWhile_eq_self_iff.mpr (by simpa using hp), flatten_pieces hs]

/-- A source of chunks is read to the end that a stream comes to which is fed with the same
bytes. -/
theorem ending_readChunks {c : Client σ ε} (hc : c.IsSteady) {size : Nat} (hs : size ≠ 0)
    {chunks fed : List Bytes} (hn : [] ∉ chunks) (hb : chunks.flatten = fed.flatten) (limit : Int)
    (client : σ) :
    (readChunks c client size limit chunks).ending = (readFed c client limit fed).ending := by
  unfold readChunks readFed
  rw [ending_readPieces hc, received_pieces hs hn, List.nil_append, hb]
  exact ending_readWhole_congr c (by rfl) { limit, buffer := fed.flatten }

/-- The reading behind `recordsOfFed` is the one of the client. -/
theorem readFed_recorded (c : Client σ ε) (client : σ) (limit : Int) (fed : List Bytes) :
    (readFed c.recorded (client, []) limit fed).map Prod.fst = readFed c client limit fed :=
  (c.answers_recorded.readWhole_map limit { client := (client, []) } fed.flatten).symm

/-! ### What is handed over is the front of the contents -/

/-- How far a reader has come after a step. -/
def Step.progress : Step σ ε → Progress σ
  | .done r => r.progress
  | .go p => p

/-- The records that were kept, and how many were counted. -/
def Progress.kept (p : Progress (σ × List Record)) : List Record × Nat := (p.client.2, p.count)

namespace Client

theorem kept_poll (c : Client σ ε) (p : Progress (σ × List Record)) :
    (c.recorded.poll p).progress.kept = p.kept := by
  unfold poll recorded
  dsimp only
  cases (c.cancelled p.client.1).1 <;> rfl

/-- Nothing is kept of a payload that is not handed over, and its record of one that is. -/
theorem kept_deliver (c : Client σ ε) (p : Progress (σ × List Record)) (payload : Bytes) :
    (∃ r, c.recorded.deliver p false payload = .done r ∧ r.progress.kept = p.kept) ∨
      ∃ record, Record.decode payload = .ok record ∧
        (c.recorded.deliver p false payload).progress.kept =
          (p.kept.1 ++ [record], p.kept.2 + 1) := by
  have hk := c.kept_poll p
  cases hp : c.recorded.poll p with
  | done r =>
    rw [hp] at hk
    exact Or.inl ⟨r, by unfold deliver; rw [hp], hk⟩
  | go q =>
    rw [hp] at hk
    have hk : q.kept = p.kept := hk
    cases hd : Record.decode payload with
    | error e =>
      exact Or.inl ⟨⟨q, some (.payload e)⟩, by unfold deliver; simp only [hp, hd], hk⟩
    | ok record =>
      refine Or.inr ⟨record, rfl, ?_⟩
      rcases ht : c.recorded.take q.client record with ⟨reply, notices, client⟩
      have hc : client.2 = q.client.2 ++ [record] := by cases ht; rfl
      unfold deliver
      simp only [hp, hd, ht]
      rw [← hk]
      cases reply <;> simp [Step.progress, Progress.kept, Progress.note, hc]

end Client

theorem contents_of_decode {limit : Int} {a b d e : UInt8} {rest : Bytes} {record : Record}
    (hl : ¬ limit < lengthOf a b d e) (hr : ¬ rest.length < lengthOf a b d e)
    (hd : Record.decode (rest.take (lengthOf a b d e)) = .ok record) :
    contents limit (a :: b :: d :: e :: rest) =
      (record :: (contents limit (rest.drop (lengthOf a b d e))).1,
        (contents limit (rest.drop (lengthOf a b d e))).2) := by
  rw [contents]
  simp only [if_neg hl, if_neg hr, hd]

/-- **What is handed over is the front of the contents**, and each record is counted. -/
theorem exists_prefix_readWhole (c : Client σ ε) (limit : Int) (bs : Bytes)
    (p : Progress (σ × List Record)) : ∃ taken, taken <+: (contents limit bs).1 ∧
      (readWhole c.recorded limit p bs).progress.kept =
        (p.kept.1 ++ taken, p.kept.2 + taken.length) := by
  have hnone {p : Progress (σ × List Record)} {k : List Record × Nat} {all : List Record}
      (h : k = p.kept) :
      ∃ taken, taken <+: all ∧ k = (p.kept.1 ++ taken, p.kept.2 + taken.length) :=
    ⟨[], List.nil_prefix, by rw [h, List.append_nil]; rfl⟩
  induction hn : bs.length using Nat.strongRecOn generalizing bs p with
  | ind n ih =>
    have hk := c.kept_poll p
    rw [readWhole]
    cases hp : c.recorded.poll p with
    | done r => rw [hp] at hk; exact hnone hk
    | go q =>
      rw [hp] at hk
      have hk : q.kept = p.kept := hk
      rw [← hk]
      dsimp only
      split
      · next a b d e rest =>
        split_ifs with hl hr
        · exact hnone rfl
        · exact hnone rfl
        rcases c.kept_deliver q (rest.take (lengthOf a b d e)) with
          ⟨r, hdone, hkept⟩ | ⟨record, hd, hkept⟩
        · rw [hdone]; exact hnone hkept
        · rw [contents_of_decode hl hr hd]
          cases hs : c.recorded.deliver q false (rest.take (lengthOf a b d e)) with
          | done r =>
            rw [hs] at hkept
            exact ⟨[record], List.prefix_append [record] _, hkept⟩
          | go q' =>
            rw [hs] at hkept
            have hkept : q'.kept = (q.kept.1 ++ [record], q.kept.2 + 1) := hkept
            have hlt : (rest.drop (lengthOf a b d e)).length < n := by
              subst hn
              simp only [List.length_drop, List.length_cons]
              omega
            obtain ⟨taken, hpre, ht⟩ := ih _ hlt _ q' rfl
            refine ⟨record :: taken, List.cons_prefix_cons.mpr ⟨rfl, hpre⟩, ?_⟩
            rw [hkept, List.append_assoc, Nat.add_assoc, Nat.add_comm 1] at ht
            exact ht
      · exact hnone rfl
      · exact hnone rfl

/-- The records of a stream that is fed are handed over from its front on, and each is counted. -/
theorem recordsOfFed_prefix (c : Client σ ε) (client : σ) (limit : Int) (fed : List Bytes) :
    recordsOfFed c client limit fed <+: (contents limit fed.flatten).1 ∧
      (readFed c client limit fed).progress.count = (recordsOfFed c client limit fed).length := by
  obtain ⟨taken, hpre, hk⟩ :=
    exists_prefix_readWhole c limit fed.flatten { client := (client, []) }
  have hrecords : recordsOfFed c client limit fed = taken := congrArg Prod.fst hk
  have hcount : (readFed c.recorded (client, []) limit fed).progress.count = taken.length :=
    (congrArg Prod.snd hk).trans (Nat.zero_add _)
  rw [hrecords, ← hcount, ← readFed_recorded]
  exact ⟨hpre, rfl⟩

/-! ### Agreement -/

/-- **The two readers agree**: the same records are handed over in the same order, and the same
count and the same failure are left at the end. -/
theorem readChunks_agrees_readFed {c : Client σ ε} (hc : c.IsSteady) {size : Nat} (hs : size ≠ 0)
    {chunks fed : List Bytes} (hn : [] ∉ chunks) (hb : chunks.flatten = fed.flatten) (limit : Int)
    (client : σ) :
    recordsOfChunks c client size limit chunks = recordsOfFed c client limit fed ∧
      (readChunks c client size limit chunks).ending = (readFed c client limit fed).ending := by
  have hr := ending_readChunks hc.recorded hs hn hb limit (client, [])
  exact ⟨congrArg (·.1.1.2) hr, ending_readChunks hc hs hn hb limit client⟩

/-- A client that tells the reader to give up once it has a number of records. -/
def Client.upTo (n : Nat) : Client Nat Empty where
  cancelled st := (decide (n ≤ st), st)
  take st _ := (.next, [], st + 1)

theorem readChunks_agrees_readFed_upTo :
    let chunks : List Bytes := [[0], [0, 0, 0, 0, 0, 0], [0, 0, 0, 1]]
    let fed : List Bytes := [[0, 0, 0, 0], [0, 0, 0, 0, 0, 0, 1]]
    (recordsOfChunks (Client.upTo 2) 0 3 10 chunks = recordsOfFed (Client.upTo 2) 0 10 fed ∧
      (readChunks (Client.upTo 2) 0 3 10 chunks).ending =
        (readFed (Client.upTo 2) 0 10 fed).ending) ∧
    (readFed (Client.upTo 2) 0 10 fed).ending = ((2, 2), some .cancelled) ∧
    (readFed (Client.upTo 3) 0 10 fed).ending = ((2, 2), some (.frame (.truncated 4 3))) := by
  refine ⟨readChunks_agrees_readFed (fun _ => rfl) (by decide) (by decide) (by decide) 10 0, ?_, ?_⟩
  · cbv
  · cbv

end LogStream
