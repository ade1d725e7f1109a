import LogStream.Proofs.Reader.Chunks
import Mathlib.Data.List.Forall2

/-! # The contents of a stream

`contents` reads the records off the bytes of a stream: frame by frame, until nothing is left or
something is wrong. A reader that is not told to give up hands over exactly these records and comes
to the same end, however the bytes arrive (`recordsRead_eq_contents`). The contents of frames that
were written one after the other are their records, and nothing is wrong behind them
(`contents_frames`). -/

namespace LogStream

/-- The records of a stream and what is wrong behind them, if anything is. -/
def contents (limit : Int) : Bytes → List Record × Option (ReadFailure Empty)
  | [] => ([], none)
  | a :: b :: c :: d :: rest =>
    let size := lengthOf a b c d
    if limit < size then ([], some (.frame (.tooLarge size limit)))
    else if rest.length < size then
      ([], some (.frame (.truncated (lengthSize + size) (lengthSize + rest.length))))
    else
      match Record.decode (rest.take size) with
      | .error e => ([], some (.payload e))
      | .ok record =>
        let behind := contents limit (rest.drop size)
        (record :: behind.1, behind.2)
  | bs => ([], some (.frame (.truncated lengthSize bs.length)))
termination_by bs => bs.length
decreasing_by simp only [List.length_drop, List.length_cons]; omega

/-- A client that keeps the records and always goes on. -/
def Client.keeper : Client (List Record) Empty where
  cancelled kept := (false, kept)
  take kept record := (.next, [], kept ++ [record])

/-- The records that a reader hands over that is not told to give up, and what stops it. -/
def recordsRead (limit : Int) (reads : List Bytes) : List Record × Option (ReadFailure Empty) :=
  let r := readPieces Client.keeper { limit } { client := [] } reads
  (r.progress.client, r.failure)

theorem Client.keeper_isSteady : keeper.IsSteady := fun _ => rfl

theorem Client.poll_keeper (p : Progress (List Record)) : keeper.poll p = .go p := rfl

theorem Client.deliver_keeper_error {payload : Bytes} {e : DecodeError}
    (h : Record.decode payload = .error e) (p : Progress (List Record)) :
    keeper.deliver p false payload = .done ⟨p, some (.payload e)⟩ := by
  unfold deliver
  rw [poll_keeper]
  simp only [h]

theorem Client.deliver_keeper_record {payload : Bytes} {record : Record}
    (h : Record.decode payload = .ok record) (p : Progress (List Record)) :
    ∃ q, keeper.deliver p false payload = .go q ∧ q.client = p.client ++ [record] ∧
      q.count = p.count + 1 := by
  unfold deliver
  rw [poll_keeper]
  simp only [h]
  exact ⟨_, rfl, rfl, rfl⟩

/-- All bytes leave their contents with a client that keeps them. -/
theorem ending_readWhole_keeper (limit : Int) (bs : Bytes) : ∀ p : Progress (List Record),
    (readWhole Client.keeper limit p bs).ending =
      ((p.client ++ (contents limit bs).1, p.count + (contents limit bs).1.length),
        (contents limit bs).2) := by
  fun_induction contents limit bs with
  | case1 =>
    intro p
    rw [readWhole, Client.poll_keeper]
    simp [Reading.ending, Progress.core]
  | case2 a b c d rest size h =>
    intro p
    rw [readWhole, Client.poll_keeper]
    simp [Reading.ending, Progress.core, size, h]
  | case3 a b c d rest size h h' =>
    intro p
    rw [readWhole, Client.poll_keeper]
    simp [Reading.ending, Progress.core, size, h, h']
  | case4 a b c d rest size h h' e he =>
    intro p
    rw [readWhole, Client.poll_keeper]
    simp only [size, if_neg h, if_neg h', Client.deliver_keeper_error he]
    simp [Reading.ending, Progress.core]
  | case5 a b c d rest size h h' record hr behind ih =>
    intro p
    obtain ⟨q, hq, hclient, hcount⟩ := Client.deliver_keeper_record hr p
    rw [readWhole, Client.poll_keeper]
    simp only [size, if_neg h, if_neg h', hq]
    rw [ih q, hclient, hcount, List.append_assoc, List.singleton_append, Nat.add_assoc,
      Nat.add_comm 1]
    rfl
  | case6 bs h h' =>
    intro p
    rw [readWhole, Client.poll_keeper]
    simp [Reading.ending, Progress.core]

/-- However they arrive, bytes leave their contents with a client that keeps them. -/
theorem ending_readPieces_keeper (limit : Int) (reads : List Bytes) :
    (readPieces Client.keeper { limit } { client := [] } reads).ending =
      (((contents limit (received reads)).1, (contents limit (received reads)).1.length),
        (contents limit (received reads)).2) := by
  rw [ending_readPieces Client.keeper_isSteady, ending_readWhole_keeper]
  simp only [List.nil_append, Nat.zero_add]

/-- **The records that are read are the contents of the stream**, however its bytes arrive. -/
theorem recordsRead_eq_contents (limit : Int) (reads : List Bytes) :
    recordsRead limit reads = contents limit (received reads) := by
  have he := ending_readPieces_keeper limit reads
  have hrecords := congrArg (fun e => e.1.1) he
  have hfailure := congrArg (fun e => e.2) he
  exact Prod.ext hrecords hfailure

/-! ### Streams of frames -/

theorem lengthBytes_append (n : Nat) (payload rest : Bytes) :
    lengthBytes n ++ payload ++ rest =
      byte n :: byte (n / 256) :: byte (n / 65536) :: byte (n / 16777216) :: (payload ++ rest) :=
  rfl

theorem contents_frame {limit : Int} {payload : Bytes} {record : Record}
    (hn : payload.length < 0x100000000) (hl : payload.length ≤ limit)
    (hr : Record.decode payload = .ok record) (rest : Bytes) :
    contents limit (lengthBytes payload.length ++ payload ++ rest) =
      (record :: (contents limit rest).1, (contents limit rest).2) := by
  rw [lengthBytes_append, contents]
  simp only [lengthOf_byte hn]
  rw [if_neg (by omega), if_neg (by simp), List.take_left, List.drop_left, hr]

/-- A frame whose payload is too long stops the reader. -/
theorem contents_frame_tooLarge {limit : Int} {payload : Bytes} (hn : payload.length < 0x100000000)
    (hl : limit < payload.length) (rest : Bytes) :
    contents limit (lengthBytes payload.length ++ payload ++ rest) =
      ([], some (.frame (.tooLarge payload.length limit))) := by
  rw [lengthBytes_append, contents]
  simp only [lengthOf_byte hn]
  rw [if_pos hl]

/-- A frame whose payload is no record stops the reader. -/
theorem contents_frame_refused {limit : Int} {payload : Bytes} {e : DecodeError}
    (hn : payload.length < 0x100000000) (hl : payload.length ≤ limit)
    (he : Record.decode payload = .error e) (rest : Bytes) :
    contents limit (lengthBytes payload.length ++ payload ++ rest) = ([], some (.payload e)) := by
  rw [lengthBytes_append, contents]
  simp only [lengthOf_byte hn]
  rw [if_neg (by omega), if_neg (by simp), List.take_left, he]

/-- **Frames that were written one after the other hold their records**, whatever stands behind
them. -/
theorem contents_frames_append (limit : Int) (rest : Bytes) : ∀ {payloads : List Bytes}
    {records : List Record}, List.Forall₂ (fun p r => p.length < 0x100000000 ∧
      (p.length : Int) ≤ limit ∧ Record.decode p = .ok r) payloads records →
      contents limit ((payloads.flatMap fun p => lengthBytes p.length ++ p) ++ rest) =
        (records ++ (contents limit rest).1, (contents limit rest).2)
  | _, _, .nil => by rw [List.flatMap_nil, List.nil_append, List.nil_append]
  | _, _, .cons ⟨hn, hl, hr⟩ h => by
    rw [List.flatMap_cons, List.append_assoc, contents_frame hn hl hr,
      contents_frames_append limit rest h, List.cons_append]

/-- **Frames that were written one after the other hold their records**, and nothing is wrong behind
them. -/
theorem contents_frames (limit : Int) {payloads : List Bytes} {records : List Record}
    (h : List.Forall₂ (fun p r => p.length < 0x100000000 ∧ (p.length : Int) ≤ limit ∧
      Record.decode p = .ok r) payloads records) :
    contents limit (payloads.flatMap fun p => lengthBytes p.length ++ p) = (records, none) := by
  have hc := contents_frames_append limit [] h
  rw [List.append_nil, contents, List.append_nil] at hc
  exact hc

end LogStream
