import LogStream.Proofs.Reader.Offer
import LogStream.Reader.Select

/-! # What is read through a filter

A callback behind a filter is handed the records that the program selects, in the order of the stream,
up to the record at which the reading ends (`readSelected_cases`). A reading ends at a record if the
callback stops or fails there, or if the program has an error on it that does not pass it over. If it
ends at none, it comes to the end of the contents and fails with what is wrong there. Nothing that
stands behind the record at which it ends is read, so nothing that is wrong there is noticed. -/

namespace LogStream

open LogStream.Filter (Program EvalError SelectError)

variable {σ ε : Type}

/-- What a callback says to a record, what it notes about it, and the state that it is left in. -/
abbrev Callback (σ ε : Type) := σ → Record → Reply ε × List Notice × σ

namespace Callback

/-- A callback for which a reader works until it is told to stop. -/
def client (take : Callback σ ε) : Client σ ε where
  cancelled st := (false, st)
  take := take

/-- The callback, and behind it the records that were handed to it. -/
def recorded (take : Callback σ ε) : Callback (σ × List Record) ε :=
  take.client.recorded.take

/-- The state of a callback that was handed records. -/
def stateAfter (take : Callback σ ε) (st : σ) (rs : List Record) : σ :=
  rs.foldl (fun st r => (take st r).2.2) st

variable (take : Callback σ ε) (p : Option Program) (policy : ErrorPolicy)

/-- Reading goes on behind a record: the program does not select it, or has an error on it and passes it
over, or the callback is handed it and goes on. -/
inductive GoesOn (st : σ) (r : Record) : Prop
  | rejected (h : Program.selects p r = .ok false)
  | skipped {e : EvalError} (h : Program.selects p r = .error (.eval e)) (hp : policy = .skip)
  | taken (h : Program.selects p r = .ok true) (ht : (take st r).1 = .next)

/-- Reading ends at a record, with a failure or without one. -/
inductive EndsAt (st : σ) (r : Record) : Option (SelectFailure ε) → Prop
  | stopped (h : Program.selects p r = .ok true) (ht : (take st r).1 = .stop) : EndsAt st r none
  | failed {e : ε} (h : Program.selects p r = .ok true) (ht : (take st r).1 = .fail e) :
    EndsAt st r (some (.client e))
  | refused {e : EvalError} (h : Program.selects p r = .error (.eval e)) (hp : policy = .stop) :
    EndsAt st r (some (.select (.eval e)))
  | broken {e : SelectError} (h : Program.selects p r = .error e) (he : ∀ x, e ≠ .eval x) :
    EndsAt st r (some (.select e))

end Callback

/-- The records that a program selects. -/
def chosen (p : Option Program) (rs : List Record) : List Record :=
  rs.filter fun r => (Program.selects p r).toOption = some true

theorem chosen_append (p : Option Program) (rs rs' : List Record) :
    chosen p (rs ++ rs') = chosen p rs ++ chosen p rs' :=
  List.filter_append ..

theorem chosen_cons (p : Option Program) (r : Record) (rs : List Record) :
    chosen p (r :: rs) = chosen p [r] ++ chosen p rs :=
  chosen_append p [r] rs

theorem chosen_of_eq {p : Option Program} {r : Record} (h : Program.selects p r = .ok true) :
    chosen p [r] = [r] := by
  simp [chosen, h, Except.toOption]

theorem chosen_of_ne {p : Option Program} {r : Record} (h : Program.selects p r ≠ .ok true) :
    chosen p [r] = [] := by
  cases hs : Program.selects p r with
  | error e => simp [chosen, hs, Except.toOption]
  | ok b =>
    have hb : b ≠ true := fun hb => h (hb ▸ hs)
    simp [chosen, hs, Except.toOption, hb]

namespace Callback

theorem stateAfter_append (take : Callback σ ε) (st : σ) (rs rs' : List Record) :
    stateAfter take st (rs ++ rs') = stateAfter take (stateAfter take st rs) rs' :=
  List.foldl_append ..

variable (take : Callback σ ε) (p : Option Program) (policy : ErrorPolicy)

/-- Reading goes on behind each of the records, of which the callback is handed those that are
selected. -/
def GoesThrough (st : σ) (rs : List Record) : Prop :=
  ∀ before r, before ++ [r] <+: rs → GoesOn take p policy (stateAfter take st (chosen p before)) r

variable {take p policy}

theorem goesThrough_nil (st : σ) : GoesThrough take p policy st [] := by
  intro before r h
  exact absurd (List.prefix_nil.mp h) (by simp)

theorem goesThrough_cons (st : σ) (r : Record) (rs : List Record) :
    GoesThrough take p policy st (r :: rs) ↔
      GoesOn take p policy st r ∧
        GoesThrough take p policy (stateAfter take st (chosen p [r])) rs := by
  constructor
  · intro h
    refine ⟨h [] r (by simp), fun before r' hpre => ?_⟩
    have := h (r :: before) r' (by simpa using hpre)
    rwa [chosen_cons, stateAfter_append] at this
  · rintro ⟨hr, hrs⟩ before r' hpre
    cases before with
    | nil =>
      obtain ⟨rfl, -⟩ := List.cons_prefix_cons.mp hpre
      exact hr
    | cons b before =>
      obtain ⟨rfl, hpre'⟩ := List.cons_prefix_cons.mp hpre
      rw [chosen_cons, stateAfter_append]
      exact hrs before r' hpre'

variable (take p policy)

theorem goesOn_or_endsAt (st : σ) (r : Record) :
    GoesOn take p policy st r ∨ ∃ why, EndsAt take p policy st r why := by
  cases hs : Program.selects p r with
  | error e =>
    cases e with
    | eval e =>
      cases hp : policy with
      | stop => exact .inr ⟨_, .refused hs rfl⟩
      | skip => exact .inl (.skipped hs rfl)
    | bind e => exact .inr ⟨_, .broken hs nofun⟩
    | fault f => exact .inr ⟨_, .broken hs nofun⟩
  | ok b =>
    cases b with
    | false => exact .inl (.rejected hs)
    | true =>
      cases ht : (take st r).1 with
      | next => exact .inl (.taken hs ht)
      | stop => exact .inr ⟨_, .stopped hs ht⟩
      | fail e => exact .inr ⟨_, .failed hs ht⟩

/-- Reading goes through all records of a list, or ends at one of them. -/
theorem goesThrough_or_endsAt (rs : List Record) : ∀ st : σ,
    GoesThrough take p policy st rs ∨
      ∃ passed r why, passed ++ [r] <+: rs ∧ GoesThrough take p policy st passed ∧
        EndsAt take p policy (stateAfter take st (chosen p passed)) r why := by
  induction rs with
  | nil => exact fun st => .inl (goesThrough_nil st)
  | cons r rs ih =>
    intro st
    rcases goesOn_or_endsAt take p policy st r with hr | ⟨why, hr⟩
    · rcases ih (stateAfter take st (chosen p [r])) with hrs | ⟨passed, r', why, hpre, hgo, hend⟩
      · exact .inl ((goesThrough_cons st r rs).mpr ⟨hr, hrs⟩)
      · refine .inr ⟨r :: passed, r', why, List.cons_prefix_cons.mpr ⟨rfl, hpre⟩,
          (goesThrough_cons st r passed).mpr ⟨hr, hgo⟩, ?_⟩
        rwa [chosen_cons, stateAfter_append]
    · exact .inr ⟨[], r, why, by simp, goesThrough_nil st, hr⟩

variable {take p policy}

/-! ### Offers to a callback behind a filter -/

/-- What a callback behind a filter says to a record with which reading goes on. -/
theorem GoesOn.take_select {st : σ} {r : Record} (h : GoesOn take p policy st r) :
    ∃ notices, (take.client.select p policy).take st r =
      (.next, notices, stateAfter take st (chosen p [r])) := by
  unfold Client.select
  cases h with
  | rejected h => exact ⟨_, by simp only [h, chosen_of_ne (r := r) (by rw [h]; nofun)]; rfl⟩
  | skipped h hp =>
    exact ⟨_, by simp only [h, hp, chosen_of_ne (r := r) (by rw [h]; nofun)]; rfl⟩
  | taken h ht =>
    exact ⟨_, by simp only [h, chosen_of_eq h, client, ht]; rfl⟩

/-- What a callback behind a filter says to a record at which reading ends. -/
theorem EndsAt.take_select {st : σ} {r : Record} {why : Option (SelectFailure ε)}
    (h : EndsAt take p policy st r why) : ∃ reply notices,
      (take.client.select p policy).take st r =
        (reply, notices, stateAfter take st (chosen p [r])) ∧
      ∀ k : σ × Nat, reply.core k = .inl (k, why.map .client) := by
  unfold Client.select
  cases h with
  | stopped h ht =>
    exact ⟨_, _, by simp only [h, chosen_of_eq h, client, ht]; rfl, fun _ => rfl⟩
  | failed h ht =>
    exact ⟨_, _, by simp only [h, chosen_of_eq h, client, ht]; rfl, fun _ => rfl⟩
  | refused h hp =>
    exact ⟨_, _, by simp only [h, hp, chosen_of_ne (r := r) (by rw [h]; nofun)]; rfl,
      fun _ => rfl⟩
  | @broken e h he =>
    cases e with
    | eval x => exact absurd rfl (he x)
    | bind e =>
      exact ⟨_, _, by simp only [h, chosen_of_ne (r := r) (by rw [h]; nofun)]; rfl, fun _ => rfl⟩
    | fault f =>
      exact ⟨_, _, by simp only [h, chosen_of_ne (r := r) (by rw [h]; nofun)]; rfl, fun _ => rfl⟩

/-- An offer of records with which reading goes on is accepted as a whole. -/
theorem GoesThrough.offer_append (more : List Record) : ∀ {rs : List Record} {st : σ} {n : Nat},
    GoesThrough take p policy st rs →
      (take.client.select p policy).offer (st, n) (rs ++ more) =
        (take.client.select p policy).offer (stateAfter take st (chosen p rs), n + rs.length) more
  | [], st, n, _ => rfl
  | r :: rs, st, n, h => by
    obtain ⟨hr, hrs⟩ := (goesThrough_cons st r rs).mp h
    obtain ⟨notices, ht⟩ := hr.take_select
    rw [List.cons_append, Client.offer_cons, ht]
    dsimp only [Reply.core]
    rw [hrs.offer_append more, chosen_cons p r rs, stateAfter_append, List.length_cons, Nat.add_assoc,
      Nat.add_comm 1]

/-- An offer ends at the record at which reading ends. -/
theorem EndsAt.offer {passed : List Record} {r : Record} {why : Option (SelectFailure ε)} {st : σ}
    {n : Nat} (hgo : GoesThrough take p policy st passed)
    (hend : EndsAt take p policy (stateAfter take st (chosen p passed)) r why) :
    (take.client.select p policy).offer (st, n) (passed ++ [r]) =
      .inl ((stateAfter take st (chosen p (passed ++ [r])), n + passed.length + 1),
        why.map .client) := by
  obtain ⟨reply, notices, ht, hreply⟩ := hend.take_select
  rw [hgo.offer_append [r], Client.offer_cons, ht]
  dsimp only
  rw [hreply, chosen_append, stateAfter_append]

/-! ### The records that are handed over -/

theorem stateAfter_recorded (st : σ × List Record) (rs : List Record) :
    stateAfter take.recorded st rs = (stateAfter take st.1 rs, st.2 ++ rs) := by
  induction rs generalizing st with
  | nil => exact Prod.ext rfl (List.append_nil _).symm
  | cons r rs ih =>
    refine (ih _).trans (Prod.ext rfl ?_)
    exact List.append_assoc st.2 [r] rs

theorem GoesOn.recorded {st : σ × List Record} {r : Record} (h : GoesOn take p policy st.1 r) :
    GoesOn take.recorded p policy st r := by
  cases h with
  | rejected h => exact .rejected h
  | skipped h hp => exact .skipped h hp
  | taken h ht => exact .taken h ht

theorem EndsAt.recorded {st : σ × List Record} {r : Record} {why : Option (SelectFailure ε)}
    (h : EndsAt take p policy st.1 r why) : EndsAt take.recorded p policy st r why := by
  cases h with
  | stopped h ht => exact .stopped h ht
  | failed h ht => exact .failed h ht
  | refused h hp => exact .refused h hp
  | broken h he => exact .broken h he

theorem GoesThrough.recorded {st : σ × List Record} {rs : List Record}
    (h : GoesThrough take p policy st.1 rs) : GoesThrough take.recorded p policy st rs := by
  intro before r hpre
  refine GoesOn.recorded ?_
  rw [stateAfter_recorded]
  exact h before r hpre

end Callback

/-- Reads pieces for a callback behind a filter. -/
def readSelected (take : Callback σ ε) (p : Option Program) (policy : ErrorPolicy) (limit : Int)
    (st : σ) (notices : List Notice) (reads : List Bytes) : Reading σ (SelectFailure ε) :=
  readPieces (take.client.select p policy) { limit } { client := st, notices } reads

/-- The records that the callback behind the filter is handed. -/
def recordsSelected (take : Callback σ ε) (p : Option Program) (policy : ErrorPolicy) (limit : Int)
    (st : σ) (notices : List Notice) (reads : List Bytes) : List Record :=
  (readSelected take.recorded p policy limit (st, []) notices reads).progress.client.2

theorem Callback.neverCancelled_select (take : Callback σ ε) (p : Option Program)
    (policy : ErrorPolicy) : (take.client.select p policy).NeverCancelled := fun _ => rfl

section Ends

variable {take : Callback σ ε} {p : Option Program} {policy : ErrorPolicy} {limit : Int} {st : σ}
  {notices : List Notice} {reads : List Bytes}

theorem ending_readSelected (take : Callback σ ε) (p : Option Program) (policy : ErrorPolicy)
    (limit : Int) (st : σ) (notices : List Notice) (reads : List Bytes) :
    (readSelected take p policy limit st notices reads).ending =
      (take.client.select p policy).endOffer (st, 0) (contents limit (received reads)) :=
  ending_readPieces_of_offer (take.neverCancelled_select p policy) _ _ reads

/-- If reading goes on behind every record, it comes to the end of the contents. -/
theorem ending_readSelected_of_goesThrough
    (hgo : Callback.GoesThrough take p policy st (contents limit (received reads)).1) :
    (readSelected take p policy limit st notices reads).ending =
      ((take.stateAfter st (chosen p (contents limit (received reads)).1),
        (contents limit (received reads)).1.length),
        (contents limit (received reads)).2.map .ofStream) := by
  have hoffer := hgo.offer_append (n := 0) []
  rw [List.append_nil, Nat.zero_add] at hoffer
  rw [ending_readSelected, Client.endOffer, hoffer]
  rfl

variable {passed : List Record} {r : Record} {why : Option (SelectFailure ε)}

/-- If reading ends at a record, it ends there. -/
theorem ending_readSelected_of_endsAt
    (hpre : passed ++ [r] <+: (contents limit (received reads)).1)
    (hgo : Callback.GoesThrough take p policy st passed)
    (hend : Callback.EndsAt take p policy (take.stateAfter st (chosen p passed)) r why) :
    (readSelected take p policy limit st notices reads).ending =
      ((take.stateAfter st (chosen p (passed ++ [r])), passed.length + 1), why.map .client) := by
  have hoffer := Client.offer_of_isPrefix hpre (hend.offer (n := 0) hgo)
  rw [Nat.zero_add] at hoffer
  rw [ending_readSelected, Client.endOffer, hoffer]

/-- If reading ends at a record, the pieces are enough that hold it. -/
theorem readSelected_append_of_endsAt
    (hpre : passed ++ [r] <+: (contents limit (received reads)).1)
    (hgo : Callback.GoesThrough take p policy st passed)
    (hend : Callback.EndsAt take p policy (take.stateAfter st (chosen p passed)) r why) :
    (readSelected take p policy limit st notices reads).progress.reads <+:
        reads.map List.length ∧
      ∀ more, readSelected take p policy limit st notices (reads ++ more) =
        readSelected take p policy limit st notices reads :=
  readPieces_append_of_offer (take.neverCancelled_select p policy) (s := { limit })
    (p := { client := st, notices }) (Client.offer_of_isPrefix hpre (hend.offer hgo))

/-- The records that were handed over are read off the end of the reading that keeps them. -/
theorem recordsSelected_of_ending {rs : List Record} {n : Nat}
    {failure : Option (ReadFailure (SelectFailure ε))}
    (h : (readSelected take.recorded p policy limit (st, []) notices reads).ending =
      ((take.recorded.stateAfter (st, []) rs, n), failure)) :
    recordsSelected take p policy limit st notices reads = rs := by
  have hclient := congrArg (fun e => e.1.1.2) h
  dsimp only at hclient
  rw [Callback.stateAfter_recorded] at hclient
  exact hclient

end Ends

/-- **A callback behind a filter is handed the selected records of a front of the stream.** Reading goes
through all contents and ends with what is wrong behind them, or it ends at a record. In the second case
no piece is read behind those that hold this record, and what stands there is not noticed. -/
theorem readSelected_cases (take : Callback σ ε) (p : Option Program) (policy : ErrorPolicy)
    (limit : Int) (st : σ) (notices : List Notice) (reads : List Bytes) :
    ∃ passed, passed <+: (contents limit (received reads)).1 ∧
      Callback.GoesThrough take p policy st passed ∧
      ((passed = (contents limit (received reads)).1 ∧
          recordsSelected take p policy limit st notices reads = chosen p passed ∧
          (readSelected take p policy limit st notices reads).ending =
            ((take.stateAfter st (chosen p passed), passed.length),
              (contents limit (received reads)).2.map .ofStream)) ∨
        ∃ r why, passed ++ [r] <+: (contents limit (received reads)).1 ∧
          Callback.EndsAt take p policy (take.stateAfter st (chosen p passed)) r why ∧
          recordsSelected take p policy limit st notices reads = chosen p (passed ++ [r]) ∧
          (readSelected take p policy limit st notices reads).ending =
            ((take.stateAfter st (chosen p (passed ++ [r])), passed.length + 1),
              why.map .client) ∧
          ∀ front behind, reads = front ++ behind →
            passed ++ [r] <+: (contents limit (received front)).1 →
            (readSelected take p policy limit st notices reads).progress.reads <+:
                front.map List.length ∧
              ∀ other, readSelected take p policy limit st notices (front ++ other) =
                readSelected take p policy limit st notices reads) := by
  rcases Callback.goesThrough_or_endsAt take p policy (contents limit (received reads)).1 st
    with hgo | ⟨passed, r, why, hpre, hgo, hend⟩
  · refine ⟨_, List.prefix_rfl, hgo, .inl ⟨rfl, ?_, ending_readSelected_of_goesThrough hgo⟩⟩
    exact recordsSelected_of_ending (ending_readSelected_of_goesThrough hgo.recorded)
  · have hend' : Callback.EndsAt take.recorded p policy
        (take.recorded.stateAfter (st, []) (chosen p passed)) r why := by
      refine Callback.EndsAt.recorded ?_
      rw [Callback.stateAfter_recorded]
      exact hend
    refine ⟨passed, (List.prefix_append ..).trans hpre, hgo, .inr ⟨r, why, hpre, hend, ?_,
      ending_readSelected_of_endsAt hpre hgo hend, ?_⟩⟩
    · exact recordsSelected_of_ending (ending_readSelected_of_endsAt hpre hgo.recorded hend')
    · rintro front behind rfl hfront
      obtain ⟨hreads, hmore⟩ := readSelected_append_of_endsAt hfront hgo hend
      rw [hmore behind]
      exact ⟨hreads, hmore⟩

end LogStream
