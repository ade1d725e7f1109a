import Mathlib
import LogStream.Proofs.Filter.Conversions.Numerals
import LogStream.Proofs.Time.Rounded

/-! # Conversions of durations

The texts that are converted to durations are those that are spelled as one and fit (`duration_of_text`); a run of signs
counts as its first one, though there should be one sign at most (`two_signs_are_taken`). A duration is written with six
digits and comes back just if these are enough for it (`duration_of_written_iff`), which they need not be
(`duration_is_rounded`). -/

namespace LogStream.Filter

open Duration (IsSpelling)

section

variable {env : Activation} {e : Expr}

/-- The conversion of a text reads it. -/
theorem eval_duration {t : Text} (he : eval env e = .ok (.string t)) (pos : Nat) :
    eval env (.call pos (Text.lit "duration") [e]) = (Dyn.readDuration t).map Dyn.duration := by
  have happly : Builtin.apply .toDuration [.string t] = (Dyn.readDuration t).map Dyn.duration := rfl
  rw [eval_conversion (f := .toDuration) rfl he, happly, Dyn.readDuration]
  cases Duration.read t with
  | ok d => rfl
  | error err => cases err <;> rfl

theorem eval_duration_eq_ok_iff {t : Text} (he : eval env e = .ok (.string t)) (pos : Nat) {d : Duration} :
    eval env (.call pos (Text.lit "duration") [e]) = .ok (.duration d) ↔ Duration.read t = .ok d := by
  rw [eval_duration he, Dyn.readDuration]
  constructor
  · intro h
    cases hread : Duration.read t with
    | ok d' =>
      rw [hread] at h
      cases h
      rfl
    | error err =>
      rw [hread] at h
      cases err <;> cases h
  · intro h
    rw [h]
    rfl

/-! ### Texts of durations -/

/-- **Just the texts that are spelled as a duration and fit are converted to it.** All others give an error: a malformed
one is named, and one that is out of range overflows. A minus sign in front of a text without a sign gives the negative
duration. -/
theorem duration_of_text {t : Text} (he : eval env e = .ok (.string t)) (pos : Nat) :
    (∀ d, eval env (.call pos (Text.lit "duration") [e]) = .ok (.duration d) ↔
      ∃ signs x, IsSpelling signs (Text.strip t) x ∧ Duration.ofSeconds? x = some d) ∧
    ((¬ ∃ signs x, IsSpelling signs (Text.strip t) x) →
      eval env (.call pos (Text.lit "duration") [e]) = Eval.fail (.badDuration t)) ∧
    (∀ signs x, IsSpelling signs (Text.strip t) x → Duration.ofSeconds? x = none →
      eval env (.call pos (Text.lit "duration") [e]) = Eval.stop .overflow) ∧
    ∀ (e' : Expr) (r : Text), eval env e' = .ok (.string r) → Text.strip t = CodePoint.ofChar '-' :: r →
      (∀ c ∈ r.head?, c.isIn "+-" = false ∧ c.isSpace = false) → ∀ d,
        (eval env (.call pos (Text.lit "duration") [e]) = .ok (.duration d) ↔
          ∃ d', eval env (.call pos (Text.lit "duration") [e']) = .ok (.duration d') ∧ d'.neg? = some d) := by
  refine ⟨fun d => ?_, fun h => ?_, fun signs x hx hd => ?_, fun e' r he' ht hr d => ?_⟩
  · rw [eval_duration_eq_ok_iff he, Duration.read_eq_ok_iff]
  · rw [eval_duration he, Dyn.readDuration, Duration.read_of_not_isSpelling h]
    rfl
  · rw [eval_duration he, Dyn.readDuration, Duration.read_of_isSpelling hx, hd]
    rfl
  · simp only [eval_duration_eq_ok_iff he, eval_duration_eq_ok_iff he', Duration.read_minus ht hr]

end

/-- One second with a minus sign. -/
theorem duration_of_minus_one_second : eval [] (.call 0 (Text.lit "duration") [.literal 0 (.string (Text.lit "-1s"))]) =
    .ok (.duration ⟨-1000000, by decide⟩) := by
  have hdigits : (Text.lit "1").mapM CodePoint.decimal? = some [1] := by decide
  have hunit : ("s", Double.ofInt 1) ∈ Duration.units := by simp [Duration.units]
  have hsum : Duration.IsSum (Double.zero false) (Text.lit "1" ++ (Text.lit "s" ++ [])) _ :=
    .cons (.digits hdigits (by decide)) hunit .nil
  have hsign : ∀ c ∈ Text.lit "-", c.isIn "+-" = true := List.forall_mem_singleton.mpr (by decide)
  exact ((duration_of_text rfl 0).1 _).mpr ⟨_, _, .mk hsign (.sum (by decide) hsum), by decide +kernel⟩

/-- **Two signs are taken**, though a duration is spelled with one at most. -/
theorem two_signs_are_taken :
    (∃ d, eval [] (.call 0 (Text.lit "duration") [.literal 0 (.string (Text.lit "--1s"))]) = .ok (.duration d)) ∧
      ¬ ∃ signs x, signs.length ≤ 1 ∧ IsSpelling signs (Text.strip (Text.lit "--1s")) x := by
  constructor
  · have hread : Duration.read (Text.lit "--1s") = .ok ⟨-1000000, by decide⟩ := by decide +kernel
    exact ⟨_, (eval_duration_eq_ok_iff rfl 0).mpr hread⟩
  · rintro ⟨signs, x, hlength, h⟩
    have htext : Text.strip (Text.lit "--1s") = Text.lit "--1s" := by decide
    rw [htext] at h
    generalize ht : Text.lit "--1s" = t at h
    obtain @⟨body, y, -, hbody⟩ := h
    have hminus : (CodePoint.ofChar '-').isIn "+-" = true := by decide
    -- With one sign at most the other one stands in front of what should have none.
    have hhead : CodePoint.ofChar '-' ∈ body.head? := by
      match signs, hlength with
      | [], _ =>
        have hbody : body = Text.lit "--1s" := ht.symm
        rw [hbody]
        rfl
      | [c], _ =>
        have hbody : body = Text.lit "-1s" := (List.cons.inj ht).2.symm
        rw [hbody]
        rfl
    rw [(hbody.head _ hhead).1] at hminus
    cases hminus

/-! ### Durations as text -/

section

variable {env : Activation} {e : Expr} {d : Duration}

theorem eval_string_duration (he : eval env e = .ok (.duration d)) (pos : Nat) :
    eval env (.call pos (Text.lit "string") [e]) = .ok (.string d.toText) := by
  have hwrite : Builtin.apply .toString [.duration d] = .ok (.string d.toText) := rfl
  rw [eval_conversion (f := .toString) rfl he, hwrite]
  rfl

/-- **A duration comes back from its text just if six digits are enough for it.** -/
theorem duration_of_written_iff (he : eval env e = .ok (.duration d)) (pos pos' : Nat) :
    eval env (.call pos (Text.lit "duration") [.call pos' (Text.lit "string") [e]]) = .ok (.duration d) ↔
      Duration.IsWritten d.micros.natAbs := by
  rw [eval_duration_eq_ok_iff (eval_string_duration he pos'), Duration.read_toText_iff]

end

/-- A minute and a half comes back. -/
theorem duration_of_written_minute : eval [(Text.lit "d", .duration ⟨90000000, by decide⟩)]
    (.call 0 (Text.lit "duration") [.call 0 (Text.lit "string") [.ident 0 (Text.lit "d")]]) =
      .ok (.duration ⟨90000000, by decide⟩) :=
  (duration_of_written_iff rfl 0 0).mpr (.inr ⟨by decide, by decide, 9, by decide, 7, by decide⟩)

/-- **A duration of seven digits does not come back.** -/
theorem duration_is_rounded : eval [(Text.lit "d", .duration ⟨1234567, by decide⟩)]
    (.call 0 (Text.lit "duration") [.call 0 (Text.lit "string") [.ident 0 (Text.lit "d")]]) ≠
      .ok (.duration ⟨1234567, by decide⟩) := by
  rw [ne_eq, eval_duration_eq_ok_iff (eval_string_duration rfl 0), Duration.read_toText_iff]
  change ¬ Duration.IsWritten 1234567
  rintro (h | ⟨-, -, k, hk, j, h⟩)
  · cases h
  · cases j with
    | zero => omega
    | succ j =>
      rw [Nat.pow_succ, ← Nat.mul_assoc] at h
      omega

end LogStream.Filter
