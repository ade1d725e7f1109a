import Mathlib
import LogStream.Proofs.Filter.Conversions.Numerals
import LogStream.Proofs.Time.Iso

/-! # Conversions of timestamps

A timestamp in UTC is written as a text that is read as the timestamp (`timestamp_of_text`), and as an integer it
is the greatest number of seconds that is not later (`int_of_timestamp`). A number of seconds within the years 1 to
9999 is a timestamp of this number, and any other is none (`timestamp_of_int`). -/

namespace LogStream.Filter

/-- The number of seconds since the start of 1970 lies in the years 1 to 9999. -/
def IsSecond (n : Int) : Prop := -62135596800 ≤ n ∧ n ≤ 253402300799

instance (n : Int) : Decidable (IsSecond n) := inferInstanceAs (Decidable (_ ∧ _))

/-- The whole seconds of an instant are the greatest number of seconds that is not later. -/
theorem isGreatest_fdiv (i : Int) : IsGreatest {n : Int | n * microsPerSecond ≤ i} (Int.fdiv i microsPerSecond) := by
  have hdiv : Int.fdiv i microsPerSecond = i / 1000000 := Int.fdiv_eq_ediv_of_nonneg _ (by decide)
  rw [hdiv, Wire.Stamp.microsPerSecond_eq]
  constructor
  · change i / 1000000 * 1000000 ≤ i
    omega
  · intro n hn
    change n * 1000000 ≤ i at hn
    omega

/-- There is a time of a number of seconds just if they lie in the years 1 to 9999. -/
theorem ofInstant?_second (n : Int) : if IsSecond n then
    ∃ t : Time, Time.ofInstant? (n * microsPerSecond) = some t ∧ t.offset = some 0 ∧
      t.instant = n * microsPerSecond
    else Time.ofInstant? (n * microsPerSecond) = none := by
  have hlimit : wallLimit = 315537897600000000 := by decide
  have hepoch : epochWall = 62135596800000000 := by decide
  split
  · next h =>
    unfold IsSecond at h
    obtain ⟨t, ht⟩ : ∃ t, Time.ofInstant? (n * microsPerSecond) = some t := by
      unfold Time.ofInstant? Time.ofWall?
      rw [Wire.Stamp.microsPerSecond_eq, dif_pos (by omega), if_pos (by omega)]
      exact ⟨_, rfl⟩
    exact ⟨t, ht, Time.ofInstant?_eq_some ht⟩
  · next h =>
    unfold IsSecond at h
    unfold Time.ofInstant? Time.ofWall?
    rw [Wire.Stamp.microsPerSecond_eq]
    split
    · rw [if_neg (by omega)]
    · rfl

section

variable {env : Activation} {e : Expr}

/-- **The text of a timestamp in UTC is read as the timestamp.** -/
theorem timestamp_of_text {t : Time} (he : eval env e = .ok (.timestamp t)) (hutc : t.offset = some 0)
    (pos pos' : Nat) :
    eval env (.call pos (Text.lit "timestamp") [.call pos' (Text.lit "string") [e]]) = .ok (.timestamp t) := by
  obtain ⟨text, htext, hread⟩ := Iso.read_isoUtc? hutc
  have hstring : eval env (.call pos' (Text.lit "string") [e]) = .ok (.string text) := by
    have hwrite : Builtin.apply .toString [.timestamp t] = .ok (.string text) := by
      change (Dyn.text (.timestamp t)).map Dyn.string = _
      rw [Dyn.text, htext]
      rfl
    rw [eval_conversion (f := .toString) rfl he, hwrite]
    rfl
  have htimestamp : Builtin.apply .toTimestamp [.string text] = .ok (.timestamp t) := by
    change (Dyn.readTimestamp text).map Dyn.timestamp = _
    rw [Dyn.readTimestamp, hread]
    rfl
  rw [eval_conversion (f := .toTimestamp) rfl hstring, htimestamp]
  rfl

/-- A timestamp as an integer is its whole seconds. -/
theorem int_of_timestamp {t : Time} (he : eval env e = .ok (.timestamp t)) (hutc : t.offset = some 0) (pos : Nat) :
    eval env (.call pos (Text.lit "int") [e]) = .ok (.int (Int.fdiv t.instant microsPerSecond)) := by
  have hbounds := Time.instant_bounds hutc
  have hdiv : Int.fdiv t.instant microsPerSecond = t.instant / 1000000 :=
    Int.fdiv_eq_ediv_of_nonneg _ (by decide)
  have hint : Builtin.apply .toInt [.timestamp t] = .ok (.int (Int.fdiv t.instant microsPerSecond)) := by
    change Dyn.toInt _ = _
    rw [Dyn.toInt, Dyn.signed, Dyn.wholeNumber, ok_bind, if_pos]
    · rfl
    · rw [hdiv, int64Min, int64Max]
      omega
  rw [eval_conversion (f := .toInt) rfl he, hint]
  rfl

/-- A number of seconds in the years 1 to 9999 is a timestamp in UTC of this number, and no other number is a
timestamp. -/
theorem timestamp_of_int {n : Int} (he : eval env e = .ok (.int n)) (pos : Nat) :
    if IsSecond n then
      ∃ t : Time, eval env (.call pos (Text.lit "timestamp") [e]) = .ok (.timestamp t) ∧ t.offset = some 0 ∧
        t.instant = n * microsPerSecond
    else eval env (.call pos (Text.lit "timestamp") [e]) = Eval.stop .overflow := by
  have happly : Builtin.apply .toTimestamp [.int n] =
      (Time.ofInstant? (n * microsPerSecond)).elim (Eval.stop .overflow) fun t => .ok (.timestamp t) := rfl
  have htime := ofInstant?_second n
  rw [eval_conversion (f := .toTimestamp) rfl he, happly]
  split
  · next h =>
    rw [if_pos h] at htime
    obtain ⟨t, ht, hutc, hinstant⟩ := htime
    refine ⟨t, ?_, hutc, hinstant⟩
    rw [ht]
    rfl
  · next h =>
    rw [if_neg h] at htime
    rw [htime]
    rfl

end

/-- **Timestamps are converted to texts and to numbers of seconds, and back.** The text of a timestamp in UTC is
read as the timestamp; as an integer it is the greatest number of seconds that is not later. A number of seconds
is converted to a timestamp and back just if it lies in the years 1 to 9999. -/
theorem timestamps_convert (env : Activation) (e : Expr) (pos pos' : Nat) :
    (∀ t : Time, eval env e = .ok (.timestamp t) → t.offset = some 0 →
      eval env (.call pos (Text.lit "timestamp") [.call pos' (Text.lit "string") [e]]) = .ok (.timestamp t) ∧
      ∃ n, eval env (.call pos (Text.lit "int") [e]) = .ok (.int n) ∧
        IsGreatest {k : Int | k * microsPerSecond ≤ t.instant} n) ∧
    ∀ n : Int, eval env e = .ok (.int n) →
      if IsSecond n then
        (∃ t : Time, eval env (.call pos' (Text.lit "timestamp") [e]) = .ok (.timestamp t) ∧
          t.offset = some 0 ∧ t.instant = n * microsPerSecond) ∧
        eval env (.call pos (Text.lit "int") [.call pos' (Text.lit "timestamp") [e]]) = .ok (.int n)
      else eval env (.call pos' (Text.lit "timestamp") [e]) = Eval.stop .overflow := by
  refine ⟨fun t he hutc => ⟨timestamp_of_text he hutc pos pos', _, int_of_timestamp he hutc pos,
    isGreatest_fdiv _⟩, fun n he => ?_⟩
  have htimestamp := timestamp_of_int he pos'
  split
  · next h =>
    rw [if_pos h] at htimestamp
    obtain ⟨t, ht, hutc, hinstant⟩ := htimestamp
    refine ⟨⟨t, ht, hutc, hinstant⟩, ?_⟩
    rw [int_of_timestamp ht hutc, hinstant, Int.mul_fdiv_cancel _ (by decide)]
  · next h =>
    rw [if_neg h] at htimestamp
    exact htimestamp

/-- One microsecond before 1970 comes back from its text, and one second before it from its number. -/
theorem timestamps_convert_before_epoch :
    eval [(Text.lit "t", .timestamp ⟨⟨epochWall - 1, by decide⟩, some 0⟩)]
      (.call 0 (Text.lit "timestamp") [.call 0 (Text.lit "string") [.ident 0 (Text.lit "t")]]) =
        .ok (.timestamp ⟨⟨epochWall - 1, by decide⟩, some 0⟩) ∧
    eval [] (.call 0 (Text.lit "int") [.call 0 (Text.lit "timestamp") [.literal 0 (.int (-1))]]) =
      .ok (.int (-1)) := by
  refine ⟨((timestamps_convert _ _ 0 0).1 _ rfl rfl).1, ?_⟩
  have hsecond := (timestamps_convert [] (.literal 0 (.int (-1))) 0 0).2 (-1) rfl
  rw [if_pos (by decide)] at hsecond
  exact hsecond.2

end LogStream.Filter
