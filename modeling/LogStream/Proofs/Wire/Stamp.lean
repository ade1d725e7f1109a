import LogStream.Proofs.Wire.Member
import LogStream.Wire.Decode
import LogStream.Wire.Encode

/-! # Stamps of times and durations

A time that is written as a stamp is read back as the time in UTC of the same instant
(`toTime?_of_ofTime?`), before 1970 too, where its seconds are negative and its nanoseconds are not.
A duration is read back as it was (`toDuration?_ofDuration`); its seconds and nanoseconds have one
sign. -/

namespace LogStream

namespace Time

/-- A wall clock reading is one of the years 1 to 9999. -/
theorem ofWall?_eq_some {wall : Int} {offset : Option Int} {t : Time}
    (h : ofWall? wall offset = some t) : t.offset = offset ∧ (t.wall.val : Int) = wall := by
  unfold ofWall? at h
  split at h
  · split at h
    · cases h
      exact ⟨rfl, Int.toNat_of_nonneg ‹_›⟩
    · cases h
  · cases h

/-- **The time of an instant is in UTC and has this instant.** -/
theorem ofInstant?_eq_some {i : Int} {t : Time} (h : ofInstant? i = some t) :
    t.offset = some 0 ∧ t.instant = i := by
  obtain ⟨ho, hw⟩ := ofWall?_eq_some h
  refine ⟨ho, ?_⟩
  unfold instant
  rw [ho, Option.getD_some, hw]
  omega

/-- A time in UTC lies in the years 1 to 9999 as an instant. -/
theorem instant_bounds {t : Time} (h : t.offset = some 0) :
    -62135596800000000 ≤ t.instant ∧ t.instant < 253402300800000000 := by
  have hlt := t.wall.isLt
  have hlimit : wallLimit = 315537897600000000 := by decide
  have hepoch : epochWall = 62135596800000000 := by decide
  unfold instant
  rw [h, Option.getD_some]
  omega

end Time

theorem Duration.ofMicros?_micros (d : Duration) : Duration.ofMicros? d.micros = some d := by
  unfold Duration.ofMicros?
  rw [dif_pos d.inRange]

namespace Wire.Stamp

theorem microsPerSecond_eq : (microsPerSecond : Int) = 1000000 := rfl

/-- The stamp of an instant. -/
theorem ofTime?_eq_some {t : Time} {s : Stamp} (h : ofTime? t = some s) :
    ∃ u : Time, t.toUtc? = some u ∧ s.seconds = u.instant / 1000000 ∧
      s.nanos = u.instant % 1000000 * 1000 := by
  unfold ofTime? at h
  obtain ⟨u, hu, rfl⟩ := Option.map_eq_some_iff.mp h
  refine ⟨u, hu, ?_, ?_⟩
  · exact Int.fdiv_eq_ediv_of_nonneg _ (by decide)
  · exact congrArg (· * 1000) (Int.fmod_eq_emod_of_nonneg _ (by decide))

theorem fits_of_ofTime? {t : Time} {s : Stamp} (h : ofTime? t = some s) : s.Fits := by
  obtain ⟨u, hu, hs, hn⟩ := ofTime?_eq_some h
  have hb := Time.instant_bounds (Time.ofInstant?_eq_some hu).1
  constructor <;> omega

/-- **A time is read back as the time in UTC of the same instant.** -/
theorem toTime?_of_ofTime? {t : Time} {s : Stamp} (h : ofTime? t = some s) :
    ∃ u : Time, s.toTime? = some u ∧ u.offset = some 0 ∧ u.instant = t.instant := by
  obtain ⟨u, hu, hs, hn⟩ := ofTime?_eq_some h
  obtain ⟨ho, hi⟩ := Time.ofInstant?_eq_some hu
  have hb := Time.instant_bounds ho
  refine ⟨u, ?_, ho, hi⟩
  have hinstant : s.seconds * microsPerSecond + s.nanos / 1000 = t.instant := by
    rw [microsPerSecond_eq]
    omega
  unfold toTime?
  rw [if_pos (by omega), hinstant]
  exact hu

theorem fits_ofDuration (d : Duration) : (ofDuration d).Fits := by
  have hr := d.inRange
  have hday : (microsPerDay : Int) = 86400000000 := rfl
  have hsum := Int.tdiv_mul_add_tmod d.micros 1000000
  have hlow := Int.lt_tmod_of_pos d.micros (b := 1000000) (by decide)
  have hhigh := Int.tmod_lt_of_pos d.micros (b := 1000000) (by decide)
  unfold ofDuration
  rw [microsPerSecond_eq]
  constructor
  · dsimp only; omega
  · dsimp only; omega

/-- **A duration is read back as it was.** -/
theorem toDuration?_ofDuration (d : Duration) : (ofDuration d).toDuration? = some d := by
  unfold toDuration? ofDuration
  dsimp only
  rw [Int.mul_tdiv_cancel _ (by decide), Int.tdiv_mul_add_tmod, Duration.ofMicros?_micros]

end Wire.Stamp

end LogStream
