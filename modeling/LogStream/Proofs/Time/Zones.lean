import LogStream.Proofs.Text.Runs
import LogStream.Proofs.Time.Iso

/-! # Names of zones

A zone of less than a day is named by a sign, its hours and its minutes, and is read from this name
(`Zone.read_name`). Its wall clock is that of UTC put forward by the offset (`Time.inZone?_of_utc`). -/

namespace LogStream

/-- A field of digits is read as its number. -/
theorem Text.readInt?_padded {width n : Nat} (hpos : 0 < width) (hwidth : width ≤ Text.maxDigits)
    (h : n < 10 ^ width) : Text.readInt? (Time.padded width n) = some (n : Int) := by
  obtain ⟨ds, hds, hpadded⟩ := Time.exists_isField width hpos h
  have hdigits := Decimal.mapM_decimal?_digitText hds.lt
  have hlength : (Decimal.digitText ds).length = width := (List.length_map _).trans hds.length
  have hne : Decimal.digitText ds ≠ [] := List.ne_nil_of_length_pos (by omega)
  rw [hpadded, Text.readInt?_eq hdigits hne, if_neg (by omega), hds.number]

/-- A field of digits has no other characters of ASCII. -/
theorem Text.is_of_mem_padded {width n : Nat} (hpos : 0 < width) (h : n < 10 ^ width) {ch : Char}
    (hch : ch.toNat < 48 ∨ 57 < ch.toNat ∧ ch.toNat < 128) : ∀ c ∈ Time.padded width n, c.is ch = false := by
  obtain ⟨ds, hds, hpadded⟩ := Time.exists_isField width hpos h
  have hdigits := Decimal.mapM_decimal?_digitText hds.lt
  rw [hpadded]
  intro c hc
  obtain ⟨d, hd⟩ := Text.exists_value_of_mem hdigits c hc
  exact Text.is_of_decimal? hd hch

namespace Zone

/-- A number with a sign. -/
def signed (negative : Bool) (n : Nat) : Int := if negative then -n else n

def sign (negative : Bool) : CodePoint := CodePoint.ofChar (if negative then '-' else '+')

theorem isIn_sign (negative : Bool) : (sign negative).isIn "+-" = true := by
  cases negative <;> decide

theorem is_sign (negative : Bool) : (sign negative).is '-' = negative := by
  cases negative <;> decide

/-- The name of a zone: a sign, the hours, a colon and the minutes, with two digits each. -/
def name (negative : Bool) (hours minutes : Nat) : Text :=
  sign negative :: (Time.padded 2 hours ++ CodePoint.ofChar ':' :: Time.padded 2 minutes)

section

variable {hours minutes : Nat}

/-- Less than a day is a duration in both directions. -/
theorem exists_ofMicros? {n : Int} (h : n.natAbs < minutesPerDay) :
    ∃ d d' : Duration, Duration.ofMicros? (n * (60 * microsPerSecond : Nat)) = some d ∧ d.neg? = some d' := by
  have hday : (microsPerDay : Int) = 86400000000 := rfl
  have hminute : ((60 * microsPerSecond : Nat) : Int) = 60000000 := rfl
  have hminutes : minutesPerDay = 1440 := rfl
  rw [hminute]
  exact ⟨⟨n * 60000000, by omega⟩, ⟨-(n * 60000000), by omega⟩, dif_pos _, dif_pos _⟩

/-- Hours and minutes of less than a day are an offset. -/
theorem offset_eq (negative : Bool) {hours minutes : Int} (h : (hours * 60 + minutes).natAbs < minutesPerDay) :
    offset negative hours minutes = .ok (if negative then -(hours * 60 + minutes) else hours * 60 + minutes) := by
  obtain ⟨d, d', hd, hneg⟩ := exists_ofMicros? h
  unfold offset
  dsimp only
  rw [hd]
  dsimp only
  cases negative with
  | false => exact if_pos h
  | true =>
    have hboth : (if true = true then d.neg? else some d) = some d' := hneg
    rw [hboth]
    exact if_pos h

theorem readOffset_padded (negative : Bool) (hhours : hours < 100) (hminutes : minutes < 100) :
    readOffset negative (Time.padded 2 hours ++ CodePoint.ofChar ':' :: Time.padded 2 minutes) =
      offset negative hours minutes := by
  have hrun : (Time.padded 2 hours ++ CodePoint.ofChar ':' :: Time.padded 2 minutes).takeWhile (!·.is ':') =
      Time.padded 2 hours := by
    refine Text.takeWhile_append (fun c hc => ?_) fun c hc => ?_
    · rw [Text.is_of_mem_padded (by decide) hhours (by decide) c hc]
      rfl
    · obtain rfl := Option.some.inj hc
      rfl
  unfold readOffset
  dsimp only
  rw [hrun, List.drop_append, List.drop_eq_nil_of_le (Nat.le_add_right _ _), Nat.add_sub_cancel_left,
    List.drop_succ_cons, List.drop_zero, List.nil_append, Text.readInt?_padded (by decide) (by decide) hhours,
    Text.readInt?_padded (by decide) (by decide) hminutes]

/-- **A zone is read from its name.** -/
theorem read_name (negative : Bool) (hminutes : minutes < 100) (h : hours * 60 + minutes < minutesPerDay) :
    read (name negative hours minutes) = .ok (signed negative (hours * 60 + minutes)) := by
  have hday : minutesPerDay = 1440 := rfl
  have hcolon : (Time.padded 2 hours ++ CodePoint.ofChar ':' :: Time.padded 2 minutes).any (·.is ':') = true :=
    List.any_eq_true.mpr ⟨CodePoint.ofChar ':', List.mem_append_right _ List.mem_cons_self, by decide⟩
  have hread := readOffset_padded negative (by omega : hours < 100) hminutes
  rw [offset_eq negative (by omega)] at hread
  unfold read name
  dsimp only
  rw [isIn_sign, is_sign, hcolon, hread]
  rfl

end

end Zone

/-! ### Times in zones -/

namespace Time

/-- The instant lies in the years 1 to 9999. -/
def InYears (i : Int) : Prop := 0 ≤ i + epochWall ∧ i + epochWall < wallLimit

instance (i : Int) : Decidable (InYears i) := inferInstanceAs (Decidable (_ ∧ _))

theorem ofWall?_of_inYears {i : Int} (h : InYears i) :
    ∃ w : Fin wallLimit, ∀ offset, ofWall? (i + epochWall) offset = some ⟨w, offset⟩ := by
  obtain ⟨hlow, hhigh⟩ := h
  have hlt : (i + epochWall).toNat < wallLimit := by omega
  refine ⟨⟨_, hlt⟩, fun offset => ?_⟩
  unfold ofWall?
  rw [dif_pos hlt, if_pos hlow]

theorem ofWall?_of_not_inYears {i : Int} (h : ¬ InYears i) (offset : Option Int) :
    ofWall? (i + epochWall) offset = none := by
  unfold InYears at h
  unfold ofWall?
  split
  · exact if_neg (by omega)
  · rfl

/-- A time in UTC is not moved there. -/
theorem inZone?_zero {t : Time} (hutc : t.offset = some 0) : t.inZone? 0 = some t := by
  obtain ⟨wall, offset⟩ := t
  obtain rfl : offset = some 0 := hutc
  unfold inZone? ofWall?
  rw [toUtc?_of_utc rfl, Option.bind_some, Int.zero_mul, Int.add_zero, dif_pos (by simp), if_pos (by omega)]
  rfl

/-- **In a zone the wall clock shows what it shows in UTC later by the offset.** -/
theorem inZone?_of_utc {t : Time} (hutc : t.offset = some 0) {minutes : Int} {d : Duration}
    (hd : d.micros = minutes * (60 * microsPerSecond : Nat)) :
    if InYears (t.instant + d.micros) then
      ∃ w : Fin wallLimit, t.inZone? minutes = some ⟨w, some minutes⟩ ∧ t.add? d = some ⟨w, some 0⟩
    else t.inZone? minutes = none ∧ t.add? d = none := by
  have hwall : (t.wall.val : Int) + d.micros = t.instant + d.micros + epochWall := by
    unfold instant
    rw [hutc, Option.getD_some]
    omega
  unfold inZone? add?
  rw [toUtc?_of_utc hutc, Option.bind_some, ← hd, hwall, hutc]
  split
  · next h =>
    obtain ⟨w, hw⟩ := ofWall?_of_inYears h
    exact ⟨w, hw _, hw _⟩
  · next h => exact ⟨ofWall?_of_not_inYears h _, ofWall?_of_not_inYears h _⟩

end Time

end LogStream
