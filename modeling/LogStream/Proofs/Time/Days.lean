import Mathlib.Algebra.BigOperators.Group.List.Basic
import Mathlib.Data.List.GetD
import Mathlib.Data.Nat.Init
import LogStream.Proofs.Time.Calendar

/-! # Days one after another

The day number of a date that exists tells the date (`ofDay_toDay`), and the next date has the next number
(`toDay_next`). So every way to count days from one date to the next gives differences of day numbers
(`CountsDays.count_eq`), and `dayNumber` is the one that starts with 1970. -/

namespace LogStream.Date

/-- The year has the month and the month has the day, whatever the year. -/
structure IsReal (d : Date) : Prop where
  year : 1 ≤ d.year
  month : 1 ≤ d.month ∧ d.month ≤ 12
  day : 1 ≤ d.day ∧ d.day ≤ monthLength d.year d.month

theorem isReal_ofDay (n : Nat) : (ofDay n).IsReal := by
  obtain ⟨hyear, -, -, hmonth, hmonth', hday, hday', -⟩ := ofDay_spec n
  exact ⟨hyear, ⟨hmonth, hmonth'⟩, hday, hday'⟩

theorem isValid_iff {d : Date} : d.isValid = true ↔ d.IsReal ∧ d.year ≤ 9999 := by
  unfold isValid
  simp only [Bool.and_eq_true, decide_eq_true_eq]
  constructor
  · rintro ⟨⟨⟨⟨⟨hyear, hlast⟩, hmonth⟩, hmonth'⟩, hday⟩, hday'⟩
    exact ⟨⟨hyear, ⟨hmonth, hmonth'⟩, hday, hday'⟩, hlast⟩
  · rintro ⟨⟨hyear, ⟨hmonth, hmonth'⟩, hday, hday'⟩, hlast⟩
    exact ⟨⟨⟨⟨⟨hyear, hlast⟩, hmonth⟩, hmonth'⟩, hday⟩, hday'⟩

/-! ### Day numbers -/

section

variable {d e : Date} {month month' : Nat}

/-- A month is followed by the next one after its length. -/
theorem daysBeforeMonth_succ (year : Nat) (hpos : 1 ≤ month) (hle : month ≤ 12) :
    daysBeforeMonth year (month + 1) = daysBeforeMonth year month + monthLength year month := by
  have hlt : month - 1 < (monthLengths year).length := by
    rw [length_monthLengths]
    omega
  have hsum := List.sum_take_succ (monthLengths year) (month - 1) hlt
  unfold daysBeforeMonth monthLength
  rw [List.getD_eq_getElem _ _ hlt, show month + 1 - 1 = month - 1 + 1 by omega]
  exact hsum

theorem daysBeforeMonth_mono (year : Nat) (hpos : 1 ≤ month) (h : month ≤ month') (hle : month' ≤ 13) :
    daysBeforeMonth year month ≤ daysBeforeMonth year month' := by
  induction month', h using Nat.le_induction with
  | base => exact Nat.le_refl _
  | succ k hk ih =>
    have hlast := daysBeforeMonth_succ year (by omega : 1 ≤ k) (by omega)
    have hle := ih (by omega)
    omega

/-- Behind the last month the next year starts. -/
theorem daysBeforeYear_add_daysBeforeMonth {year : Nat} (h : 1 ≤ year) :
    daysBeforeYear year + daysBeforeMonth year 13 = daysBeforeYear (year + 1) := by
  rw [daysBeforeYear_succ h, ← sum_monthLengths]
  rfl

/-- A day lies in its month. -/
theorem IsReal.toDay_bounds (h : d.IsReal) : daysBeforeYear d.year + daysBeforeMonth d.year d.month ≤ d.toDay ∧
    d.toDay < daysBeforeYear d.year + daysBeforeMonth d.year (d.month + 1) := by
  have hnext := daysBeforeMonth_succ d.year h.month.1 h.month.2
  have hday := h.day
  unfold toDay
  omega

/-- A day lies in its year. -/
theorem IsReal.toDay_lt (h : d.IsReal) : d.toDay < daysBeforeYear (d.year + 1) := by
  have hmonth := h.month
  have hlt := h.toDay_bounds.2
  have hle := daysBeforeMonth_mono d.year (by omega : 1 ≤ d.month + 1) (by omega : _ ≤ 13) (Nat.le_refl _)
  rw [← daysBeforeYear_add_daysBeforeMonth h.year]
  omega

theorem IsReal.year_le (hd : d.IsReal) (he : e.IsReal) (h : d.toDay = e.toDay) : d.year ≤ e.year := by
  refine Nat.le_of_not_lt fun hlt => ?_
  have hyears := daysBeforeYear_mono (show e.year + 1 ≤ d.year from hlt)
  have hlow := hd.toDay_bounds.1
  have hhigh := he.toDay_lt
  omega

theorem IsReal.month_le (hd : d.IsReal) (he : e.IsReal) (hyear : d.year = e.year) (h : d.toDay = e.toDay) :
    d.month ≤ e.month := by
  refine Nat.le_of_not_lt fun hlt => ?_
  have hmonths := daysBeforeMonth_mono d.year (by omega : 1 ≤ e.month + 1) hlt (by have := hd.month; omega)
  have hlow := hd.toDay_bounds.1
  have hhigh := he.toDay_bounds.2
  rw [← hyear] at hhigh
  omega

/-- **Dates are told by their day numbers.** -/
theorem IsReal.eq_of_toDay_eq (hd : d.IsReal) (he : e.IsReal) (h : d.toDay = e.toDay) : d = e := by
  have hyear : d.year = e.year := Nat.le_antisymm (hd.year_le he h) (he.year_le hd h.symm)
  have hmonth : d.month = e.month :=
    Nat.le_antisymm (hd.month_le he hyear h) (he.month_le hd hyear.symm h.symm)
  have hday : d.day = e.day := by
    have hpos := hd.day.1
    have hpos' := he.day.1
    unfold toDay at h
    rw [hyear, hmonth] at h
    omega
  cases d
  cases e
  congr

theorem IsReal.ofDay_toDay (h : d.IsReal) : ofDay d.toDay = d :=
  (isReal_ofDay _).eq_of_toDay_eq h (toDay_ofDay _)

end

/-! ### The next date -/

/-- The date behind a date. -/
def next (d : Date) : Date :=
  if d.day < monthLength d.year d.month then { d with day := d.day + 1 }
  else if d.month < 12 then ⟨d.year, d.month + 1, 1⟩
  else ⟨d.year + 1, 1, 1⟩

theorem monthLength_pos {year month : Nat} (hpos : 1 ≤ month) (hle : month ≤ 12) : 1 ≤ monthLength year month := by
  have hall : ∀ n ∈ monthLengths year, 1 ≤ n := by
    unfold monthLengths
    split <;> decide
  have hlt : month - 1 < (monthLengths year).length := by
    rw [length_monthLengths]
    omega
  unfold monthLength
  rw [List.getD_eq_getElem _ _ hlt]
  exact hall _ (List.getElem_mem hlt)

/-- Each month has a first day. -/
theorem isReal_first {year month : Nat} (hyear : 1 ≤ year) (hpos : 1 ≤ month) (hle : month ≤ 12) :
    (⟨year, month, 1⟩ : Date).IsReal :=
  ⟨hyear, ⟨hpos, hle⟩, Nat.le_refl _, monthLength_pos hpos hle⟩

theorem IsReal.next {d : Date} (h : d.IsReal) : d.next.IsReal := by
  obtain ⟨hyear, hmonth, hday⟩ := h
  unfold Date.next
  split
  · next hlt => exact ⟨hyear, hmonth, Nat.le_add_left _ _, hlt⟩
  · split
    · next hlt => exact isReal_first hyear (Nat.le_add_left _ _) hlt
    · exact isReal_first (Nat.le_add_left _ _) (Nat.le_refl _) (Nat.le_add_left _ _)

/-- **The next date has the next day number.** -/
theorem IsReal.toDay_next {d : Date} (h : d.IsReal) : d.next.toDay = d.toDay + 1 := by
  have hfirst := daysBeforeMonth_succ d.year h.month.1 h.month.2
  obtain ⟨hyear, hmonth, hday⟩ := h
  unfold Date.next
  split
  · unfold toDay
    dsimp only
    omega
  · split
    · unfold toDay
      dsimp only
      omega
    · next hlength _ =>
      have hmonth : d.month = 12 := by omega
      have hlast := daysBeforeYear_add_daysBeforeMonth hyear
      have hstart : daysBeforeMonth (d.year + 1) 1 = 0 := rfl
      unfold toDay
      rw [hmonth] at hfirst hday hlength ⊢
      change daysBeforeMonth d.year 13 = _ at hfirst
      dsimp only
      omega

theorem next_ofDay (n : Nat) : (ofDay n).next = ofDay (n + 1) := by
  refine (isReal_ofDay n).next.eq_of_toDay_eq (isReal_ofDay (n + 1)) ?_
  rw [(isReal_ofDay n).toDay_next, toDay_ofDay, toDay_ofDay]

/-! ### Counting days -/

/-- The start of 1970. -/
def epoch : Date := ⟨1970, 1, 1⟩

/-- The dates of the years 1 to 9999 are counted one after another, the start of 1970 as zero. -/
structure CountsDays (count : Date → Int) : Prop where
  epoch : count epoch = 0
  next : ∀ d : Date, d.isValid = true → d.next.isValid = true → count d.next = count d + 1

/-- The days from the start of 1970 to a date. -/
def dayNumber (d : Date) : Int := d.toDay - epoch.toDay

theorem countsDays_dayNumber : CountsDays dayNumber := by
  refine ⟨by decide, fun d hd _ => ?_⟩
  unfold dayNumber
  rw [(isValid_iff.mp hd).1.toDay_next]
  omega

section

variable {count : Date → Int}

/-- Counted from the first day, days have their numbers. -/
theorem CountsDays.count_ofDay (h : CountsDays count) {n : Nat} (hn : n < daysBeforeYear 10000) :
    count (ofDay n) = count (ofDay 0) + n := by
  induction n with
  | zero => exact (Int.add_zero _).symm
  | succ n ih =>
    have hstep := h.next (ofDay n) (isValid_ofDay (by omega)) (by rw [next_ofDay]; exact isValid_ofDay hn)
    rw [next_ofDay, ih (by omega)] at hstep
    rw [hstep]
    omega

theorem lt_of_isValid {d : Date} (h : d.isValid = true) : d.toDay < daysBeforeYear 10000 := by
  obtain ⟨hreal, hyear⟩ := isValid_iff.mp h
  exact Nat.lt_of_lt_of_le hreal.toDay_lt (daysBeforeYear_mono (by omega))

/-- **There is only one way to count days.** -/
theorem CountsDays.count_eq (h : CountsDays count) {d : Date} (hd : d.isValid = true) : count d = d.dayNumber := by
  have hepoch : Date.epoch.isValid = true := by decide
  have hzero := h.count_ofDay (lt_of_isValid hepoch)
  have hcount := h.count_ofDay (lt_of_isValid hd)
  rw [(isValid_iff.mp hepoch).1.ofDay_toDay, h.epoch] at hzero
  rw [(isValid_iff.mp hd).1.ofDay_toDay] at hcount
  unfold dayNumber
  omega

end

/-- The weekday of a date, from its day number: the start of 1970 was a Thursday. -/
theorem weekday_eq (d : Date) : (((d.weekday + 1) % 7 : Nat) : Int) = (d.dayNumber + 4) % 7 := by
  have hepoch : epoch.toDay = 719162 := by decide
  unfold weekday dayNumber
  rw [hepoch]
  omega

/-- The days of the year before a date are those from its first of January. -/
theorem dayOfYear_eq (d : Date) : (d.dayOfYear : Int) = d.dayNumber - (⟨d.year, 1, 1⟩ : Date).dayNumber := by
  have hfirst : (⟨d.year, 1, 1⟩ : Date).toDay = daysBeforeYear d.year := rfl
  unfold dayOfYear dayNumber
  rw [hfirst]
  unfold toDay
  omega

end LogStream.Date
