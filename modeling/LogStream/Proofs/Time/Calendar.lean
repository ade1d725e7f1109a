import LogStream.Time.Basic

/-! # Dates and day numbers

The date of a day number has this day number (`toDay_ofDay`), and exists where the day lies in the years 1 to
9999 (`isValid_ofDay`). The year is the last one that does not start behind the day (`yearOfDay_spec`), the month
and the day of the month are what the lengths of the months leave (`monthDay_spec`). As the wall clock ends with
year 9999, all that is read off a time is small (`Time.fields_lt`). -/

namespace LogStream

namespace Date

/-! ### Years -/

/-- A year is followed by the next one after 365 days, or after 366 days if it is a leap year. -/
theorem daysBeforeYear_succ {year : Nat} (h : 1 ≤ year) :
    daysBeforeYear (year + 1) = daysBeforeYear year + if isLeap year then 366 else 365 := by
  obtain ⟨y, rfl⟩ := Nat.exists_eq_add_of_le' h
  have hle : y / 100 ≤ y / 4 := Nat.div_le_div_left (by decide) (by decide)
  have h100 : 100 ∣ y + 1 → 4 ∣ y + 1 := Nat.dvd_trans (by decide)
  have h400 : 400 ∣ y + 1 → 100 ∣ y + 1 := Nat.dvd_trans (by decide)
  unfold daysBeforeYear isLeap
  simp only [Nat.add_sub_cancel, Nat.succ_div, Bool.and_eq_true, Bool.or_eq_true, beq_iff_eq, bne_iff_ne,
    ← Nat.dvd_iff_mod_eq_zero, ne_eq]
  by_cases hc : 100 ∣ y + 1
  · by_cases hq : 400 ∣ y + 1
    · simp [h100 hc, hc, hq]
      omega
    · simp [h100 hc, hc, hq]
      omega
  · have hq : ¬ 400 ∣ y + 1 := fun hq => hc (h400 hq)
    by_cases h4 : 4 ∣ y + 1
    · simp [h4, hc, hq]
      omega
    · simp [h4, hc, hq]
      omega

theorem daysBeforeYear_mono {a b : Nat} (h : a ≤ b) : daysBeforeYear a ≤ daysBeforeYear b := by
  induction h with
  | refl => exact Nat.le_refl _
  | @step b _ ih =>
    refine Nat.le_trans ih ?_
    rcases Nat.eq_zero_or_pos b with rfl | hb
    · exact Nat.le_refl _
    · rw [daysBeforeYear_succ hb]
      exact Nat.le_add_right _ _

/-- Among the years that were tried the last one is kept that does not start behind the day. -/
theorem foldl_latest {n first : Nat} (h : daysBeforeYear first ≤ n) : ∀ count : Nat,
    let y := ((List.range count).map (first + ·)).foldl
      (fun y c => if daysBeforeYear c ≤ n then c else y) first
    first ≤ y ∧ daysBeforeYear y ≤ n ∧ ∀ c < count, daysBeforeYear (first + c) ≤ n → first + c ≤ y
  | 0 => ⟨Nat.le_refl _, h, fun c hc => absurd hc (Nat.not_lt_zero c)⟩
  | count + 1 => by
    obtain ⟨hle, hdays, hlast⟩ := foldl_latest h count
    dsimp only
    rw [List.range_succ, List.map_append, List.foldl_append, List.map_cons, List.map_nil, List.foldl_cons,
      List.foldl_nil]
    split
    · next hnext =>
      refine ⟨Nat.le_add_right _ _, hnext, fun c hc _ => ?_⟩
      omega
    · next hnext =>
      refine ⟨hle, hdays, fun c hc hcn => ?_⟩
      rcases Nat.lt_succ_iff_lt_or_eq.mp hc with hlt | rfl
      · exact hlast c hlt hcn
      · exact absurd hcn hnext

/-- **The year of a day is the one that starts on it or before it, and ends behind it.** -/
theorem yearOfDay_spec (n : Nat) : 1 ≤ yearOfDay n ∧ daysBeforeYear (yearOfDay n) ≤ n ∧
    n < daysBeforeYear (yearOfDay n + 1) := by
  have hguess : daysBeforeYear (n / 366 + 1) ≤ n := by
    unfold daysBeforeYear
    omega
  have hspec := foldl_latest hguess ((n - daysBeforeYear (n / 366 + 1)) / 365 + 1 + 1)
  -- The last year that was tried starts behind the day.
  have htop : n < daysBeforeYear (n / 366 + 1 + ((n - daysBeforeYear (n / 366 + 1)) / 365 + 1)) := by
    generalize n / 366 = guess at hguess ⊢
    unfold daysBeforeYear at hguess ⊢
    omega
  change _ ≤ yearOfDay n ∧ daysBeforeYear (yearOfDay n) ≤ n ∧ ∀ c < _, _ → _ ≤ yearOfDay n at hspec
  generalize hsteps : (n - daysBeforeYear (n / 366 + 1)) / 365 + 1 = steps at hspec htop
  obtain ⟨hfirst, hdays, hlast⟩ := hspec
  refine ⟨by omega, hdays, Nat.lt_of_not_le fun hnext => ?_⟩
  have hlt : yearOfDay n < n / 366 + 1 + steps := by
    refine Nat.lt_of_not_le fun hge => ?_
    have hmono := daysBeforeYear_mono hge
    omega
  have hle := hlast (yearOfDay n + 1 - (n / 366 + 1)) (by omega)
    (by rwa [Nat.add_sub_cancel' (by omega)])
  omega

/-! ### Months -/

/-- **The month and the day of the month are what the lengths of the months leave.** -/
theorem monthDay_spec : ∀ (lengths : List Nat) (month n : Nat), n < lengths.foldr (· + ·) 0 →
    ∃ i < lengths.length, (monthDay month n lengths).1 = month + i ∧
      1 ≤ (monthDay month n lengths).2 ∧ (monthDay month n lengths).2 ≤ lengths.getD i 0 ∧
      (lengths.take i).foldr (· + ·) 0 + (monthDay month n lengths).2 = n + 1
  | [], _, n, h => absurd h (Nat.not_lt_zero n)
  | len :: rest, month, n, h => by
    rw [List.foldr_cons] at h
    rw [monthDay]
    split
    · next hlt => exact ⟨0, Nat.zero_lt_succ _, rfl, Nat.le_add_left _ _, hlt, Nat.zero_add _⟩
    · next hlt =>
      obtain ⟨i, hi, hmonth, hpos, hle, hsum⟩ := monthDay_spec rest (month + 1) (n - len) (by omega)
      refine ⟨i + 1, Nat.succ_lt_succ hi, by omega, hpos, hle, ?_⟩
      rw [List.take_succ_cons, List.foldr_cons]
      omega

theorem length_monthLengths (year : Nat) : (monthLengths year).length = 12 := rfl

theorem sum_monthLengths (year : Nat) :
    (monthLengths year).foldr (· + ·) 0 = if isLeap year then 366 else 365 := by
  unfold monthLengths
  split <;> rfl

/-! ### Dates -/

/-- A day has its date in a year, a month and a day of the month, which all exist. -/
theorem ofDay_spec (n : Nat) : 1 ≤ (ofDay n).year ∧ daysBeforeYear (ofDay n).year ≤ n ∧
    n < daysBeforeYear ((ofDay n).year + 1) ∧ 1 ≤ (ofDay n).month ∧ (ofDay n).month ≤ 12 ∧
    1 ≤ (ofDay n).day ∧ (ofDay n).day ≤ monthLength (ofDay n).year (ofDay n).month ∧
    (ofDay n).toDay = n := by
  obtain ⟨hyear, hstart, hend⟩ := yearOfDay_spec n
  have hsum := daysBeforeYear_succ hyear
  rw [← sum_monthLengths] at hsum
  obtain ⟨i, hi, hmonth, hpos, hle, hday⟩ := monthDay_spec (monthLengths (yearOfDay n)) 1
    (n - daysBeforeYear (yearOfDay n)) (by omega)
  rw [length_monthLengths] at hi
  change (ofDay n).month = _ at hmonth
  change 1 ≤ (ofDay n).day at hpos
  change (ofDay n).day ≤ _ at hle
  change _ + (ofDay n).day = _ at hday
  have hindex : (ofDay n).month - 1 = i := by omega
  refine ⟨hyear, hstart, hend, by omega, by omega, hpos, ?_, ?_⟩
  · unfold monthLength
    rw [hindex]
    exact hle
  · unfold toDay daysBeforeMonth
    rw [hindex]
    change daysBeforeYear (yearOfDay n) + ((monthLengths (yearOfDay n)).take i).foldr (· + ·) 0 + _ = _
    omega

/-- **The date of a day number has this day number.** -/
theorem toDay_ofDay (n : Nat) : (ofDay n).toDay = n := (ofDay_spec n).2.2.2.2.2.2.2

theorem year_ofDay_lt {n : Nat} (h : n < daysBeforeYear 10000) : (ofDay n).year < 10000 := by
  obtain ⟨-, hstart, -⟩ := ofDay_spec n
  refine Nat.lt_of_not_le fun hge => ?_
  have hmono := daysBeforeYear_mono hge
  omega

/-- **The date of a day in the years 1 to 9999 exists.** -/
theorem isValid_ofDay {n : Nat} (h : n < daysBeforeYear 10000) : (ofDay n).isValid = true := by
  obtain ⟨hyear, -, -, hmonth, hmonth', hday, hday', -⟩ := ofDay_spec n
  have hlt := year_ofDay_lt h
  unfold isValid
  simp only [Bool.and_eq_true, decide_eq_true_eq]
  omega

theorem monthLength_le (year month : Nat) : monthLength year month ≤ 31 := by
  have hall : ∀ n ∈ monthLengths year, n ≤ 31 := by
    unfold monthLengths
    split <;> decide
  unfold monthLength
  rw [List.getD_eq_getElem?_getD]
  cases h : (monthLengths year)[month - 1]? with
  | none => exact Nat.zero_le 31
  | some n => exact hall n (List.mem_of_getElem? h)

/-- The numbers of a date that exists have at most four, two and two digits. -/
theorem fields_lt_of_isValid {d : Date} (h : d.isValid = true) : d.year < 10000 ∧ d.month < 100 ∧ d.day < 100 := by
  have hle := monthLength_le d.year d.month
  unfold isValid at h
  simp only [Bool.and_eq_true, decide_eq_true_eq] at h
  omega

end Date

/-! ### The wall clock -/

namespace Time

/-- **All fields of a time are small.** -/
theorem fields_lt (t : Time) : t.date.year < 10000000 ∧ t.date.month < 10000000 ∧
    t.date.day < 10000000 ∧ t.date.dayOfYear < 10000000 ∧ t.hour < 10000000 ∧ t.minute < 10000000 ∧
    t.second < 10000000 := by
  have hnumber : t.wall.val / microsPerDay < 3652059 := Nat.div_lt_of_lt_mul (Nat.mul_comm _ _ ▸ t.wall.isLt)
  have hyear : t.date.year < 10000 := Date.year_ofDay_lt hnumber
  obtain ⟨-, -, -, -, hmonth, -, hday, htoDay⟩ := Date.ofDay_spec (t.wall.val / microsPerDay)
  change t.date.month ≤ 12 at hmonth
  change t.date.day ≤ Date.monthLength t.date.year t.date.month at hday
  change Date.daysBeforeYear t.date.year + Date.daysBeforeMonth t.date.year t.date.month + (t.date.day - 1) = _
    at htoDay
  have hlength := Date.monthLength_le t.date.year t.date.month
  have hdayOfYear : t.date.dayOfYear = Date.daysBeforeMonth t.date.year t.date.month + (t.date.day - 1) := rfl
  have hsecondOfDay : t.secondOfDay < 86400 := Nat.mod_lt _ (by decide)
  have hhour : t.hour = t.secondOfDay / 3600 := rfl
  have hminute : t.minute < 60 := Nat.mod_lt _ (by decide)
  have hsecond : t.second < 60 := Nat.mod_lt _ (by decide)
  omega

end Time

end LogStream
