import LogStream.Proofs.Filter.Application
import LogStream.Proofs.Filter.Conversions.Timestamps
import LogStream.Proofs.Filter.Walks
import LogStream.Proofs.Time.Days
import LogStream.Proofs.Time.Zones

/-! # Parts of timestamps

In UTC the parts of a timestamp tell its date and its time of day, and so its seconds (`IsReading`). In a zone the
parts are those in UTC of the timestamp later by the offset of the zone, as long as this one lies in the years 1 to
9999 (`accessors_tell_time`). -/

namespace LogStream.Filter

/-- A function that gives a part of a timestamp. -/
inductive Accessor
  | fullYear
  | month
  | date
  | dayOfMonth
  | dayOfWeek
  | dayOfYear
  | hours
  | minutes
  | seconds

namespace Accessor

def name : Accessor → String
  | fullYear => "getFullYear"
  | month => "getMonth"
  | date => "getDate"
  | dayOfMonth => "getDayOfMonth"
  | dayOfWeek => "getDayOfWeek"
  | dayOfYear => "getDayOfYear"
  | hours => "getHours"
  | minutes => "getMinutes"
  | seconds => "getSeconds"

def function : Accessor → Builtin
  | fullYear => .fullYear
  | month => .month
  | date => .date
  | dayOfMonth => .dayOfMonth
  | dayOfWeek => .dayOfWeek
  | dayOfYear => .dayOfYear
  | hours => .hours
  | minutes => .minutes
  | seconds => .seconds

/-- The part of a time on its wall clock. -/
def part : Accessor → Time → Nat
  | fullYear, t => t.date.year
  | month, t => t.date.month - 1
  | date, t => t.date.day
  | dayOfMonth, t => t.date.day - 1
  | dayOfWeek, t => (t.date.weekday + 1) % 7
  | dayOfYear, t => t.date.dayOfYear
  | hours, t => t.hour
  | minutes, t => t.minute
  | seconds, t => t.second

/-- The call on a timestamp, perhaps with a zone. -/
def call (a : Accessor) (pos : Nat) (e : Expr) (zone : List Expr) : Expr := .method pos (Text.lit a.name) e zone

theorem member?_name (a : Accessor) : Builtin.member? (Text.lit a.name) = some a.function := by
  cases a <;> decide

theorem apply_function (a : Accessor) (vs : List Dyn) : a.function.apply vs = Builtin.applyPart a.part vs := by
  cases a <;> rfl

/-- A part is read off the wall clock, whatever its offset from UTC. -/
theorem part_mk (a : Accessor) (wall : Fin wallLimit) (o o' : Option Int) : a.part ⟨wall, o⟩ = a.part ⟨wall, o'⟩ := by
  cases a <;> rfl

end Accessor

/-! ### Readings -/

/-- The date that the parts tell; the month counts from zero there. -/
def dateOf (parts : Accessor → Nat) : Date := ⟨parts .fullYear, parts .month + 1, parts .date⟩

/-- The parts are those of a number of seconds, with a way to count days. -/
structure IsReading (count : Date → Int) (parts : Accessor → Nat) (seconds : Int) : Prop where
  isValid : (dateOf parts).isValid = true
  hours_lt : parts .hours < 24
  minutes_lt : parts .minutes < 60
  seconds_lt : parts .seconds < 60
  seconds_eq : seconds =
    86400 * count (dateOf parts) + 3600 * parts .hours + 60 * parts .minutes + parts .seconds
  dayOfMonth : (parts .dayOfMonth : Int) = parts .date - 1
  dayOfWeek : (parts .dayOfWeek : Int) = (count (dateOf parts) + 4) % 7
  dayOfYear : (parts .dayOfYear : Int) = count (dateOf parts) - count ⟨parts .fullYear, 1, 1⟩

/-- The whole seconds of a time are those of its date and its time of day. -/
theorem fdiv_instant {t : Time} (hutc : t.offset = some 0) : Int.fdiv t.instant microsPerSecond =
    86400 * t.date.dayNumber + 3600 * t.hour + 60 * t.minute + t.second := by
  have hday : t.date.toDay = t.wall.val / microsPerDay := Date.toDay_ofDay _
  have hepoch : Date.epoch.toDay = 719162 := by decide
  have hmicros : microsPerDay = 86400000000 := rfl
  have hwall : epochWall = 62135596800000000 := by decide
  have hsecond : microsPerSecond = 1000000 := rfl
  have hdiv : Int.fdiv t.instant microsPerSecond = t.instant / 1000000 := Int.fdiv_eq_ediv_of_nonneg _ (by decide)
  rw [hdiv]
  unfold Date.dayNumber Time.instant Time.hour Time.minute Time.second Time.secondOfDay
  rw [hday, hepoch, hutc, Option.getD_some, hmicros, hwall, hsecond]
  omega

theorem date_parts (t : Time) : dateOf (Accessor.part · t) = t.date := by
  have hmonth := (Date.isValid_iff.mp t.isValid_date).1.month
  have hnext : t.date.month - 1 + 1 = t.date.month := Nat.sub_add_cancel hmonth.1
  change (⟨t.date.year, t.date.month - 1 + 1, t.date.day⟩ : Date) = t.date
  rw [hnext]

/-- **The parts of a time in UTC tell its seconds.** -/
theorem isReading_part {t : Time} (hutc : t.offset = some 0) {count : Date → Int} (h : Date.CountsDays count) :
    IsReading count (Accessor.part · t) (Int.fdiv t.instant microsPerSecond) := by
  have hvalid := t.isValid_date
  obtain ⟨hreal, hlast⟩ := Date.isValid_iff.mp hvalid
  have hclock := t.clock_lt
  have hcount := h.count_eq hvalid
  have hfirst : count ⟨t.date.year, 1, 1⟩ = (⟨t.date.year, 1, 1⟩ : Date).dayNumber :=
    h.count_eq (Date.isValid_iff.mpr ⟨Date.isReal_first hreal.year (Nat.le_refl _) (Nat.le_add_left _ _), hlast⟩)
  refine ⟨?_, hclock.1, hclock.2.1, hclock.2.2.1, ?_, ?_, ?_, ?_⟩
  · rw [date_parts]
    exact hvalid
  · rw [date_parts, hcount]
    exact fdiv_instant hutc
  · have hday := hreal.day.1
    change ((t.date.day - 1 : Nat) : Int) = t.date.day - 1
    omega
  · rw [date_parts, hcount]
    exact t.date.weekday_eq
  · rw [date_parts, hcount]
    exact t.date.dayOfYear_eq.trans (congrArg _ hfirst.symm)

/-! ### Expressions -/

section

variable {env : Activation} {e z d : Expr} {t : Time}

theorem eval_call_utc (a : Accessor) (he : eval env e = .ok (.timestamp t)) (hutc : t.offset = some 0) (pos : Nat) :
    eval env (a.call pos e []) = .ok (.int (a.part t)) := by
  have hpart : Builtin.applyPart a.part [.timestamp t] = .ok (.int (a.part t)) := by
    change Dyn.timePart a.part (.timestamp t) .null = _
    rw [Dyn.timePart, show Dyn.zone .null = .ok 0 from rfl, ok_bind, Time.inZone?_zero hutc]
    rfl
  rw [Accessor.call, eval_method a.member?_name he evalAll_nil, a.apply_function, hpart]
  rfl

theorem eval_call_zone (a : Accessor) (he : eval env e = .ok (.timestamp t)) {c : CodePoint} {r : Text}
    (hz : eval env z = .ok (.string (c :: r))) {minutes : Int} (hread : Zone.read (c :: r) = .ok minutes) (pos : Nat) :
    eval env (a.call pos e [z]) =
      (t.inZone? minutes).elim (Eval.stop .overflow) fun u => .ok (.int (a.part u)) := by
  have hzone : Dyn.zone (.string (c :: r)) = .ok minutes := by
    rw [Dyn.zone, hread]
    exact nofun
  have hpart : Builtin.applyPart a.part [.timestamp t, .string (c :: r)] =
      (t.inZone? minutes).elim (Eval.stop .overflow) fun u => .ok (.int (a.part u)) := by
    change Dyn.timePart a.part (.timestamp t) (.string (c :: r)) = _
    rw [Dyn.timePart, hzone, ok_bind]
    cases t.inZone? minutes <;> rfl
  rw [Accessor.call, eval_method a.member?_name he (evalAll_cons hz evalAll_nil), a.apply_function, hpart]
  cases t.inZone? minutes <;> rfl

theorem eval_add (he : eval env e = .ok (.timestamp t)) {δ : Duration} (hd : eval env d = .ok (.duration δ))
    (pos : Nat) : eval env (.binary pos .add e d) = Dyn.orOverflow "timestamp" Dyn.timestamp (t.add? δ) := by
  rw [eval, he, ok_bind, hd, ok_bind]
  · rfl
  all_goals exact nofun

/-- **Accessors tell the time.** With a zone they give what they give without it later by the offset of the zone, and
both fail if that lies outside the years 1 to 9999. Without a zone they give the date and the time of day of the
seconds that the timestamp is as an integer. -/
theorem accessors_tell_time (he : eval env e = .ok (.timestamp t)) (hutc : t.offset = some 0) (i j k : Nat) :
    (∀ (negative : Bool) (hours minutes : Nat), minutes < 100 → hours * 60 + minutes < Zone.minutesPerDay →
      ∀ (z d : Expr) (δ : Duration), eval env z = .ok (.string (Zone.name negative hours minutes)) →
      eval env d = .ok (.duration δ) →
      δ.micros = Zone.signed negative (hours * 60 + minutes) * (60 * microsPerSecond : Nat) → ∀ a : Accessor,
        if Time.InYears (t.instant + δ.micros) then
          SameValue env (a.call i e [z]) (a.call j (.binary k .add e d) [])
        else eval env (a.call i e [z]) = Eval.stop .overflow ∧
          eval env (a.call j (.binary k .add e d) []) = Eval.fail (.overflow "timestamp")) ∧
    ∃ parts : Accessor → Nat, (∀ a : Accessor, eval env (a.call i e []) = .ok (.int (parts a))) ∧
      ∃ n : Int, eval env (.call j (Text.lit "int") [e]) = .ok (.int n) ∧
        ∀ count : Date → Int, Date.CountsDays count → IsReading count parts n := by
  refine ⟨fun negative hours minutes hminutes hday z d δ hz hd hmicros a => ?_, (Accessor.part · t),
    fun a => eval_call_utc a he hutc i, _, int_of_timestamp he hutc j, fun count h => isReading_part hutc h⟩
  have hzone := eval_call_zone a he hz (Zone.read_name negative hminutes hday) i
  have hadd := eval_add he hd k
  have hmoved := Time.inZone?_of_utc hutc hmicros
  split
  · next h =>
    rw [if_pos h] at hmoved
    obtain ⟨w, hin, hlater⟩ := hmoved
    rw [hin] at hzone
    rw [hlater] at hadd
    refine ⟨_, hzone, ?_⟩
    rw [eval_call_utc a hadd rfl, a.part_mk w (some 0)]
  · next h =>
    rw [if_neg h] at hmoved
    rw [hmoved.1] at hzone
    rw [hmoved.2] at hadd
    exact ⟨hzone, eval_method_of_error hadd j⟩

end

/-- The first midnight of March in the leap year 2000. -/
def leapMidnight : Time := ⟨⟨63087465600000000, by decide⟩, some 0⟩

/-- That midnight, and half past five hours to the west. -/
def leapEnv : Activation :=
  [(Text.lit "t", .timestamp leapMidnight), (Text.lit "d", .duration ⟨-19800000000, by decide⟩)]

/-- In such a zone it is still February, and in UTC the parts tell the seconds. -/
theorem accessors_tell_time_leap :
    SameValue leapEnv
      (Accessor.dayOfYear.call 0 (.ident 0 (Text.lit "t")) [.literal 0 (.string (Text.lit "-05:30"))])
      (Accessor.dayOfYear.call 0 (.binary 0 .add (.ident 0 (Text.lit "t")) (.ident 0 (Text.lit "d"))) []) ∧
    ∃ (parts : Accessor → Nat) (n : Int),
      eval leapEnv (.call 0 (Text.lit "int") [.ident 0 (Text.lit "t")]) = .ok (.int n) ∧
      IsReading Date.dayNumber parts n := by
  have hyears : Time.InYears (leapMidnight.instant + -19800000000) := ⟨by decide +kernel, by decide +kernel⟩
  have he : eval leapEnv (.ident 0 (Text.lit "t")) = .ok (.timestamp leapMidnight) := rfl
  obtain ⟨hzone, parts, -, n, hint, hreading⟩ := accessors_tell_time he rfl 0 0 0
  refine ⟨?_, parts, n, hint, hreading _ Date.countsDays_dayNumber⟩
  have hday := hzone true 5 30 (by decide) (by decide) (.literal 0 (.string (Text.lit "-05:30")))
    (.ident 0 (Text.lit "d")) ⟨-19800000000, by decide⟩ rfl rfl rfl .dayOfYear
  rwa [if_pos hyears] at hday

end LogStream.Filter
