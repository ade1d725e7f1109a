import LogStream.Filter.Apply
import LogStream.Proofs.Filter.Faults.Basic

/-! # Failures of functions

Functions fail with ordinary failures (`failsOnly_apply`), but two of them leak a fault on some
arguments (`Builtin.Overreaches`): a part of a timestamp is asked for in a zone that is no text but
begins like the name of one, and a list of integers is asked for that there is no room for. No
function leaks anything else (`leaks_apply_iff`). -/

namespace LogStream.Filter

namespace Dyn

open Eval (FailsOnly)
open EvalFailure (OrdinaryOr)

variable {allowed : EvalFailure → Prop} [Tolerant allowed]

/-! ### Strings -/

@[simp] theorem failsOnly_strings2 (name : String) (f : Text → Text → Dyn) (v w : Dyn) :
    FailsOnly allowed (strings2 name f v w) := by
  unfold strings2
  split <;> simp

@[simp] theorem failsOnly_strings1 (name : String) (f : Text → Dyn) (v : Dyn) :
    FailsOnly allowed (strings1 name f v) := by
  cases v <;> simp [strings1]

@[simp] theorem failsOnly_integer (name : String) (v : Dyn) :
    FailsOnly allowed (integer name v) := by
  cases v <;> simp [integer]

@[simp] theorem failsOnly_splitText (s sep : Text) (limit : Int) :
    FailsOnly allowed (splitText s sep limit) := by
  simp [splitText]

@[simp] theorem failsOnly_split (s sep limit : Dyn) : FailsOnly allowed (s.split sep limit) := by
  unfold split
  split <;> simp

@[simp] theorem failsOnly_replaceText (s old new : Text) (limit : Int) :
    FailsOnly allowed (replaceText s old new limit) := by
  simp [replaceText]

@[simp] theorem failsOnly_replace (s old new limit : Dyn) :
    FailsOnly allowed (s.replace old new limit) := by
  unfold replace
  split <;> simp

@[simp] theorem failsOnly_join (items sep : Dyn) : FailsOnly allowed (items.join sep) := by
  unfold join
  split
  · split <;> simp
  · simp

@[simp] theorem failsOnly_offset (name : String) (length : Nat) (v : Dyn) :
    FailsOnly allowed (offset name length v) := by
  simp [offset]

@[simp] theorem failsOnly_charAt (s i : Dyn) : FailsOnly allowed (s.charAt i) := by
  cases s <;> simp [charAt]

@[simp] theorem failsOnly_indexOf (s sub from_ : Dyn) : FailsOnly allowed (s.indexOf sub from_) := by
  unfold indexOf
  split <;> simp

@[simp] theorem failsOnly_lastIndexOf (s sub upTo : Dyn) :
    FailsOnly allowed (s.lastIndexOf sub upTo) := by
  unfold lastIndexOf
  split
  · split <;> simp
  · simp

@[simp] theorem failsOnly_failRange {α : Type} (start stop : Int) {e : EvalError}
    (he : ∀ name, e ≠ .noSuchAttribute name) :
    FailsOnly allowed (failRange start stop e : Eval α) :=
  Eval.failsOnly_failShowing _ he

@[simp] theorem failsOnly_substring (s start stop : Dyn) :
    FailsOnly allowed (s.substring start stop) := by
  cases s with
  | string s =>
    simp only [substring, Eval.failsOnly_bind, failsOnly_integer]
    refine ⟨trivial, fun a _ => ?_⟩
    split <;> simp
  | _ => simp [substring]

/-! ### Lists -/

@[simp] theorem failsOnly_elements (name : String) (args : List Dyn) (v : Dyn) :
    FailsOnly allowed (elements name args v) := by
  cases v <;> simp [elements]

@[simp] theorem failsOnly_size (v : Dyn) : FailsOnly allowed v.size := by
  cases v <;> simp [size]

@[simp] theorem failsOnly_reverse (v : Dyn) : FailsOnly allowed v.reverse := by
  cases v <;> simp [reverse]

@[simp] theorem failsOnly_slice (v start stop : Dyn) : FailsOnly allowed (v.slice start stop) := by
  simp [slice]

@[simp] theorem failsOnly_first (v : Dyn) : FailsOnly allowed v.first := by
  simp [first]

@[simp] theorem failsOnly_last (v : Dyn) : FailsOnly allowed v.last := by
  simp [last]

@[simp] theorem failsOnly_flatten (v depth : Dyn) : FailsOnly allowed (v.flatten depth) := by
  simp [flatten]

@[simp] theorem failsOnly_distinct (v : Dyn) : FailsOnly allowed v.distinct := by
  simp [distinct]

@[simp] theorem failsOnly_relation (name : String) (holds : List Dyn → List Dyn → Bool)
    (v w : Dyn) : FailsOnly allowed (relation name holds v w) := by
  simp [relation]

@[simp] theorem failsOnly_sortBy {α : Type} (name : String) (items : List (Dyn × α)) :
    FailsOnly allowed (sortBy name items) := by
  simp [sortBy]

@[simp] theorem failsOnly_sort (v : Dyn) : FailsOnly allowed v.sort := by
  simp [sort]

/-! ### Numbers -/

@[simp] theorem failsOnly_numbers (name : String) (args : List Dyn) :
    FailsOnly allowed (numbers name args) := by
  unfold numbers
  simp only [Eval.failsOnly_ite, Eval.failsOnly_ok, Eval.failsOnly_noOverload, implies_true, and_true]
  exact fun _ => Eval.failsOnly_fail (by simp)

@[simp] theorem failsOnly_number (name : String) (v : Dyn) : FailsOnly allowed (number name v) := by
  unfold number
  simp only [Eval.failsOnly_bind, failsOnly_numbers, true_and]
  intro xs _
  split <;> simp

@[simp] theorem failsOnly_greatest (args : List Dyn) : FailsOnly allowed (greatest args) := by
  simp [greatest]

@[simp] theorem failsOnly_least (args : List Dyn) : FailsOnly allowed (least args) := by
  simp [least]

@[simp] theorem failsOnly_abs (v : Dyn) : FailsOnly allowed v.abs := by
  unfold abs
  simp only [Eval.failsOnly_bind, failsOnly_number, true_and]
  intro w _
  split <;> simp

@[simp] theorem failsOnly_sign (v : Dyn) : FailsOnly allowed v.sign := by
  unfold sign
  simp only [Eval.failsOnly_bind, failsOnly_number, true_and]
  intro w _
  split <;> simp

@[simp] theorem failsOnly_sqrtOf (x : Number) : FailsOnly allowed (sqrtOf x) := by
  cases x <;> simp [sqrtOf, sqrtOf.ofWhole]

@[simp] theorem failsOnly_sqrt (v : Dyn) : FailsOnly allowed v.sqrt := by
  unfold sqrt
  simp only [Eval.failsOnly_bind, failsOnly_number, true_and]
  intro w _
  split <;> simp

@[simp] theorem failsOnly_doubleArg (name : String) (v : Dyn) :
    FailsOnly allowed (doubleArg name v) := by
  cases v <;> simp [doubleArg]

@[simp] theorem failsOnly_rounding (name : String) (round : Double → Double) (v : Dyn) :
    FailsOnly allowed (rounding name round v) := by
  simp [rounding]

@[simp] theorem failsOnly_doubleTest (name : String) (test : Double → Bool) (v : Dyn) :
    FailsOnly allowed (doubleTest name test v) := by
  simp [doubleTest]

@[simp] theorem failsOnly_bitwise (name : String) (f : Int → Int → Int) (v w : Dyn) :
    FailsOnly allowed (bitwise name f v w) := by
  simp [bitwise]

@[simp] theorem failsOnly_bitNot (v : Dyn) : FailsOnly allowed v.bitNot := by
  simp [bitNot]

@[simp] theorem failsOnly_shift (name : String) (f : Int → Nat → Int) (v places : Dyn) :
    FailsOnly allowed (shift name f v places) := by
  simp [shift]

/-! ### Conversions -/

@[simp] theorem failsOnly_wholeNumber (v : Dyn) : FailsOnly allowed v.wholeNumber := by
  cases v <;> simp [wholeNumber]

@[simp] theorem failsOnly_signed (v : Dyn) : FailsOnly allowed v.signed := by
  simp [signed]

@[simp] theorem failsOnly_toInt (v : Dyn) : FailsOnly allowed v.toInt := by
  simp [toInt]

@[simp] theorem failsOnly_unsigned (v : Dyn) : FailsOnly allowed v.unsigned := by
  cases v <;> simp [unsigned]

@[simp] theorem failsOnly_toUint (v : Dyn) : FailsOnly allowed v.toUint := by
  simp [toUint]

@[simp] theorem failsOnly_ofNumber (x : Number) : FailsOnly allowed (ofNumber x) := by
  cases x <;> simp [ofNumber]

@[simp] theorem failsOnly_toDouble (v : Dyn) : FailsOnly allowed v.toDouble := by
  unfold toDouble
  split
  · simp
  · split <;> simp

@[simp] theorem failsOnly_text (v : Dyn) : FailsOnly allowed v.text := by
  cases v <;> simp [text]

@[simp] theorem failsOnly_toText (v : Dyn) : FailsOnly allowed v.toText := by
  simp [toText]

@[simp] theorem failsOnly_utf8 (t : Text) : FailsOnly allowed (utf8 t) := by
  simp [utf8]

@[simp] theorem failsOnly_toBytes (v : Dyn) : FailsOnly allowed v.toBytes := by
  cases v <;> simp [toBytes]

@[simp] theorem failsOnly_encodeBase64 (v : Dyn) : FailsOnly allowed v.encodeBase64 := by
  cases v <;> simp [encodeBase64]

@[simp] theorem failsOnly_decodeBase64 (v : Dyn) : FailsOnly allowed v.decodeBase64 := by
  cases v <;> simp [decodeBase64]

@[simp] theorem failsOnly_toBool (v : Dyn) : FailsOnly allowed v.toBool := by
  cases v <;> simp [toBool]

@[simp] theorem failsOnly_readTimestamp (t : Text) : FailsOnly allowed (readTimestamp t) := by
  unfold readTimestamp
  split <;> simp

@[simp] theorem failsOnly_toTimestamp (v : Dyn) : FailsOnly allowed v.toTimestamp := by
  cases v <;> simp [toTimestamp]

@[simp] theorem failsOnly_readDuration (t : Text) : FailsOnly allowed (readDuration t) := by
  unfold readDuration
  split <;> simp

@[simp] theorem failsOnly_toDuration (v : Dyn) : FailsOnly allowed v.toDuration := by
  cases v <;> simp [toDuration]

/-! ### Formatting -/

@[simp] theorem failsOnly_doubleText (scientific : Bool) (precision : Nat) (x : Double) :
    FailsOnly allowed (doubleText scientific precision x) := by
  simp [doubleText]

set_option linter.unusedSectionVars false in
mutual

@[simp] theorem failsOnly_formatText (nested : Bool) : ∀ v : Dyn,
    FailsOnly allowed (formatText nested v)
  | .list xs => by simp [formatText, failsOnly_formatTexts xs]
  | .map es => by simp [formatText, failsOnly_formatEntries es]
  | .null | .bool _ | .int _ | .double _ | .string _ | .bytes _ | .timestamp _ | .duration _
  | .optional _ | .members _ | .foreign _ => by simp [formatText]
termination_by structural v => v

theorem failsOnly_formatTexts : ∀ xs : List Dyn, FailsOnly allowed (formatTexts xs)
  | [] => by simp [formatTexts]
  | x :: xs => by simp [formatTexts, failsOnly_formatText true x, failsOnly_formatTexts xs]
termination_by structural xs => xs

theorem failsOnly_formatEntries : ∀ es : List (Dyn × Dyn), FailsOnly allowed (formatEntries es)
  | [] => by simp [formatEntries]
  | (k, v) :: es => by
    simp [formatEntries, failsOnly_formatText true k, failsOnly_formatText true v,
      failsOnly_formatEntries es]
termination_by structural es => es

end

@[simp] theorem failsOnly_integerText (verb : CodePoint) (base : Nat) (v : Dyn) :
    FailsOnly allowed (integerText verb base v) := by
  cases v <;> simp [integerText]

@[simp] theorem failsOnly_places (c : Clause) : FailsOnly allowed c.places := by
  unfold Clause.places
  split <;> simp

@[simp] theorem failsOnly_clauseText (c : Clause) (verb : CodePoint) (style : Style) (arg : Dyn) :
    FailsOnly allowed (c.text verb style arg) := by
  unfold Clause.text
  split
  · simp
  · simp
  · split <;> simp

@[simp] theorem failsOnly_fillFrom (used skip : Nat) (args : List Dyn) (t : Text) :
    FailsOnly allowed (fillFrom used skip args t) := by
  fun_induction fillFrom used skip args t with
  | case1 => simp
  | _ => simp [*]

@[simp] theorem failsOnly_format (template args : Dyn) :
    FailsOnly allowed (template.format args) := by
  unfold format
  split <;> simp

/-! ### Patterns and optional values -/

/-- Faults of patterns are about their numbers. -/
theorem escapes_of_search {pattern t : Text} {f : Fault}
    (h : Regex.search pattern t = .error (.fault f)) : escapes f = false := by
  unfold Regex.search at h
  split at h
  · cases h
  · split at h
    · cases h
    · cases h
    · cases h; rfl
    · cases h; rfl

@[simp] theorem failsOnly_isMatch (s pattern : Dyn) : FailsOnly allowed (s.isMatch pattern) := by
  unfold isMatch
  split
  · split
    · simp
    · simp
    · simp
    · next f hf => exact Eval.failsOnly_stop (escapes_of_search hf)
  · simp

@[simp] theorem failsOnly_orValue (o v : Dyn) : FailsOnly allowed (o.orValue v) := by
  unfold orValue
  split <;> simp

@[simp] theorem failsOnly_hasValue (v : Dyn) : FailsOnly allowed v.hasValue := by
  cases v <;> simp [hasValue]

@[simp] theorem failsOnly_value (v : Dyn) : FailsOnly allowed v.value := by
  unfold value
  split <;> simp

@[simp] theorem failsOnly_orElse (o v : Dyn) : FailsOnly allowed (o.orElse v) := by
  unfold orElse
  split <;> simp

/-! ### Zones -/

theorem escapes_of_offset {negative : Bool} {hours minutes : Int} {f : Fault}
    (h : Zone.offset negative hours minutes = .error f) : escapes f = false := by
  unfold Zone.offset at h
  dsimp only at h
  split at h
  · cases h; rfl
  · split at h
    · cases h; rfl
    · split at h <;> cases h
      rfl

/-- Faults of the names of zones are about their numbers. -/
theorem escapes_of_readZone {name : Text} {f : Fault} (h : Zone.read name = .error (.fault f)) :
    escapes f = false := by
  unfold Zone.read at h
  split at h
  · cases h
  · split at h
    · split at h
      · cases h
      · next f' hf =>
        cases h
        unfold Zone.readOffset at hf
        dsimp only at hf
        split at hf
        · exact escapes_of_offset hf
        · cases hf; rfl
    · split at h <;> cases h

/-- A row of items that begins as the name of an offset does: the first item is a sign, and one
behind it is a colon. -/
def isSignedRow : Dyn → Bool
  | list (string t :: xs) => zoneOfOther.isSigns t && xs.any zoneOfOther.isColon
  | foreign (.tuple (.text t :: xs)) => zoneOfOther.isSigns t && xs.any zoneOfOther.isColonText
  | _ => false

/-- A stop at items that may begin like the name of a zone. -/
theorem failsOnly_signedRow {z : Dyn} {signed : Bool} (hz : z.isSignedRow = signed) :
    FailsOnly (OrdinaryOr fun x => x = .noAttribute ∧ z.isSignedRow = true)
      (if signed = true then Eval.stop .noAttribute else Eval.stop .wrongType : Eval Int) := by
  subst hz
  split
  · next hz => exact Eval.failsOnly_error_iff.mpr (.inr ⟨_, rfl, rfl, hz⟩)
  · simp

theorem failsOnly_zoneOfOther (z : Dyn) :
    FailsOnly (OrdinaryOr fun x => x = .noAttribute ∧ z.isSignedRow = true) (zoneOfOther z) := by
  unfold zoneOfOther
  split
  case h_9 => exact failsOnly_signedRow rfl
  case h_11 => exact failsOnly_signedRow rfl
  case h_13 es _ =>
    -- The map may hold the item that it is asked for.
    cases (lookup? (int 0) es).isSome <;> simp
  all_goals simp

theorem failsOnly_zone (z : Dyn) :
    FailsOnly (OrdinaryOr fun x => x = .noAttribute ∧ z.isSignedRow = true) (zone z) := by
  unfold zone
  split
  · simp
  · split
    · simp
    · simp
    · next f hf => exact Eval.failsOnly_stop (escapes_of_readZone hf)
  · exact failsOnly_zoneOfOther z

theorem failsOnly_timePart (part : Time → Nat) (v z : Dyn) :
    FailsOnly
      (OrdinaryOr fun x => x = .noAttribute ∧ (∃ t, v = timestamp t) ∧ z.isSignedRow = true)
      (timePart part v z) := by
  cases v with
  | timestamp t =>
    have hz : FailsOnly (OrdinaryOr fun x => x = .noAttribute ∧
        (∃ u, timestamp t = timestamp u) ∧ z.isSignedRow = true) (zone z) :=
      (failsOnly_zone z).mono fun f hf =>
        hf.imp_right fun ⟨x, hx, ha, hz⟩ => ⟨x, hx, ha, ⟨t, rfl⟩, hz⟩
    simp only [timePart, Eval.failsOnly_bind]
    refine ⟨hz, fun minutes _ => ?_⟩
    split <;> simp
  | _ => simp [timePart]

/-- Items that begin like the name of a zone have no parts to be read. -/
theorem zone_of_isSignedRow {z : Dyn} (hz : z.isSignedRow = true) :
    zone z = Eval.stop .noAttribute := by
  unfold isSignedRow at hz
  split at hz
  · exact if_pos hz
  · exact if_pos hz
  · cases hz

/-- A list of integers is leaked if there is no room for it. -/
theorem failsOnly_range (v : Dyn) :
    FailsOnly
      (OrdinaryOr fun x => x = .noMemory ∧ ∃ n, v = int n ∧ rangeLimit ≤ n ∧ n ≤ int64Max)
      v.range := by
  have hint {n : Int} (h : integer "lists.range" v = .ok n) : v = int n := by
    cases v <;> cases h
    rfl
  simp only [range, Eval.failsOnly_bind, failsOnly_integer, Eval.failsOnly_ite,
    Eval.failsOnly_pure, true_and]
  refine fun n hn => ⟨fun _ => by simp, fun hmax => ⟨fun hl => ?_, fun _ => trivial⟩⟩
  exact Eval.failsOnly_error_iff.mpr (.inr ⟨_, rfl, rfl, n, hint hn, hl, Int.not_lt.mp hmax⟩)

end Dyn

/-! ### Functions -/

namespace Builtin

/-- The function gives a part of a timestamp. -/
def isTimePart : Builtin → Bool
  | fullYear => true
  | month => true
  | date => true
  | dayOfMonth => true
  | dayOfWeek => true
  | dayOfYear => true
  | hours => true
  | minutes => true
  | seconds => true
  | _ => false

/-- What makes a function end in a fault that a program does not turn into an error. -/
inductive Overreaches : Builtin → List Dyn → Fault → Prop
  | zone {f : Builtin} (hf : f.isTimePart = true) (t : Time) {z : Dyn} (hz : z.isSignedRow = true) :
    Overreaches f [.timestamp t, z] .noAttribute
  | range {n : Int} (hn : Dyn.rangeLimit ≤ n) (hmax : n ≤ int64Max) :
    Overreaches .range [.int n] .noMemory

open Eval (FailsOnly)
open EvalFailure (OrdinaryOr)

theorem failsOnly_applyPart {f : Builtin} (hf : f.isTimePart = true) (part : Time → Nat)
    (args : List Dyn) : FailsOnly (OrdinaryOr (Overreaches f args)) (applyPart part args) := by
  unfold applyPart
  split
  · next t =>
    refine (Dyn.failsOnly_timePart part t .null).mono fun _ hx => hx.imp_right ?_
    rintro ⟨_, _, _, _, hz⟩
    cases hz
  · next t z =>
    refine (Dyn.failsOnly_timePart part t z).mono fun _ hx => hx.imp_right ?_
    rintro ⟨_, hfault, rfl, ⟨u, rfl⟩, hz⟩
    exact ⟨_, hfault, .zone hf u hz⟩
  · simp

/-- **A function fails with ordinary failures, or it overreaches.** -/
theorem failsOnly_apply (f : Builtin) (args : List Dyn) :
    FailsOnly (OrdinaryOr (Overreaches f args)) (f.apply args) := by
  have hrange (v : Dyn) : FailsOnly (OrdinaryOr (Overreaches range [v])) v.range := by
    refine (Dyn.failsOnly_range v).mono fun _ hx => hx.imp_right ?_
    rintro ⟨_, hfault, rfl, n, rfl, hn, hmax⟩
    exact ⟨_, hfault, .range hn hmax⟩
  unfold apply
  -- No function takes more than four arguments one by one.
  rcases args with _ | ⟨a, _ | ⟨b, _ | ⟨c, _ | ⟨d, _ | ⟨e, args⟩⟩⟩⟩⟩
  all_goals cases f
  all_goals dsimp only
  all_goals first
    | exact failsOnly_applyPart rfl _ _
    | exact hrange _
    | exact Eval.failsOnly_stop rfl
    | simp [Dyn.contains, Dyn.startsWith, Dyn.endsWith, Dyn.lowerAscii, Dyn.upperAscii, Dyn.trim,
        Dyn.quote, Dyn.setContains, Dyn.setEquivalent, Dyn.setIntersects, Dyn.ceil, Dyn.floor,
        Dyn.round, Dyn.trunc, Dyn.isNaN, Dyn.isInf, Dyn.isFinite, Dyn.bitAnd, Dyn.bitOr,
        Dyn.bitXor, Dyn.bitShiftLeft, Dyn.bitShiftRight]

/-- A function that overreaches ends in the fault. -/
theorem Overreaches.apply_eq {f : Builtin} {args : List Dyn} {x : Fault}
    (h : f.Overreaches args x) : f.apply args = Eval.stop x ∧ escapes x = true := by
  cases h with
  | @zone _ hf t z hz =>
    have hpart (part : Time → Nat) : applyPart part [.timestamp t, z] = Eval.stop .noAttribute := by
      unfold applyPart Dyn.timePart
      dsimp only
      rw [Dyn.zone_of_isSignedRow hz]
      rfl
    refine ⟨?_, rfl⟩
    cases f <;> first | exact hpart _ | cases hf
  | range hn hmax =>
    refine ⟨?_, rfl⟩
    unfold apply Dyn.range Dyn.integer
    dsimp only
    rw [ok_bind, if_neg (Int.not_lt.mpr hmax), if_pos hn]

/-- **A function leaks just what it overreaches for.** -/
theorem leaks_apply_iff {f : Builtin} {args : List Dyn} {x : Fault} :
    f.apply args = .error (.fault x) ∧ escapes x = true ↔ f.Overreaches args x :=
  ⟨fun ⟨hx, he⟩ => (failsOnly_apply f args).leaksOnly x hx he, fun h => h.apply_eq⟩

end Builtin

end LogStream.Filter
