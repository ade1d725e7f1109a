import LogStream.Proofs.Filter.Hereditary.Basic
import LogStream.Proofs.Filter.Typing.Lists
import LogStream.Proofs.Filter.Typing.Numbers
import LogStream.Proofs.Time.Calendar

/-! # Functions and properties that values hand down

A function gives a value with a hereditary property for arguments with it, but for the few whose integers
nothing checks (`Builtin.isUnchecked`, `Hereditary.gives_apply`): all others hand on parts of their arguments,
or give what is plain, or integers of 64 bits. -/

namespace LogStream.Filter

/-- The functions whose integers nothing checks. -/
def Builtin.isUnchecked : Builtin → Bool
  | size | indexOf | lastIndexOf | bitAnd | bitOr | bitXor | bitNot => true
  | _ => false

/-! ### Integers of 64 bits -/

theorem fitsIn64_of_le_int64Max {n : Int} (h : int64Min ≤ n) (h' : n ≤ int64Max) : FitsIn64 n :=
  ⟨h, Int.le_trans h' (by decide)⟩

theorem fitsIn64_of_nonneg {n : Int} (h : 0 ≤ n) (h' : n ≤ uint64Max) : FitsIn64 n :=
  ⟨Int.le_trans (by decide) h, h'⟩

theorem fitsIn64_of_lt {n : Nat} (h : n < 10000000) : FitsIn64 n := by
  simp only [FitsIn64, int64Min, uint64Max]
  omega

theorem fitsIn64_sign (n : Int) : FitsIn64 n.sign := by
  rcases Int.sign_trichotomy n with h | h | h
  all_goals rw [h]; decide

/-- The signed integer of a pattern of 64 bits. -/
theorem fitsIn64_ofPattern {n : Nat} (h : n < 0x10000000000000000) : FitsIn64 (Dyn.ofPattern n) := by
  unfold Dyn.ofPattern
  simp only [FitsIn64, int64Min, uint64Max]
  split <;> omega

theorem pattern64_lt (n : Int) : Dyn.pattern64 n < 0x10000000000000000 := by
  unfold Dyn.pattern64
  have := Int.emod_lt_of_pos n (show (0 : Int) < 0x10000000000000000 by decide)
  have := Int.emod_nonneg n (show (0x10000000000000000 : Int) ≠ 0 by decide)
  change (n % 0x10000000000000000).toNat < _
  omega

namespace Hereditary

open Dyn
open Eval (Gives)

variable {p : Hereditary} {v w x : Dyn} {xs ys : List Dyn}

/-! ### Functions on strings and conversions -/

@[simp] theorem gives_strings1 {f : Text → Dyn} (h : ∀ s, p.holds (f s)) (name : String) (v : Dyn) :
    Gives p.holds (strings1 name f v) := by
  cases v <;> simp [strings1, h]

@[simp] theorem gives_strings2 {f : Text → Text → Dyn} (h : ∀ s t, p.holds (f s t)) (name : String)
    (v w : Dyn) : Gives p.holds (strings2 name f v w) := by
  unfold strings2
  split <;> simp [h]

@[simp] theorem gives_split (s sep limit : Dyn) : Gives p.holds (s.split sep limit) := by
  unfold split
  split <;> simp

@[simp] theorem gives_replace (s old new limit : Dyn) :
    Gives p.holds (s.replace old new limit) := by
  unfold replace
  split <;> simp

@[simp] theorem gives_join (items sep : Dyn) : Gives p.holds (items.join sep) := by
  unfold Dyn.join
  split
  · split <;> simp
  · simp

@[simp] theorem gives_charAt (s i : Dyn) : Gives p.holds (s.charAt i) := by
  cases s <;> simp [charAt]

@[simp] theorem gives_substring (s start stop : Dyn) :
    Gives p.holds (s.substring start stop) := by
  cases s with
  | string s =>
    refine Eval.gives_bind.mpr fun a _ => ?_
    split <;> simp [failRange]
  | _ => simp [substring]

@[simp] theorem gives_format (template args : Dyn) : Gives p.holds (template.format args) := by
  unfold format
  split <;> simp

@[simp] theorem gives_isMatch (s pattern : Dyn) : Gives p.holds (s.isMatch pattern) := by
  unfold isMatch
  split
  · split <;> simp
  · simp

theorem gives_signed (v : Dyn) : Gives FitsIn64 (signed v) :=
  Eval.gives_bind.mpr fun _ _ => Eval.gives_ite.mpr
    ⟨fun h => Eval.gives_pure.mpr (fitsIn64_of_le_int64Max h.1 h.2), fun _ => Eval.gives_fail _⟩

@[simp] theorem gives_toInt (v : Dyn) : Gives p.holds v.toInt :=
  Eval.gives_bind.mpr fun n hn => Eval.gives_pure.mpr (p.holds_int (gives_signed v n hn))

@[simp] theorem gives_toUint (v : Dyn) : Gives p.holds v.toUint :=
  Eval.gives_bind.mpr fun _ _ => Eval.gives_ite.mpr
    ⟨fun h => Eval.gives_pure.mpr (p.holds_int (fitsIn64_of_nonneg h.1 h.2)), fun _ => Eval.gives_fail _⟩

@[simp] theorem gives_toDouble (v : Dyn) : Gives p.holds v.toDouble := by
  unfold toDouble
  split
  · simp
  · split <;> simp

@[simp] theorem gives_toText (v : Dyn) : Gives p.holds v.toText := by simp [toText]

theorem gives_toBytes (h : p.holds v) : Gives p.holds v.toBytes := by
  unfold toBytes
  split
  · simp
  · exact Eval.gives_ok.mpr h

@[simp] theorem gives_encodeBase64 (v : Dyn) : Gives p.holds v.encodeBase64 := by
  cases v <;> simp [encodeBase64]

@[simp] theorem gives_decodeBase64 (v : Dyn) : Gives p.holds v.decodeBase64 := by
  cases v <;> simp [decodeBase64]

@[simp] theorem gives_toBool (v : Dyn) : Gives p.holds v.toBool := by
  cases v <;> simp [Dyn.toBool]

@[simp] theorem gives_toTimestamp (v : Dyn) : Gives p.holds v.toTimestamp := by
  cases v <;> simp [toTimestamp]

@[simp] theorem gives_toDuration (v : Dyn) : Gives p.holds v.toDuration := by
  cases v <;> simp [toDuration]

theorem gives_timePart {part : Time → Nat} (h : ∀ t, FitsIn64 (part t)) (v z : Dyn) :
    Gives p.holds (timePart part v z) := by
  unfold timePart
  split
  · refine Eval.gives_bind.mpr fun minutes _ => ?_
    split
    · exact Eval.gives_pure.mpr (p.holds_int (h _))
    · exact Eval.gives_stop _
  · simp

/-! ### Functions on numbers -/

theorem gives_numbers {args : List Dyn} (h : p.AllHold args) (name : String) :
    Gives p.AllHold (numbers name args) := by
  unfold numbers
  dsimp only
  refine Eval.gives_ite.mpr ⟨fun _ => by simp, fun _ => ?_⟩
  refine Eval.gives_ite.mpr ⟨fun _ => Eval.gives_ok.mpr ?_, fun _ => by simp⟩
  split
  · exact p.holds_list_iff.mp (List.forall_mem_singleton.mp h)
  · exact h

theorem holds_bestOf (better : Dyn → Dyn → Bool) (h : p.AllHold xs) : p.holds (bestOf better xs) := by
  cases xs with
  | nil => exact holds_null
  | cons x xs => exact h _ (bestOf_mem better (List.cons_ne_nil x xs))

theorem gives_greatest {args : List Dyn} (h : p.AllHold args) : Gives p.holds (greatest args) :=
  Eval.gives_bind.mpr fun xs hxs => Eval.gives_pure.mpr (holds_bestOf _ (gives_numbers h _ xs hxs))

theorem gives_least {args : List Dyn} (h : p.AllHold args) : Gives p.holds (least args) :=
  Eval.gives_bind.mpr fun xs hxs => Eval.gives_pure.mpr (holds_bestOf _ (gives_numbers h _ xs hxs))

theorem gives_number (h : p.holds v) (name : String) : Gives p.holds (number name v) := by
  refine Eval.gives_bind.mpr fun xs hxs => ?_
  have hall := gives_numbers (List.forall_mem_singleton.mpr h) _ xs hxs
  split
  · exact Eval.gives_pure.mpr (hall _ List.mem_cons_self)
  · simp

theorem gives_abs (h : p.holds v) : Gives p.holds v.abs := by
  refine Eval.gives_bind.mpr fun w hw => ?_
  split
  · exact gives_checked _
  · simp
  · exact Eval.gives_pure.mpr (gives_number h _ _ hw)

theorem gives_sign (h : p.holds v) : Gives p.holds v.sign := by
  refine Eval.gives_bind.mpr fun w hw => ?_
  split
  · exact Eval.gives_pure.mpr (p.holds_int (fitsIn64_sign _))
  · simp
  · exact Eval.gives_pure.mpr (gives_number h _ _ hw)

@[simp] theorem gives_sqrt (v : Dyn) : Gives p.holds v.sqrt := by
  refine Eval.gives_bind.mpr fun w _ => ?_
  split <;> simp

@[simp] theorem gives_rounding (name : String) (round : Double → Double) (v : Dyn) :
    Gives p.holds (rounding name round v) := by
  simp [rounding]

@[simp] theorem gives_doubleTest (name : String) (test : Double → Bool) (v : Dyn) :
    Gives p.holds (doubleTest name test v) := by
  simp [doubleTest]

theorem gives_shift {f : Int → Nat → Int} (h : ∀ n k, FitsIn64 (f n k)) (name : String) (v places : Dyn) :
    Gives p.holds (shift name f v places) := by
  refine Eval.gives_bind.mpr fun n _ => Eval.gives_bind.mpr fun k _ => ?_
  refine Eval.gives_ite.mpr ⟨fun _ => by simp, fun _ => ?_⟩
  refine Eval.gives_ite.mpr ⟨fun _ => Eval.gives_pure.mpr ?_, fun _ => Eval.gives_pure.mpr ?_⟩
  · exact p.holds_int (by decide)
  · exact p.holds_int (h n k.toNat)

theorem gives_bitShiftLeft (v places : Dyn) : Gives p.holds (v.bitShiftLeft places) :=
  gives_shift (fun _ _ => fitsIn64_ofPattern (pattern64_lt _)) _ _ _

theorem gives_bitShiftRight (v places : Dyn) : Gives p.holds (v.bitShiftRight places) :=
  gives_shift (fun _ _ => fitsIn64_ofPattern
    (Nat.lt_of_le_of_lt (Nat.div_le_self _ _) (pattern64_lt _))) _ _ _

/-! ### Functions on lists and optional values -/

theorem gives_elements (h : p.holds v) (name : String) (args : List Dyn) :
    Gives p.AllHold (elements name args v) := by
  cases v with
  | list xs => exact Eval.gives_ok.mpr (p.holds_list_iff.mp h)
  | _ => simp [elements]

theorem gives_reverse (h : p.holds v) : Gives p.holds v.reverse := by
  cases v with
  | list xs =>
    rw [p.holds_list_iff] at h
    exact Eval.gives_ok.mpr (p.holds_list_iff.mpr fun x hx => h x (List.mem_reverse.mp hx))
  | _ => simp [reverse]

theorem gives_slice (h : p.holds v) (start stop : Dyn) :
    Gives p.holds (v.slice start stop) := by
  refine Eval.gives_bind.mpr fun xs hxs => Eval.gives_bind.mpr fun a _ =>
    Eval.gives_bind.mpr fun b _ => Eval.gives_ite.mpr ⟨fun _ => ?_, fun _ => by simp [failRange]⟩
  exact Eval.gives_pure.mpr (p.holds_list_iff.mpr fun x hx =>
    gives_elements h _ _ xs hxs x (List.mem_of_mem_take (List.mem_of_mem_drop hx)))

theorem gives_first (h : p.holds v) : Gives p.holds v.first :=
  Eval.gives_bind.mpr fun xs hxs => Eval.gives_pure.mpr (p.holds_optional_iff.mpr fun x hx =>
    gives_elements h _ _ xs hxs x (List.mem_of_mem_head? hx))

theorem gives_last (h : p.holds v) : Gives p.holds v.last :=
  Eval.gives_bind.mpr fun xs hxs => Eval.gives_pure.mpr (p.holds_optional_iff.mpr fun x hx =>
    gives_elements h _ _ xs hxs x (List.mem_of_getLast? hx))

mutual

theorem allHold_flat (depth : Nat) : ∀ {v : Dyn}, p.holds v → p.AllHold (flat depth v)
  | .list xs, h => by
    rw [flat]
    split
    · exact List.forall_mem_singleton.mpr h
    · exact allHold_flatAll (depth - 1) (p.holds_list_iff.mp h)
  | .null, h | .bool _, h | .int _, h | .double _, h | .string _, h | .bytes _, h | .map _, h
  | .timestamp _, h | .duration _, h | .optional _, h | .members _, h | .foreign _, h =>
    List.forall_mem_singleton.mpr h
termination_by structural v => v

theorem allHold_flatAll (depth : Nat) : ∀ {xs : List Dyn}, p.AllHold xs →
    p.AllHold (flatAll depth xs)
  | [], h => h
  | x :: xs, h => by
    obtain ⟨hx, hxs⟩ := List.forall_mem_cons.mp h
    exact List.forall_mem_append.mpr ⟨allHold_flat depth hx, allHold_flatAll depth hxs⟩
termination_by structural xs => xs

end

theorem gives_flatten (h : p.holds v) (depth : Dyn) : Gives p.holds (v.flatten depth) := by
  refine Eval.gives_bind.mpr fun xs hxs => Eval.gives_bind.mpr fun n _ =>
    Eval.gives_ite.mpr ⟨fun _ => by simp, fun _ => Eval.gives_pure.mpr (p.holds_list_iff.mpr ?_)⟩
  exact allHold_flatAll _ (gives_elements h _ _ xs hxs)

theorem gives_distinct (h : p.holds v) : Gives p.holds v.distinct := by
  refine Eval.gives_bind.mpr fun xs hxs => Eval.gives_pure.mpr (p.holds_list_iff.mpr fun x hx => ?_)
  rcases mem_distinctOf x hx with hx | hx
  · exact absurd hx List.not_mem_nil
  · exact gives_elements h _ _ xs hxs x hx

theorem gives_range (v : Dyn) : Gives p.holds v.range := by
  refine Eval.gives_bind.mpr fun n _ => Eval.gives_ite.mpr ⟨fun _ => by simp, fun hn => ?_⟩
  refine Eval.gives_ite.mpr ⟨fun _ => by simp, fun _ => Eval.gives_pure.mpr ?_⟩
  refine p.holds_list_iff.mpr (List.forall_mem_map.mpr fun i hi => p.holds_int ?_)
  have hlt := List.mem_range.mp hi
  simp only [FitsIn64, int64Min, uint64Max, int64Max] at hn ⊢
  omega

@[simp] theorem gives_relation (name : String) (holds : List Dyn → List Dyn → Bool) (v w : Dyn) :
    Gives p.holds (relation name holds v w) := by
  simp [relation]

theorem gives_sortBy {items : List (Dyn × Dyn)} (h : ∀ a ∈ items, p.holds a.2) (name : String) :
    Gives p.AllHold (sortBy name items) := by
  unfold sortBy
  refine Eval.gives_ite.mpr ⟨fun _ => Eval.gives_ok.mpr fun x hx => ?_, fun _ => by simp⟩
  obtain ⟨a, ha, rfl⟩ := List.mem_map.mp hx
  exact h a (mem_sortItems a ha)

theorem gives_sort (h : p.holds v) : Gives p.holds v.sort := by
  refine Eval.gives_bind.mpr fun xs hxs => Eval.gives_bind.mpr fun ys hys => ?_
  refine Eval.gives_pure.mpr (p.holds_list_iff.mpr (gives_sortBy (fun a ha => ?_) _ ys hys))
  obtain ⟨x, hx, rfl⟩ := List.mem_map.mp ha
  exact gives_elements h _ _ xs hxs x hx

theorem gives_orValue (hv : p.holds v) (hw : p.holds w) : Gives p.holds (v.orValue w) := by
  unfold orValue
  split
  · exact Eval.gives_ok.mpr (p.holds_optional_iff.mp hv _ rfl)
  · exact Eval.gives_ok.mpr hw
  · simp

@[simp] theorem gives_hasValue (v : Dyn) : Gives p.holds v.hasValue := by
  cases v <;> simp [hasValue]

theorem gives_value (h : p.holds v) : Gives p.holds v.value := by
  unfold value
  split
  · exact Eval.gives_ok.mpr (p.holds_optional_iff.mp h _ rfl)
  · simp
  · simp

theorem gives_orElse (hv : p.holds v) (hw : p.holds w) : Gives p.holds (v.orElse w) := by
  unfold orElse
  split
  · exact Eval.gives_ok.mpr hv
  · exact Eval.gives_ok.mpr hw
  · simp

/-! ### All functions -/

theorem gives_applyPart {part : Time → Nat} (h : ∀ t, part t < 10000000) (args : List Dyn) :
    Gives p.holds (Builtin.applyPart part args) := by
  have hpart := fun v z => gives_timePart (p := p) (fun t => fitsIn64_of_lt (h t)) v z
  unfold Builtin.applyPart
  split
  · exact hpart _ _
  · exact hpart _ _
  · exact Eval.gives_stop _

/-- The value is a number of things, or the place of one, or -1 for none. -/
def IsMeasure (v : Dyn) : Prop := ∃ n, -1 ≤ n ∧ v = int n

theorem isMeasure_found (i : Option Nat) : IsMeasure (found i) := by
  cases i with
  | none => exact ⟨-1, Int.le_refl _, rfl⟩
  | some n => exact ⟨n, by omega, rfl⟩

theorem gives_size (v : Dyn) : Gives IsMeasure v.size := by
  have hlength (n : Nat) : IsMeasure (int n) := ⟨n, by omega, rfl⟩
  cases v <;> simp [size, hlength]

theorem gives_indexOf (s sub from_ : Dyn) : Gives IsMeasure (s.indexOf sub from_) := by
  unfold indexOf
  split <;> simp [isMeasure_found]

theorem gives_lastIndexOf (s sub upTo : Dyn) : Gives IsMeasure (s.lastIndexOf sub upTo) := by
  unfold lastIndexOf
  split
  · split <;> simp [isMeasure_found]
  · simp

/-- What is measured is a size or a place. -/
theorem gives_measure {f : Builtin} (hf : f ∈ [.size, .indexOf, .lastIndexOf]) (args : List Dyn) :
    Gives IsMeasure (f.apply args) := by
  unfold Builtin.apply
  -- None of these functions takes more than three arguments.
  rcases args with _ | ⟨a, _ | ⟨b, _ | ⟨c, _ | ⟨d, args⟩⟩⟩⟩
  all_goals cases f
  all_goals first
    | exact absurd hf (by decide)
    | exact Eval.gives_stop _
    | exact gives_size _
    | exact gives_indexOf _ _ _
    | exact gives_lastIndexOf _ _ _

/-- The functions whose integers nothing checks give nothing else. -/
theorem gives_int_of_isUnchecked {f : Builtin} (hf : f.isUnchecked = true) (args : List Dyn) :
    Gives (fun v => ∃ n, v = .int n) (f.apply args) := by
  intro v hv
  cases f with
  | size | indexOf | lastIndexOf =>
    obtain ⟨n, -, rfl⟩ := gives_measure (by decide) args v hv
    exact ⟨n, rfl⟩
  | bitAnd | bitOr | bitXor =>
    match args with
    | [v, w] =>
      obtain ⟨a, -, hv⟩ := exists_of_bind_eq_ok hv
      obtain ⟨b, -, hv⟩ := exists_of_bind_eq_ok hv
      exact ⟨_, (Except.ok.inj hv).symm⟩
  | bitNot =>
    match args with
    | [v] =>
      obtain ⟨a, -, hv⟩ := exists_of_bind_eq_ok hv
      exact ⟨_, (Except.ok.inj hv).symm⟩
  | _ => cases hf

theorem gives_of_not_isUnchecked {f : Builtin} (hf : f.isUnchecked = false) {args : List Dyn}
    (hargs : p.AllHold args) : Gives p.holds (f.apply args) := by
  have h := hargs
  unfold Builtin.apply
  -- But for the greatest and the least, no function takes more than four arguments.
  rcases args with _ | ⟨a, _ | ⟨b, _ | ⟨c, _ | ⟨d, _ | ⟨e, args⟩⟩⟩⟩⟩
  all_goals simp only [AllHold, List.forall_mem_cons] at h
  all_goals cases f
  all_goals dsimp only
  all_goals first
    | exact Eval.gives_stop _
    | exact absurd hf (by decide)
    | exact gives_applyPart (fun t => by have := t.fields_lt; omega) _
    | exact gives_greatest hargs
    | exact gives_least hargs
    -- The functions that hand on an argument or parts of one.
    | exact gives_toBytes h.1
    | exact gives_reverse h.1
    | exact gives_slice h.1 _ _
    | exact gives_flatten h.1 _
    | exact gives_sort h.1
    | exact gives_distinct h.1
    | exact gives_first h.1
    | exact gives_last h.1
    | exact gives_orValue h.1 h.2.1
    | exact gives_value h.1
    | exact gives_orElse h.1 h.2.1
    | exact gives_abs h.1
    | exact gives_sign h.1
    -- The functions that give integers of their own.
    | exact gives_range _
    | exact gives_bitShiftLeft _ _
    | exact gives_bitShiftRight _ _
    | simp [h, Dyn.contains, Dyn.startsWith, Dyn.endsWith, Dyn.lowerAscii, Dyn.upperAscii, Dyn.trim,
        Dyn.quote, Dyn.setContains, Dyn.setEquivalent, Dyn.setIntersects, Dyn.ceil, Dyn.floor, Dyn.round,
        Dyn.trunc, Dyn.isNaN, Dyn.isInf, Dyn.isFinite]

/-- **A function gives a value with the property for arguments with it**, if an integer that nothing checked
has it. -/
theorem gives_apply (f : Builtin) {args : List Dyn} (hargs : p.AllHold args)
    (hint : f.isUnchecked = true → ∀ n, f.apply args = .ok (.int n) → p.holds (.int n)) :
    Gives p.holds (f.apply args) := by
  cases hf : f.isUnchecked with
  | false => exact gives_of_not_isUnchecked hf hargs
  | true =>
    intro v hv
    obtain ⟨n, rfl⟩ := gives_int_of_isUnchecked hf args v hv
    exact hint hf n hv

end Hereditary

end LogStream.Filter
