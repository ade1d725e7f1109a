import LogStream.Filter.Apply
import LogStream.Proofs.Outcome

/-! # Properties that values hand down

Of the properties of values those matter that a value has just if all values in it do, and that all integers
of 64 bits have (`Hereditary`). Operators give values with such a property for operands with it
(`Hereditary.gives_operate`): what they give is made of parts of their operands, or is an integer that was
checked. -/

namespace LogStream.Filter

/-- The integer is a signed or an unsigned one of 64 bits. -/
def FitsIn64 (n : Int) : Prop := int64Min ≤ n ∧ n ≤ uint64Max

instance : DecidablePred FitsIn64 := fun n => inferInstanceAs (Decidable (int64Min ≤ n ∧ n ≤ uint64Max))

/-! ### Values that are given -/

namespace Eval

variable {α β : Type} {good : α → Prop} {good' : β → Prop}

/-- If the evaluation gives a value, then a good one. -/
def Gives (good : α → Prop) (x : Eval α) : Prop := ∀ a, x = .ok a → good a

@[simp] theorem gives_ok {a : α} : Gives good (.ok a) ↔ good a :=
  ⟨fun h => h a rfl, fun h b hb => by cases hb; exact h⟩

@[simp] theorem gives_pure {a : α} : Gives good (pure a) ↔ good a := gives_ok

theorem gives_error (f : EvalFailure) : Gives good (.error f) := nofun

@[simp] theorem gives_fail (e : EvalError) : Gives good (fail e) := gives_error _

@[simp] theorem gives_stop (f : Fault) : Gives good (stop f) := gives_error _

@[simp] theorem gives_noOverload (name : String) (args : List Dyn) :
    Gives good (noOverload name args) := gives_error _

@[simp] theorem gives_failShowing (v : Dyn) (e : EvalError) : Gives good (failShowing v e) := by
  unfold failShowing
  split <;> simp

@[simp] theorem gives_bind {x : Eval α} {f : α → Eval β} :
    Gives good' (x >>= f) ↔ ∀ a, x = .ok a → Gives good' (f a) := by
  constructor
  · rintro h a rfl
    exact h
  · intro h b hb
    obtain ⟨a, ha, hf⟩ := exists_of_bind_eq_ok hb
    exact h a ha b hf

@[simp] theorem gives_map {x : Eval α} {f : α → β} :
    Gives good' (x.map f) ↔ ∀ a, x = .ok a → good' (f a) := by
  constructor
  · rintro h a rfl
    exact h _ rfl
  · intro h b hb
    obtain ⟨a, ha, rfl⟩ := exists_of_map_eq_ok hb
    exact h a ha

@[simp] theorem gives_functorMap {x : Eval α} {f : α → β} :
    Gives good' (f <$> x) ↔ ∀ a, x = .ok a → good' (f a) := gives_map

@[simp] theorem gives_elim {o : Option β} {x : Eval α} {f : β → Eval α} :
    Gives good (o.elim x f) ↔ (o = none → Gives good x) ∧ ∀ b, o = some b → Gives good (f b) := by
  cases o <;> simp

@[simp] theorem gives_ite {c : Prop} [Decidable c] {x y : Eval α} :
    Gives good (if c then x else y) ↔ (c → Gives good x) ∧ (¬ c → Gives good y) := by
  split <;> simp [*]

end Eval

/-! ### Hereditary properties -/

/-- The value has no values in it and is no integer. -/
def Dyn.isPlain : Dyn → Bool
  | .null | .bool _ | .double _ | .string _ | .bytes _ | .timestamp _ | .duration _ => true
  | _ => false

/-- A property that a value has if all values in it have it. An integer of 64 bits always has it. -/
structure Hereditary where
  holds : Dyn → Prop
  holds_plain : ∀ {v}, v.isPlain = true → holds v
  holds_int : ∀ {n}, FitsIn64 n → holds (.int n)
  holds_list_iff : ∀ {xs}, holds (.list xs) ↔ ∀ x ∈ xs, holds x
  holds_optional_iff : ∀ {c}, holds (.optional c) ↔ ∀ v ∈ c, holds v
  holds_entry : ∀ {es}, holds (.map es) → ∀ e ∈ es, holds e.1 ∧ holds e.2
  holds_nil : holds (.map [])
  /-- A map may get a new key. -/
  holds_snoc : ∀ {es k v}, holds (.map es) → ¬ (Dyn.binding? k es).isSome → holds k → holds v →
    holds (.map (es ++ [(k, v)]))

attribute [simp] Hereditary.holds_list_iff Hereditary.holds_optional_iff

namespace Hereditary

variable (p : Hereditary)

/-- All values have the property. -/
abbrev AllHold (xs : List Dyn) : Prop := ∀ x ∈ xs, p.holds x

variable {p} {v w x : Dyn} {xs ys : List Dyn} {es : List (Dyn × Dyn)}

open Dyn
open Eval (Gives)

@[simp] theorem holds_null : p.holds null := p.holds_plain rfl

@[simp] theorem holds_bool (b : Bool) : p.holds (bool b) := p.holds_plain rfl

@[simp] theorem holds_double (x : Double) : p.holds (double x) := p.holds_plain rfl

@[simp] theorem holds_string (t : Text) : p.holds (string t) := p.holds_plain rfl

@[simp] theorem holds_bytes (bs : Bytes) : p.holds (bytes bs) := p.holds_plain rfl

@[simp] theorem holds_timestamp (t : Time) : p.holds (timestamp t) := p.holds_plain rfl

@[simp] theorem holds_duration (d : Duration) : p.holds (duration d) := p.holds_plain rfl

@[simp] theorem allHold_map_iff {α : Type} {f : α → Dyn} {as : List α} :
    p.AllHold (as.map f) ↔ ∀ a ∈ as, p.holds (f a) := List.forall_mem_map

/-! ### Fields and elements -/

theorem holds_lookup? {key : Dyn} (h : p.holds (map es)) (hw : lookup? key es = some w) :
    p.holds w := by
  obtain ⟨e, he, rfl⟩ := Option.map_eq_some_iff.mp hw
  exact (p.holds_entry h e (List.mem_of_find?_eq_some he)).2

theorem gives_field? (h : p.holds v) (field : Text) :
    Gives (fun c => ∀ w ∈ c, p.holds w) (v.field? field) := by
  cases v with
  | map es => exact Eval.gives_ok.mpr fun w hw => holds_lookup? h hw
  | _ => simp [field?]

theorem holds_unwrapped? (h : p.holds v) (hw : v.unwrapped? = some w) : p.holds w := by
  unfold unwrapped? at hw
  split at hw
  · exact p.holds_optional_iff.mp h w hw
  · cases hw
    exact h

theorem gives_selectLenient (h : p.holds v) (field : Text) :
    Gives p.holds (v.selectLenient field) := by
  unfold selectLenient
  split
  · simp
  · next w hw =>
    refine Eval.gives_map.mpr fun c hc => p.holds_optional_iff.mpr ?_
    exact gives_field? (holds_unwrapped? h hw) field c hc

theorem gives_select (h : p.holds v) (field : Text) : Gives p.holds (v.select field) := by
  unfold select
  refine Eval.gives_ite.mpr ⟨fun _ => gives_selectLenient h field, fun _ => ?_⟩
  refine Eval.gives_bind.mpr fun c hc => ?_
  split
  · exact Eval.gives_ok.mpr (gives_field? h field _ hc _ rfl)
  · simp

theorem gives_element? (h : p.holds v) (key : Dyn) :
    Gives (fun c => ∀ w ∈ c, p.holds w) (v.element? key) := by
  cases v with
  | list xs =>
    unfold element?
    dsimp only
    split
    · refine Eval.gives_ok.mpr fun w hw => ?_
      split at hw
      · exact p.holds_list_iff.mp h w (List.mem_of_getElem? hw)
      · cases hw
    · simp
  | map es =>
    unfold element?
    refine Eval.gives_ite.mpr ⟨fun _ => Eval.gives_ok.mpr fun w hw => ?_, fun _ => by simp⟩
    unfold contentAt? at hw
    split at hw
    · obtain ⟨e, he, rfl⟩ := Option.map_eq_some_iff.mp hw
      exact (p.holds_entry h e (List.mem_of_find?_eq_some he)).2
    · exact holds_lookup? h hw
  | _ => simp [element?]

theorem gives_indexLenient (h : p.holds v) (key : Dyn) : Gives p.holds (v.indexLenient key) := by
  unfold indexLenient
  split
  · simp
  · next w hw =>
    refine Eval.gives_map.mpr fun c hc => p.holds_optional_iff.mpr ?_
    exact gives_element? (holds_unwrapped? h hw) key c hc

theorem gives_index (h : p.holds v) (key : Dyn) : Gives p.holds (v.index key) := by
  unfold index
  refine Eval.gives_ite.mpr ⟨fun _ => gives_indexLenient h key, fun _ => ?_⟩
  refine Eval.gives_bind.mpr fun c hc => ?_
  split
  · exact Eval.gives_ok.mpr (gives_element? h key _ hc _ rfl)
  · simp
  · simp

@[simp] theorem gives_hasField (v : Dyn) (field : Text) : Gives p.holds (v.hasField field) := by
  simp [hasField]

/-! ### Arithmetic and comparison -/

@[simp] theorem gives_checked (n : Int) : Gives p.holds (checked n) :=
  Eval.gives_ite.mpr ⟨fun h => Eval.gives_ok.mpr (p.holds_int h), fun _ => Eval.gives_fail _⟩

theorem gives_orOverflow {α : Type} {make : α → Dyn} (h : ∀ a, p.holds (make a)) (typeName : String)
    (o : Option α) : Gives p.holds (orOverflow typeName make o) := by
  cases o <;> simp [orOverflow, h]

theorem gives_arithmetic (hv : p.holds v) (hw : p.holds w) (op : BinaryOp) :
    Gives p.holds (arithmetic op v w) := by
  unfold arithmetic
  split
  case h_5 a b =>
    rw [p.holds_list_iff] at hv hw
    exact Eval.gives_ok.mpr (p.holds_list_iff.mpr (List.forall_mem_append.mpr ⟨hv, hw⟩))
  all_goals simp [gives_orOverflow]

@[simp] theorem gives_negate (v : Dyn) : Gives p.holds v.negate := by
  cases v <;> simp [negate]

@[simp] theorem gives_compare (op : BinaryOp) (v w : Dyn) : Gives p.holds (Dyn.compare op v w) := by
  unfold Dyn.compare
  split <;> simp

@[simp] theorem gives_isIn (v container : Dyn) : Gives p.holds (v.isIn container) := by
  cases container <;> simp [isIn]

/-- **An operator gives a value with the property for operands with it.** -/
theorem gives_operate (hv : p.holds v) (hw : p.holds w) (op : BinaryOp) :
    Gives p.holds (operate op v w) := by
  cases op <;> simp [operate, gives_arithmetic hv hw]

end Hereditary

end LogStream.Filter
