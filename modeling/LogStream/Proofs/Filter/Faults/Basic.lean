import LogStream.Filter.Program
import LogStream.Proofs.Outcome

/-! # Failures of operators

An evaluation fails only with certain failures (`Eval.FailsOnly`). The lemmas on the ways to put
evaluations together are made for `simp`, so that a function fails as its parts do. Operators fail with
ordinary failures only, whatever they are given: they miss no name, and leave no fault that gets through
a program (`EvalFailure.IsOrdinary`). So a statement on the failures of all expressions is one on names
and calls, as long as it tolerates the ordinary ones (`Tolerant`). -/

namespace LogStream.Filter

/-- The failure is neither about the name of a variable nor a fault that gets through a program. -/
def EvalFailure.IsOrdinary : EvalFailure → Prop
  | .error (.noSuchAttribute _) => False
  | .error _ => True
  | .fault f => escapes f = false

/-- Ordinary failures are among the given ones. -/
class Tolerant (allowed : EvalFailure → Prop) : Prop where
  of_isOrdinary {f : EvalFailure} : f.IsOrdinary → allowed f

/-- An ordinary failure or one of the given faults. -/
def EvalFailure.OrdinaryOr (extra : Fault → Prop) (f : EvalFailure) : Prop :=
  f.IsOrdinary ∨ ∃ x, f = .fault x ∧ extra x

instance (extra : Fault → Prop) : Tolerant (EvalFailure.OrdinaryOr extra) := ⟨Or.inl⟩

namespace Eval

variable {α β : Type} {allowed : EvalFailure → Prop}

/-- The evaluation gives a value, or fails with one of the given failures. -/
def FailsOnly (allowed : EvalFailure → Prop) (x : Eval α) : Prop :=
  ∀ f, x = .error f → allowed f

theorem failsOnly_error_iff {f : EvalFailure} :
    FailsOnly allowed (.error f : Eval α) ↔ allowed f :=
  ⟨fun h => h f rfl, fun h g hg => by cases hg; exact h⟩

@[simp] theorem failsOnly_ok (a : α) : FailsOnly allowed (.ok a) := nofun

@[simp] theorem failsOnly_pure (a : α) : FailsOnly allowed (pure a) := nofun

section

variable [Tolerant allowed]

theorem failsOnly_error {f : EvalFailure} (hf : f.IsOrdinary) :
    FailsOnly allowed (.error f : Eval α) :=
  failsOnly_error_iff.mpr (Tolerant.of_isOrdinary hf)

@[simp] theorem failsOnly_fail {e : EvalError} (he : ∀ name, e ≠ .noSuchAttribute name) :
    FailsOnly allowed (fail e : Eval α) := by
  refine failsOnly_error ?_
  cases e with
  | noSuchAttribute name => exact absurd rfl (he name)
  | _ => trivial

theorem failsOnly_stop {f : Fault} (hf : escapes f = false) :
    FailsOnly allowed (stop f : Eval α) := failsOnly_error hf

@[simp] theorem failsOnly_stop_of_ne {f : Fault} (ha : f ≠ .noAttribute) (hm : f ≠ .noMemory) :
    FailsOnly allowed (stop f : Eval α) := by
  refine failsOnly_stop ?_
  cases f <;> first | rfl | contradiction

@[simp] theorem failsOnly_noOverload (name : String) (args : List Dyn) :
    FailsOnly allowed (noOverload name args : Eval α) := failsOnly_fail nofun

@[simp] theorem failsOnly_failShowing (v : Dyn) {e : EvalError}
    (he : ∀ name, e ≠ .noSuchAttribute name) :
    FailsOnly allowed (failShowing v e : Eval α) := by
  unfold failShowing
  split
  · exact failsOnly_fail he
  · exact failsOnly_stop rfl

end

@[simp] theorem failsOnly_bind {x : Eval α} {f : α → Eval β} :
    FailsOnly allowed (x >>= f) ↔
      FailsOnly allowed x ∧ ∀ a, x = .ok a → FailsOnly allowed (f a) := by
  cases x with
  | ok a => simp [ok_bind]
  | error e =>
    change (∀ g, Except.error e = _ → _) ↔ (∀ g, Except.error e = _ → _) ∧ _
    simp

@[simp] theorem failsOnly_map {x : Eval α} {f : α → β} :
    FailsOnly allowed (x.map f) ↔ FailsOnly allowed x := by
  cases x with
  | ok a => simp [Except.map]
  | error e =>
    change (∀ g, Except.error e = _ → _) ↔ (∀ g, Except.error e = _ → _)
    simp

@[simp] theorem failsOnly_functorMap {x : Eval α} {f : α → β} :
    FailsOnly allowed (f <$> x) ↔ FailsOnly allowed x := failsOnly_map

@[simp] theorem failsOnly_elim {o : Option β} {x : Eval α} {f : β → Eval α} :
    FailsOnly allowed (o.elim x f) ↔
      (o = none → FailsOnly allowed x) ∧ ∀ b, o = some b → FailsOnly allowed (f b) := by
  cases o <;> simp

@[simp] theorem failsOnly_ite {c : Prop} [Decidable c] {x y : Eval α} :
    FailsOnly allowed (if c then x else y) ↔
      (c → FailsOnly allowed x) ∧ (¬ c → FailsOnly allowed y) := by
  split <;> simp [*]

/-- More failures may be given. -/
theorem FailsOnly.mono {allowed' : EvalFailure → Prop} {x : Eval α} (h : FailsOnly allowed x)
    (ha : ∀ f, allowed f → allowed' f) : FailsOnly allowed' x :=
  fun f hf => ha f (h f hf)

/-- The faults that the evaluation ends in and that a program does not turn into errors are among
the given ones. -/
def LeaksOnly (leaked : Fault → Prop) (x : Eval α) : Prop :=
  ∀ f, x = .error (.fault f) → escapes f = true → leaked f

theorem FailsOnly.leaksOnly {leaked : Fault → Prop} {x : Eval α}
    (h : FailsOnly (EvalFailure.OrdinaryOr leaked) x) : LeaksOnly leaked x := by
  intro f hf he
  rcases h _ hf with hordinary | ⟨_, ⟨⟩, hleaked⟩
  · exact absurd (he.symm.trans hordinary) nofun
  · exact hleaked

end Eval

/-! ### Operators -/

namespace Dyn

open Eval (FailsOnly)

variable {allowed : EvalFailure → Prop} [Tolerant allowed]

@[simp] theorem failsOnly_field? (v : Dyn) (field : Text) : FailsOnly allowed (v.field? field) := by
  cases v <;> simp [field?]

@[simp] theorem failsOnly_selectLenient (v : Dyn) (field : Text) :
    FailsOnly allowed (v.selectLenient field) := by
  unfold selectLenient
  split <;> simp

@[simp] theorem failsOnly_select (v : Dyn) (field : Text) : FailsOnly allowed (v.select field) := by
  unfold select
  simp only [Eval.failsOnly_ite, failsOnly_selectLenient, Eval.failsOnly_bind, failsOnly_field?]
  refine ⟨fun _ => trivial, fun _ => ⟨trivial, fun o _ => ?_⟩⟩
  split <;> simp

@[simp] theorem failsOnly_element? (v key : Dyn) : FailsOnly allowed (v.element? key) := by
  cases v with
  | list xs => unfold element?; cases key.place? <;> simp
  | map es => simp [element?]
  | _ => simp [element?]

@[simp] theorem failsOnly_indexLenient (v key : Dyn) : FailsOnly allowed (v.indexLenient key) := by
  unfold indexLenient
  split <;> simp

@[simp] theorem failsOnly_index (v key : Dyn) : FailsOnly allowed (v.index key) := by
  unfold index
  simp only [Eval.failsOnly_ite, failsOnly_indexLenient, Eval.failsOnly_bind, failsOnly_element?]
  refine ⟨fun _ => trivial, fun _ => ⟨trivial, fun o _ => ?_⟩⟩
  split <;> simp

@[simp] theorem failsOnly_hasField (v : Dyn) (field : Text) :
    FailsOnly allowed (v.hasField field) := by
  simp [hasField]

@[simp] theorem failsOnly_checked (n : Int) : FailsOnly allowed (checked n) := by
  simp [checked]

@[simp] theorem failsOnly_orOverflow {α : Type} (typeName : String) (make : α → Dyn)
    (o : Option α) : FailsOnly allowed (orOverflow typeName make o) := by
  cases o <;> simp [orOverflow]

@[simp] theorem failsOnly_arithmetic (op : BinaryOp) (v w : Dyn) :
    FailsOnly allowed (arithmetic op v w) := by
  unfold arithmetic
  split <;> simp

@[simp] theorem failsOnly_negate (v : Dyn) : FailsOnly allowed v.negate := by
  cases v <;> simp [negate]

@[simp] theorem failsOnly_compare (op : BinaryOp) (v w : Dyn) :
    FailsOnly allowed (compare op v w) := by
  unfold compare
  split <;> simp

@[simp] theorem failsOnly_isIn (v container : Dyn) : FailsOnly allowed (v.isIn container) := by
  cases container <;> simp [isIn]

@[simp] theorem failsOnly_truth (name : String) (v : Dyn) : FailsOnly allowed (v.truth name) := by
  cases v <;> simp [truth]

@[simp] theorem failsOnly_operate (op : BinaryOp) (v w : Dyn) :
    FailsOnly allowed (operate op v w) := by
  cases op <;> simp [operate]

end Dyn

end LogStream.Filter
