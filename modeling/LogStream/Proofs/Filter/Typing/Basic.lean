import Mathlib.Data.List.Forall2
import LogStream.Filter.Program
import LogStream.Proofs.Outcome

/-! # Typed values and sound evaluations

A value has a type all the way down (`Dyn.HasType`). A static type says all about its values, since
no part of it is `dyn`: what is assignable to it is of the same type (`Ty.eq_of_assignable`). An
evaluation is sound if its value is as expected, or its failure one that typed operands may lead to
(`Eval.Sound`): division by zero may, but not an operator that refuses its operands. -/

namespace LogStream.Filter

/-! ### Static types -/

namespace Ty

/-- No part of the type is `dyn`. -/
def isStatic : Ty → Bool
  | dyn => false
  | list e => e.isStatic
  | map k v => k.isStatic && v.isStatic
  | optional e => e.isStatic
  | _ => true

theorem ne_dyn {t : Ty} (h : t.isStatic = true) : t ≠ dyn := by
  rintro rfl
  cases h

/-- What is assignable to a static type is of that type. -/
theorem eq_of_assignable {a b : Ty} (ha : a.isStatic = true) (hb : b.isStatic = true)
    (h : a.assignable b = true) : a = b := by
  induction a generalizing b with
  | dyn => cases ha
  | list a iha =>
    cases b with
    | list b => rw [iha (b := b) ha hb h]
    | dyn => cases hb
    | _ => cases h
  | map k v ihk ihv =>
    cases b with
    | map l w =>
      obtain ⟨hk, hv⟩ := Bool.and_eq_true_iff.mp ha
      obtain ⟨hl, hw⟩ := Bool.and_eq_true_iff.mp hb
      obtain ⟨hkl, hvw⟩ := Bool.and_eq_true_iff.mp h
      rw [ihk (b := l) hk hl hkl, ihv (b := w) hv hw hvw]
    | dyn => cases hb
    | _ => cases h
  | optional a iha =>
    cases b with
    | optional b => rw [iha (b := b) ha hb h]
    | dyn => cases hb
    | _ => cases h
  | _ =>
    cases b with
    | dyn => cases hb
    | _ => first | rfl | cases h

/-- The static type that given types meet in is the type of all of them. -/
theorem eq_join {ts : List Ty} (h : (join ts).isStatic = true) : ∀ t ∈ ts, t = join ts := by
  cases ts with
  | nil => cases h
  | cons t ts =>
    unfold join at h ⊢
    dsimp only at h ⊢
    split at h
    · next hall =>
      rw [if_pos hall]
      intro u hu
      rcases List.mem_cons.mp hu with rfl | hu
      · rfl
      · exact of_decide_eq_true (List.all_eq_true.mp hall u hu)
    · cases h

end Ty

/-! ### Values of a type -/

/-- The value has the type, all the way down. Both types of integers have the same values; a
timestamp has an offset; the keys of a map are of a type that keys may have. -/
inductive Dyn.HasType : Dyn → Ty → Prop
  | null : HasType .null .null
  | bool (b : Bool) : HasType (.bool b) .bool
  | int (n : Int) : HasType (.int n) .int
  | uint (n : Int) : HasType (.int n) .uint
  | double (x : Double) : HasType (.double x) .double
  | string (t : Text) : HasType (.string t) .string
  | bytes (bs : Bytes) : HasType (.bytes bs) .bytes
  | timestamp {t : Time} (h : t.offset.isSome = true) : HasType (.timestamp t) .timestamp
  | duration (d : Duration) : HasType (.duration d) .duration
  | list {xs : List Dyn} {e : Ty} (h : ∀ x ∈ xs, HasType x e) : HasType (.list xs) (.list e)
  | map {es : List (Dyn × Dyn)} {k v : Ty} (hk : k.isKey = true)
      (hkeys : ∀ e ∈ es, HasType e.1 k) (hcontents : ∀ e ∈ es, HasType e.2 v) :
      HasType (.map es) (.map k v)
  | none (e : Ty) : HasType (.optional none) (.optional e)
  | some {v : Dyn} {e : Ty} (h : HasType v e) : HasType (.optional (some v)) (.optional e)

/-- The values have the types, one by one. -/
abbrev HasTypes (vs : List Dyn) (ts : List Ty) : Prop := List.Forall₂ Dyn.HasType vs ts

theorem Dyn.HasType.optional {c : Option Dyn} {e : Ty} (h : ∀ v ∈ c, v.HasType e) :
    (Dyn.optional c).HasType (.optional e) := by
  cases c with
  | none => exact .none e
  | some v => exact .some (h v rfl)

theorem HasTypes.one {vs : List Dyn} {a : Ty} (h : HasTypes vs [a]) :
    ∃ v, vs = [v] ∧ v.HasType a := by
  cases h with
  | cons hv hvs => cases hvs; exact ⟨_, rfl, hv⟩

theorem HasTypes.two {vs : List Dyn} {a b : Ty} (h : HasTypes vs [a, b]) :
    ∃ v w, vs = [v, w] ∧ v.HasType a ∧ w.HasType b := by
  cases h with
  | cons hv hvs =>
    obtain ⟨w, rfl, hw⟩ := HasTypes.one hvs
    exact ⟨_, w, rfl, hv, hw⟩

theorem HasTypes.three {vs : List Dyn} {a b c : Ty} (h : HasTypes vs [a, b, c]) :
    ∃ v w x, vs = [v, w, x] ∧ v.HasType a ∧ w.HasType b ∧ x.HasType c := by
  cases h with
  | cons hv hvs =>
    obtain ⟨w, x, rfl, hw, hx⟩ := HasTypes.two hvs
    exact ⟨_, w, x, rfl, hv, hw, hx⟩

theorem HasTypes.exists_of_mem {vs : List Dyn} {ts : List Ty} (h : HasTypes vs ts) :
    ∀ v ∈ vs, ∃ a ∈ ts, v.HasType a := by
  induction h with
  | nil => exact List.forall_mem_nil _
  | cons hv _ ih =>
    intro w hw
    rcases List.mem_cons.mp hw with rfl | hw
    · exact ⟨_, List.mem_cons_self, hv⟩
    · obtain ⟨a, ha, hwa⟩ := ih w hw
      exact ⟨a, List.mem_cons_of_mem _ ha, hwa⟩

/-! ### Failures -/

/-- The failure is one that typed operands may lead to. No operator and no function refuses what it
takes, but for a value that has no text: one of a type of the given name. -/
def EvalFailure.Excused (textless : String → Prop) : EvalFailure → Prop
  | .error (.noOverload name types) => name = "string" ∧ ∃ n, textless n ∧ types = [n]
  | .error (.callFailed _) => False
  | .error (.notIterable _) => False
  | .error (.noSelection _) => False
  | .error (.badOutput _) => False
  | .fault .wrongType => False
  | _ => True

namespace Eval

variable {α β : Type} {textless : String → Prop} {good : α → Prop} {good' : β → Prop}

/-- The evaluation gives something good or fails as typed operands may make it. -/
def Sound (textless : String → Prop) (good : α → Prop) : Eval α → Prop
  | .ok a => good a
  | .error f => f.Excused textless

theorem Sound.excused {x : Eval α} {f : EvalFailure} (hx : Sound textless good x)
    (hf : x = .error f) : f.Excused textless := by
  rw [hf] at hx
  exact hx

theorem Sound.bind {x : Eval α} {f : α → Eval β} (hx : Sound textless good x)
    (hf : ∀ a, good a → Sound textless good' (f a)) : Sound textless good' (x >>= f) := by
  cases x with
  | ok a => exact hf a hx
  | error e => exact hx

theorem Sound.map {x : Eval α} {f : α → β} (hx : Sound textless good x)
    (hf : ∀ a, good a → good' (f a)) : Sound textless good' (x.map f) := by
  cases x with
  | ok a => exact hf a hx
  | error e => exact hx

/-- An outcome of a choice. -/
theorem Sound.elim {o : Option α} {f : α → Eval β} {x : Eval β} (hx : Sound textless good' x)
    (hf : ∀ a, o = some a → Sound textless good' (f a)) : Sound textless good' (o.elim x f) := by
  cases o with
  | none => exact hx
  | some a => exact hf a rfl

/-- An error that shows a value is an error, or a fault if the value is too long to be shown. -/
theorem sound_failShowing (v : Dyn) {e : EvalError}
    (he : EvalFailure.Excused textless (.error e)) :
    Sound textless good (failShowing v e) := by
  unfold failShowing
  split
  · exact he
  · exact trivial

end Eval

end LogStream.Filter
