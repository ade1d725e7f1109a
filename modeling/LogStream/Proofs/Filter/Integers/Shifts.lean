import Mathlib
import LogStream.Proofs.Filter.Application
import LogStream.Proofs.Filter.Integers.Bits
import LogStream.Proofs.Text.Numeral

/-! # Shifts

A shift to the left multiplies an integer by a power of two, one to the right divides its pattern of 64 bits by one.
What there is of the result in 64 bits is read as a signed integer (`Shift.isShifted_iff`), so nothing is left after 64
places. Two shifts in one direction are one by the sum of their places (`Shift.toInt_shifted_shifted`), and a shift by
less than no places is refused (`shifts_are_exact`). -/

namespace LogStream.Filter

/-- The directions of shifts. -/
inductive Shift
  | left
  | right

namespace Shift

def name : Shift → String
  | left => "math.bitShiftLeft"
  | right => "math.bitShiftRight"

def function : Shift → Builtin
  | left => .bitShiftLeft
  | right => .bitShiftRight

/-- The call of a shift of one expression by another one. -/
def call (shift : Shift) (pos : Nat) (e f : Expr) : Expr := .call pos (Text.lit shift.name) [e, f]

/-- What a shift makes of an integer, before it is cut to 64 bits. -/
def whole (shift : Shift) (v : Int) (n : Nat) : Int :=
  match shift with
  | left => v * 2 ^ n
  | right => v % 2 ^ 64 / 2 ^ n

/-- The signed integer that a shift by a number of places gives. -/
structure IsShifted (shift : Shift) (v : Int) (n : Nat) (r : Int) : Prop where
  signed : int64Min ≤ r ∧ r ≤ int64Max
  modEq : r ≡ shift.whole v n [ZMOD 2 ^ 64]
  zero : 64 ≤ n → r = 0

/-! ### Patterns -/

/-- A shift of a pattern. -/
def shifted (shift : Shift) (x : BitVec 64) (n : Nat) : BitVec 64 :=
  match shift with
  | left => x <<< n
  | right => x >>> n

theorem shifted_of_le (shift : Shift) (x : BitVec 64) {n : Nat} (h : 64 ≤ n) : shift.shifted x n = 0 := by
  cases shift with
  | left => exact BitVec.shiftLeft_eq_zero h
  | right => exact BitVec.ushiftRight_eq_zero h

/-- **Places add up.** -/
theorem shifted_shifted (shift : Shift) (x : BitVec 64) (n m : Nat) :
    shift.shifted (shift.shifted x n) m = shift.shifted x (n + m) := by
  cases shift with
  | left => exact (BitVec.shiftLeft_add x n m).symm
  | right => exact (BitVec.shiftRight_add x n m).symm

theorem ofPattern_modEq (n : Nat) : Dyn.ofPattern n ≡ n [ZMOD 2 ^ 64] := by
  unfold Dyn.ofPattern Int.ModEq
  split <;> omega

theorem natCast_pattern64 (v : Int) : (Dyn.pattern64 v : Int) = v % 2 ^ 64 :=
  Int.toNat_of_nonneg (Int.emod_nonneg v (by decide))

theorem toInt_shifted_modEq (shift : Shift) (v : Int) (n : Nat) :
    (shift.shifted (BitVec.ofInt 64 v) n).toInt ≡ shift.whole v n [ZMOD 2 ^ 64] := by
  cases shift with
  | left =>
    have hpow : ((Nat.pow 2 n : Nat) : Int) = 2 ^ n := Nat.cast_pow 2 n
    have hpattern := ofPattern_modEq (Dyn.pattern64 (v * (Nat.pow 2 n : Nat)))
    rw [Dyn.shiftLeft_eq, natCast_pattern64, hpow] at hpattern
    exact hpattern.trans (Int.mod_modEq _ _)
  | right =>
    have hpow : ((Nat.pow 2 n : Nat) : Int) = 2 ^ n := Nat.cast_pow 2 n
    have hpattern := ofPattern_modEq (Dyn.pattern64 v / Nat.pow 2 n)
    rw [Dyn.shiftRight_eq, Int.natCast_ediv, natCast_pattern64, hpow] at hpattern
    exact hpattern

/-- Of the signed integers with one remainder modulo `2 ^ 64` there is one. -/
theorem eq_of_modEq {r s : Int} (hr : int64Min ≤ r ∧ r ≤ int64Max) (hs : int64Min ≤ s ∧ s ≤ int64Max)
    (h : r ≡ s [ZMOD 2 ^ 64]) : r = s := by
  have hdvd := h.dvd
  simp only [int64Min, int64Max] at hr hs
  omega

theorem isShifted_toInt (shift : Shift) (v : Int) (n : Nat) :
    shift.IsShifted v n (shift.shifted (BitVec.ofInt 64 v) n).toInt where
  signed := by
    have hlow := BitVec.le_toInt (shift.shifted (BitVec.ofInt 64 v) n)
    have hhigh := BitVec.toInt_lt (x := shift.shifted (BitVec.ofInt 64 v) n)
    simp only [int64Min, int64Max]
    omega
  modEq := toInt_shifted_modEq shift v n
  zero h := by
    rw [shifted_of_le shift _ h]
    rfl

/-- **There is one integer that a shift gives.** -/
theorem isShifted_iff {shift : Shift} {v r : Int} {n : Nat} :
    shift.IsShifted v n r ↔ r = (shift.shifted (BitVec.ofInt 64 v) n).toInt := by
  have hshifted := isShifted_toInt shift v n
  constructor
  · intro h
    exact eq_of_modEq h.signed hshifted.signed (h.modEq.trans hshifted.modEq.symm)
  · rintro rfl
    exact hshifted

/-- A shift of what a shift gives. -/
theorem toInt_shifted_shifted (shift : Shift) (v : Int) (n m : Nat) :
    (shift.shifted (BitVec.ofInt 64 (shift.shifted (BitVec.ofInt 64 v) n).toInt) m).toInt =
      (shift.shifted (BitVec.ofInt 64 v) (n + m)).toInt := by
  rw [BitVec.ofInt_toInt, shifted_shifted]

/-! ### Expressions -/

theorem shift_natCast {f : Int → Nat → Int} {v r : Int} {n : Nat} (name : String) (hr : f v n = r)
    (hzero : 64 ≤ n → r = 0) : Dyn.shift name f (.int v) (.int n) = .ok (.int r) := by
  have hplaces : ¬ (n : Int) < 0 := Int.not_lt.mpr (Int.natCast_nonneg n)
  unfold Dyn.shift
  simp only [Dyn.integer, ok_bind, if_neg hplaces, Int.toNat_natCast, Nat.ofNat_le_cast]
  split
  · next h =>
    rw [hzero h]
    rfl
  · rw [hr]
    rfl

theorem apply_natCast (shift : Shift) (v : Int) (n : Nat) :
    shift.function.apply [.int v, .int n] = .ok (.int (shift.shifted (BitVec.ofInt 64 v) n).toInt) := by
  have hzero := (isShifted_toInt shift v n).zero
  cases shift with
  | left =>
    change Dyn.bitShiftLeft (.int v) (.int n) = _
    refine shift_natCast _ ?_ hzero
    exact Dyn.shiftLeft_eq v n
  | right =>
    change Dyn.bitShiftRight (.int v) (.int n) = _
    refine shift_natCast _ ?_ hzero
    exact Dyn.shiftRight_eq v n

theorem apply_of_neg (shift : Shift) (v : Int) {k : Int} (h : k < 0) :
    shift.function.apply [.int v, .int k] = Eval.failShowing (.int k) (.negativeOffset shift.name k) := by
  cases shift <;> exact if_pos h

variable {env : Activation} {e f : Expr} {v k : Int}

theorem eval_call (shift : Shift) (he : eval env e = .ok (.int v)) (hf : eval env f = .ok (.int k)) (pos : Nat) :
    eval env (shift.call pos e f) = called (Text.lit shift.name) (shift.function.apply [.int v, .int k]) := by
  have hname : Builtin.global? (Text.lit shift.name) = some shift.function := by cases shift <;> decide
  exact eval_global hname (evalAll_cons he (evalAll_cons hf evalAll_nil)) pos

theorem eval_call_natCast (shift : Shift) {n : Nat} (he : eval env e = .ok (.int v))
    (hf : eval env f = .ok (.int n)) (pos : Nat) :
    eval env (shift.call pos e f) = .ok (.int (shift.shifted (BitVec.ofInt 64 v) n).toInt) := by
  rw [shift.eval_call he hf, apply_natCast]
  rfl

/-- What shifts make of an integer in all calls. -/
structure IsExact (shift : Shift) (env : Activation) (e : Expr) (v : Int) : Prop where
  /-- A shift gives the one integer that it should. -/
  places {f : Expr} {n : Nat} (hf : eval env f = .ok (.int n)) (pos : Nat) :
    ∃ r, (∀ s, shift.IsShifted v n s ↔ s = r) ∧ eval env (shift.call pos e f) = .ok (.int r)
  /-- Two shifts are one by the sum of their places. -/
  twice {f g h : Expr} {n m : Nat} (hf : eval env f = .ok (.int n)) (hg : eval env g = .ok (.int m))
    (hh : eval env h = .ok (.int ((n + m : Nat) : Int))) (pos pos' pos'' : Nat) :
    eval env (shift.call pos (shift.call pos' e f) g) = eval env (shift.call pos'' e h)
  /-- A negative number of places is refused. The error shows it, unless it has more than 4300 digits, which no integer
  of 64 bits has: then there is a fault, of which a program makes an error. -/
  negative {f : Expr} {k : Int} (hf : eval env f = .ok (.int k)) (hk : k < 0) (pos : Nat) :
    (∃ failure, eval env (shift.call pos e f) = .error failure ∧
      ∀ x, failure = .fault x → escapes x = false) ∧
    (k.natAbs < 10 ^ Text.maxDigits →
      eval env (shift.call pos e f) = Eval.fail (.negativeOffset shift.name k))

end Shift

/-- **Shifts act on 64 bits and add up.** -/
theorem shifts_are_exact (shift : Shift) {env : Activation} {e : Expr} {v : Int}
    (he : eval env e = .ok (.int v)) : shift.IsExact env e v where
  places hf pos := ⟨_, fun _ => Shift.isShifted_iff, shift.eval_call_natCast he hf pos⟩
  twice hf hg hh pos pos' pos'' := by
    have hfirst := shift.eval_call_natCast he hf pos'
    rw [shift.eval_call_natCast hfirst hg, shift.eval_call_natCast he hh, Shift.toInt_shifted_shifted]
  negative {f k} hf hk pos := by
    rw [shift.eval_call he hf, shift.apply_of_neg v hk, called_failShowing]
    constructor
    · unfold Eval.failShowing
      split
      · exact ⟨_, rfl, nofun⟩
      · refine ⟨_, rfl, ?_⟩
        rintro x ⟨⟩
        rfl
    · intro hlength
      have hprintable : (Dyn.int k).isPrintable = true :=
        decide_eq_true (Nat.not_lt.mp (Text.not_maxDigits_lt hlength (by decide) (Nat.le_refl _)))
      rw [Eval.failShowing, if_pos hprintable]

/-- The greatest unsigned integer is minus one after no places and the greatest signed one after one more, which is what
it is after one place; no integer is shifted by minus one place. -/
theorem shifts_are_exact_greatest :
    eval [] (Shift.right.call 0 (.literal 0 (.uint 0xFFFFFFFFFFFFFFFF)) (.literal 0 (.int 0))) = .ok (.int (-1)) ∧
    eval [] (Shift.right.call 0
      (Shift.right.call 0 (.literal 0 (.uint 0xFFFFFFFFFFFFFFFF)) (.literal 0 (.int 0))) (.literal 0 (.int 1))) =
      .ok (.int int64Max) ∧
    eval [] (Shift.left.call 0 (.literal 0 (.uint 0xFFFFFFFFFFFFFFFF)) (.literal 0 (.int (-1)))) =
      Eval.fail (.negativeOffset "math.bitShiftLeft" (-1)) := by
  have hgreatest : eval [] (.literal 0 (.uint 0xFFFFFFFFFFFFFFFF)) = .ok (.int 0xFFFFFFFFFFFFFFFF) := rfl
  have hright := shifts_are_exact .right hgreatest
  obtain ⟨r, hr, hnone⟩ := hright.places (f := .literal 0 (.int 0)) (n := 0) rfl 0
  obtain ⟨s, hs, hone⟩ := hright.places (f := .literal 0 (.int 1)) (n := 1) rfl 0
  have hminus : -1 = r := (hr (-1)).mp ⟨by decide, by decide, by decide⟩
  have hmax : int64Max = s := (hs int64Max).mp ⟨by decide, by decide, by decide⟩
  have htwice := hright.twice (f := .literal 0 (.int 0)) (g := .literal 0 (.int 1)) (h := .literal 0 (.int 1))
    (n := 0) (m := 1) rfl rfl rfl 0 0 0
  have hrefused := ((shifts_are_exact .left hgreatest).negative (f := .literal 0 (.int (-1))) rfl (by decide) 0).2
  refine ⟨hminus ▸ hnone, ?_, hrefused ?_⟩
  · rw [htwice, hone, hmax]
  · exact Nat.one_lt_pow (by decide) (by decide)

end LogStream.Filter
