import Mathlib
import LogStream.Proofs.Filter.Application
import LogStream.Proofs.Filter.Integers.Bits
import LogStream.Proofs.Text.Numeral

/-! # Conversions between integers and numerals

The text of an integer is its decimal numeral (`writesNumeral_string`). A conversion takes the numerals of the
integers between two bounds, and fails with an error on those of all others (`ReadsNumeral`). For `int` these are
the signed integers, and for `uint` the natural numbers among them (`numerals_convert`): numerals of greater ones
are refused, though `uint` takes these integers themselves (`not_readsNumeral_greatest`). -/

namespace LogStream.Filter

/-- A conversion of a value. -/
theorem eval_conversion {env : Activation} {e : Expr} {v : Dyn} {name : Text} {f : Builtin}
    (hf : Builtin.global? name = some f) (he : eval env e = .ok v) (pos : Nat) :
    eval env (.call pos name [e]) = called name (f.apply [v]) :=
  eval_global hf (evalAll_cons he evalAll_nil) pos

/-- The text of an integer is its numeral. -/
def WritesNumeral (name : String) (n : Int) : Prop :=
  ∀ (env : Activation) (pos : Nat) (e : Expr), eval env e = .ok (.int n) → FitsIn64 n →
    eval env (.call pos (Text.lit name) [e]) = .ok (.string (Text.ofInt n))

/-- The conversion takes the numeral to its integer if that lies between the bounds, and fails with an error if it does
not. -/
def ReadsNumeral (name : String) (low high m : Int) : Prop :=
  ∀ (env : Activation) (pos : Nat) (e : Expr), eval env e = .ok (.string (Text.ofInt m)) →
    if low ≤ m ∧ m ≤ high then eval env (.call pos (Text.lit name) [e]) = .ok (.int m)
    else ∃ err, eval env (.call pos (Text.lit name) [e]) = .error (.error err)

/-! ### Writing -/

theorem natAbs_lt_of_fitsIn64 {n : Int} (h : FitsIn64 n) : n.natAbs < 10 ^ 20 := by
  simp only [FitsIn64, int64Min, uint64Max] at h
  omega

/-- An integer that fits in 64 bits is short enough to be written and read. -/
theorem not_maxDigits_lt_of_fitsIn64 {n : Int} (h : FitsIn64 n) :
    ¬ Text.maxDigits < (Text.ofNat n.natAbs).length :=
  Text.not_maxDigits_lt (natAbs_lt_of_fitsIn64 h) (by decide) (by decide)

theorem writesNumeral_string (n : Int) : WritesNumeral "string" n := by
  intro env pos e he hn
  have hprintable : (Dyn.int n).isPrintable = true :=
    decide_eq_true (Nat.not_lt.mp (not_maxDigits_lt_of_fitsIn64 hn))
  have htext : Builtin.apply .toString [.int n] = .ok (.string (Text.ofInt n)) := by
    change (Dyn.text (.int n)).map Dyn.string = _
    rw [Dyn.text, if_pos hprintable]
    rfl
  rw [eval_conversion (f := .toString) rfl he, htext]
  rfl

/-! ### Reading -/

/-- What a numeral counts as: its integer if that is a signed one, else there is an error. -/
theorem signed_ofInt (m : Int) : if int64Min ≤ m ∧ m ≤ int64Max then
    Dyn.signed (.string (Text.ofInt m)) = .ok m
    else ∃ err, Dyn.signed (.string (Text.ofInt m)) = .error (.error err) := by
  have hread := Text.readInt?_ofInt m
  split
  · next h =>
    have hfits : FitsIn64 m := fitsIn64_of_le_int64Max h.1 h.2
    rw [if_neg (not_maxDigits_lt_of_fitsIn64 hfits)] at hread
    rw [Dyn.signed, Dyn.wholeNumber, hread, Option.elim_some, ok_bind, if_pos h]
    rfl
  · next h =>
    rw [Dyn.signed, Dyn.wholeNumber, hread]
    split
    · exact ⟨_, rfl⟩
    · rw [Option.elim_some, ok_bind, if_neg h]
      exact ⟨_, rfl⟩

theorem readsNumeral_int (m : Int) : ReadsNumeral "int" int64Min int64Max m := by
  intro env pos e he
  have hsigned := signed_ofInt m
  rw [eval_conversion (f := .toInt) rfl he]
  change if _ then called _ (Dyn.toInt _) = _ else ∃ err, called _ (Dyn.toInt _) = _
  unfold Dyn.toInt
  split
  · next h =>
    rw [if_pos h] at hsigned
    rw [hsigned]
    rfl
  · next h =>
    rw [if_neg h] at hsigned
    obtain ⟨err, herr⟩ := hsigned
    rw [herr]
    exact ⟨err, rfl⟩

/-- A numeral is unsigned just if it counts as a signed integer that is not negative. -/
theorem readsNumeral_uint (m : Int) : ReadsNumeral "uint" 0 int64Max m := by
  intro env pos e he
  have hsigned := signed_ofInt m
  have hunsigned : Dyn.unsigned (.string (Text.ofInt m)) = Dyn.signed (.string (Text.ofInt m)) := rfl
  rw [eval_conversion (f := .toUint) rfl he]
  change if _ then called _ (Dyn.toUint _) = _ else ∃ err, called _ (Dyn.toUint _) = _
  unfold Dyn.toUint
  rw [hunsigned]
  by_cases hfits : int64Min ≤ m ∧ m ≤ int64Max
  · rw [if_pos hfits] at hsigned
    rw [hsigned, ok_bind]
    have hmax : m ≤ uint64Max := Int.le_trans hfits.2 (by decide)
    split
    · next h =>
      rw [if_pos ⟨h.1, hmax⟩]
      rfl
    · next h =>
      rw [if_neg fun hle => h ⟨hle.1, hfits.2⟩]
      exact ⟨_, rfl⟩
  · rw [if_neg hfits] at hsigned
    obtain ⟨err, herr⟩ := hsigned
    rw [if_neg fun hle => hfits ⟨Int.le_trans (by decide) hle.1, hle.2⟩, herr]
    exact ⟨err, rfl⟩

/-- The range of the unsigned integers is covered except for its part above the signed ones. -/
theorem readsNumeral_uint_iff (m : Int) : ReadsNumeral "uint" 0 uint64Max m ↔ ¬ (int64Max < m ∧ m ≤ uint64Max) := by
  have hends : int64Max ≤ uint64Max := by decide
  constructor
  · rintro h ⟨hgreater, hle⟩
    let numeral := Expr.literal 0 (.string (Text.ofInt m))
    have hread := h [] 0 numeral rfl
    have hrefused := readsNumeral_uint m [] 0 numeral rfl
    have hnonneg : 0 ≤ m := Int.le_trans (by decide) (Int.le_of_lt hgreater)
    rw [if_pos ⟨hnonneg, hle⟩] at hread
    rw [if_neg fun hrange => Int.not_le.mpr hgreater hrange.2] at hrefused
    obtain ⟨err, herr⟩ := hrefused
    rw [hread] at herr
    cases herr
  · intro h env pos e he
    have hrange : (0 ≤ m ∧ m ≤ uint64Max) ↔ (0 ≤ m ∧ m ≤ int64Max) :=
      ⟨fun hrange => ⟨hrange.1, Int.not_lt.mp fun hgreater => h ⟨hgreater, hrange.2⟩⟩,
        fun hrange => ⟨hrange.1, Int.le_trans hrange.2 hends⟩⟩
    simp only [hrange]
    exact readsNumeral_uint m env pos e he

/-- **Integers are written as their numerals, and these are read as the integers**, by `int` if they are signed
ones, and by `uint` if they are natural numbers among these. All other numerals are refused with an error, and so
`uint` covers its range except for the integers above the signed ones. -/
theorem numerals_convert (n : Int) :
    WritesNumeral "string" n ∧ ReadsNumeral "int" int64Min int64Max n ∧ ReadsNumeral "uint" 0 int64Max n ∧
      (ReadsNumeral "uint" 0 uint64Max n ↔ ¬ (int64Max < n ∧ n ≤ uint64Max)) :=
  ⟨writesNumeral_string n, readsNumeral_int n, readsNumeral_uint n, readsNumeral_uint_iff n⟩

/-- **The numeral of the greatest unsigned integer is refused** where `uint` should read it. -/
theorem not_readsNumeral_greatest : ¬ ReadsNumeral "uint" 0 uint64Max uint64Max := by
  rw [readsNumeral_uint_iff]
  decide

end LogStream.Filter
