import Mathlib
import LogStream.Proofs.Filter.Application
import LogStream.Proofs.Text.Cutting
import LogStream.Proofs.Text.Numeral

/-! # Searching strings

A string occurs in another one at each place where it is the substring of its size (`Occurs`). The functions
`indexOf` and `lastIndexOf` give the least place from an offset on and the greatest place up to an offset, and
refuse offsets outside the string (`searches_are_exact`). -/

namespace LogStream.Filter

variable {s sub : Text} {k i : Int}

/-! ### Places -/

/-- The substring that starts at a place and has the size of a string is this string. -/
def Occurs (s sub : Text) (i : Int) : Prop :=
  Dyn.substring (.string s) (.int i) (.int (i + sub.length)) = .ok (.string sub)

/-- A place of the language is one of the text. -/
theorem occurs_iff : Occurs s sub i ↔ ∃ n : Nat, (n : Int) = i ∧ Text.OccursAt sub s n := by
  have hsubstring (a b : Int) : Dyn.substring (.string s) (.int a) (.int b) =
      if Dyn.inOrder s.length a b then .ok (.string ((s.take b.toNat).drop a.toNat))
      else Dyn.failRange a b (.substringOutOfRange a b) := rfl
  unfold Occurs
  rw [hsubstring]
  constructor
  · intro h
    split at h
    · next hrange =>
      simp only [Dyn.inOrder, Bool.and_eq_true, decide_eq_true_eq] at hrange
      refine ⟨i.toNat, by omega, by omega, ?_⟩
      have hpart := Dyn.string.inj (Except.ok.inj h)
      rwa [List.drop_take, show (i + sub.length).toNat - i.toNat = sub.length by omega] at hpart
    · unfold Dyn.failRange Eval.failShowing at h
      split at h <;> cases h
  · rintro ⟨n, rfl, hle, hpart⟩
    have hrange : Dyn.inOrder s.length n (n + sub.length) = true := by
      simp only [Dyn.inOrder, Bool.and_eq_true, decide_eq_true_eq]
      omega
    rw [if_pos hrange, List.drop_take, show ((n : Int) + sub.length).toNat - (n : Int).toNat = sub.length by omega,
      Int.toNat_natCast, hpart]

/-- The best of some places, or -1 if there are none. -/
def IsPlace (best : Set Int → Int → Prop) (places : Set Int) (n : Int) : Prop :=
  best places n ∨ places = ∅ ∧ n = -1

/-! ### Searches -/

/-- An offset that is taken: from zero to the size of the string. -/
def IsOffset (s : Text) (k : Int) : Prop := 0 ≤ k ∧ k ≤ s.length

instance (s : Text) (k : Int) : Decidable (IsOffset s k) := inferInstanceAs (Decidable (_ ∧ _))

/-- A search from an offset on or up to an offset. -/
inductive Search
  | first
  | last

namespace Search

def name : Search → String
  | first => "indexOf"
  | last => "lastIndexOf"

def function : Search → Builtin
  | first => .indexOf
  | last => .lastIndexOf

/-- A search from an offset comes to a place. -/
def comesTo : Search → Int → Int → Prop
  | first, k, i => k ≤ i
  | last, k, i => i ≤ k

/-- Which of the places is given. -/
def best : Search → Set Int → Int → Prop
  | first => IsLeast
  | last => IsGreatest

/-- The offset that a search without one goes from. -/
def start : Search → Text → Nat
  | first, _ => 0
  | last, s => s.length

/-- The places of a search. -/
def places (search : Search) (s sub : Text) (k : Int) : Set Int := {i | search.comesTo k i ∧ Occurs s sub i}

/-- What the search in the text finds. -/
def find? : Search → Text → Text → Nat → Option Nat
  | first, sub, s, k => Text.find? sub s k
  | last, sub, s, k => Text.findLast? sub s k

theorem member?_name (search : Search) : Builtin.member? (Text.lit search.name) = some search.function := by
  cases search <;> decide

/-- The places of the language are those of the text. -/
theorem places_eq (search : Search) (s sub : Text) (k : Nat) : search.places s sub k =
    Nat.cast '' {n : Nat | search.comesTo k n ∧ Text.OccursAt sub s n} := by
  ext i
  change _ ∧ Occurs s sub i ↔ ∃ n : Nat, (_ ∧ _) ∧ (n : Int) = i
  rw [occurs_iff]
  constructor
  · rintro ⟨hcomes, n, rfl, hn⟩
    exact ⟨n, ⟨hcomes, hn⟩, rfl⟩
  · rintro ⟨n, ⟨hcomes, hn⟩, rfl⟩
    exact ⟨hcomes, n, rfl, hn⟩

/-- **A search gives the best of its places.** -/
theorem isPlace_find? (search : Search) (s sub : Text) (k : Nat) : ∃ n : Int,
    Dyn.found (search.find? sub s k) = .int n ∧ IsPlace search.best (search.places s sub k) n := by
  rw [places_eq]
  cases search with
  | first =>
    have hspec := Text.find?_spec sub s k
    simp only [comesTo, Nat.cast_le, best]
    change ∃ n, Dyn.found (Text.find? sub s k) = .int n ∧ _
    cases hfound : Text.find? sub s k with
    | some i =>
      rw [hfound] at hspec
      exact ⟨i, rfl, .inl (Nat.mono_cast.map_isLeast hspec)⟩
    | none =>
      rw [hfound] at hspec
      exact ⟨-1, rfl, .inr ⟨by rw [hspec, Set.image_empty], rfl⟩⟩
  | last =>
    have hspec := Text.findLast?_spec sub s k
    simp only [comesTo, Nat.cast_le, best]
    change ∃ n, Dyn.found (Text.findLast? sub s k) = .int n ∧ _
    cases hfound : Text.findLast? sub s k with
    | some i =>
      rw [hfound] at hspec
      exact ⟨i, rfl, .inl (Nat.mono_cast.map_isGreatest hspec)⟩
    | none =>
      rw [hfound] at hspec
      exact ⟨-1, rfl, .inr ⟨by rw [hspec, Set.image_empty], rfl⟩⟩

/-! ### Offsets -/

/-- A search from an offset looks for it in the text, if the offset is taken. -/
theorem apply_offset (search : Search) (s sub : Text) (k : Int) :
    search.function.apply [.string s, .string sub, .int k] =
      if IsOffset s k then .ok (Dyn.found (search.find? sub s k.toNat))
      else Eval.failShowing (.int k) (.indexOutOfRange k) := by
  have hoffset (name : String) : Dyn.offset name s.length (.int k) =
      if IsOffset s k then .ok k.toNat else Eval.failShowing (.int k) (.indexOutOfRange k) := rfl
  have hbind (f : Nat → Eval Dyn) : ((if IsOffset s k then .ok k.toNat
        else Eval.failShowing (.int k) (.indexOutOfRange k) : Eval Nat) >>= f) =
      if IsOffset s k then f k.toNat else Eval.failShowing (.int k) (.indexOutOfRange k) := by
    unfold Eval.failShowing
    split
    · rfl
    · split <;> rfl
  cases search with
  | first =>
    change Dyn.indexOf (.string s) (.string sub) (.int k) = _
    rw [Dyn.indexOf, hoffset, hbind]
    rfl
  | last =>
    change Dyn.lastIndexOf (.string s) (.string sub) (.int k) = _
    rw [Dyn.lastIndexOf, hoffset, hbind]
    · rfl
    · nofun

/-- A search without an offset goes from the start or from the end. -/
theorem apply_start (search : Search) (s sub : Text) :
    search.function.apply [.string s, .string sub] = .ok (Dyn.found (search.find? sub s (search.start s))) := by
  cases search with
  | first =>
    change Dyn.indexOf (.string s) (.string sub) (.int 0) = _
    have happly := apply_offset .first s sub 0
    rw [if_pos ⟨Int.le_refl 0, Int.natCast_nonneg _⟩] at happly
    exact happly
  | last => rfl

end Search

/-! ### Expressions -/

variable {env : Activation} {e e' : Expr}

/-- **A search gives the best place of an occurrence**, or -1 if there is none: from a given offset, which has to lie
between zero and the size of the string, or else from the start or the end. Any other offset is refused; the error
shows it, unless it has more than 4300 digits, which no integer of 64 bits has. -/
theorem searches_are_exact (search : Search) (he : eval env e = .ok (.string s)) (he' : eval env e' = .ok (.string sub))
    (pos : Nat) :
    (∀ (offset : Expr) (k : Int), eval env offset = .ok (.int k) →
      if IsOffset s k then
        ∃ n, eval env (.method pos (Text.lit search.name) e [e', offset]) = .ok (.int n) ∧
          IsPlace search.best (search.places s sub k) n
      else (∃ failure, eval env (.method pos (Text.lit search.name) e [e', offset]) = .error failure) ∧
        (k.natAbs < 10 ^ Text.maxDigits →
          eval env (.method pos (Text.lit search.name) e [e', offset]) = Eval.fail (.indexOutOfRange k))) ∧
    ∃ n, eval env (.method pos (Text.lit search.name) e [e']) = .ok (.int n) ∧
      IsPlace search.best (search.places s sub (search.start s)) n := by
  have hname := search.member?_name
  refine ⟨fun offset k hoffset => ?_, ?_⟩
  · have hargs : evalAll env [e', offset] = .ok [.string sub, .int k] :=
      evalAll_cons he' (evalAll_cons hoffset evalAll_nil)
    rw [eval_method hname he hargs, search.apply_offset]
    split
    · next h =>
      obtain ⟨n, hfound, hplace⟩ := search.isPlace_find? s sub k.toNat
      rw [Int.toNat_of_nonneg h.1] at hplace
      rw [hfound]
      exact ⟨n, rfl, hplace⟩
    · rw [called_failShowing]
      refine ⟨?_, fun hlength => ?_⟩
      · unfold Eval.failShowing
        split
        · exact ⟨_, rfl⟩
        · exact ⟨_, rfl⟩
      · have hprintable : (Dyn.int k).isPrintable = true :=
          decide_eq_true (Nat.not_lt.mp (Text.not_maxDigits_lt hlength (by decide) (Nat.le_refl _)))
        rw [Eval.failShowing, if_pos hprintable]
  · have hargs : evalAll env [e'] = .ok [.string sub] := evalAll_cons he' evalAll_nil
    obtain ⟨n, hfound, hplace⟩ := search.isPlace_find? s sub (search.start s)
    rw [eval_method hname he hargs, search.apply_start, hfound]
    exact ⟨n, rfl, hplace⟩

/-- A string is found where its occurrence goes on behind the offset, and an offset behind the end is refused. -/
theorem searches_are_exact_overlapping :
    (∃ n, eval [] (.method 0 (Text.lit "lastIndexOf") (.literal 0 (.string (Text.lit "aaa")))
        [.literal 0 (.string (Text.lit "aa")), .literal 0 (.int 1)]) = .ok (.int n) ∧
      IsPlace IsGreatest (Search.last.places (Text.lit "aaa") (Text.lit "aa") 1) n) ∧
    eval [] (.method 0 (Text.lit "indexOf") (.literal 0 (.string (Text.lit "aaa")))
        [.literal 0 (.string (Text.lit "aa")), .literal 0 (.int 4)]) = Eval.fail (.indexOutOfRange 4) := by
  have he : eval [] (.literal 0 (.string (Text.lit "aaa"))) = .ok (.string (Text.lit "aaa")) := rfl
  have he' : eval [] (.literal 0 (.string (Text.lit "aa"))) = .ok (.string (Text.lit "aa")) := rfl
  constructor
  · exact (searches_are_exact .last he he' 0).1 (.literal 0 (.int 1)) 1 rfl
  · have hrefused := (searches_are_exact .first he he' 0).1 (.literal 0 (.int 4)) 4 rfl
    rw [if_neg (by decide)] at hrefused
    have hlength : 10 ^ 1 ≤ 10 ^ Text.maxDigits := Nat.pow_le_pow_right (by decide) (by decide)
    exact hrefused.2 (Nat.lt_of_lt_of_le (by decide) hlength)

end LogStream.Filter
