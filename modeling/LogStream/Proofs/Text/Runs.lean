import Mathlib.Data.List.TakeWhile
import LogStream.Text.Search

/-! # Runs of characters

A text starts with its longest run of a class of characters (`exists_run`), which is taken and dropped whole
(`takeWhile_append`, `dropWhile_append`). Neither end of a stripped text is white space
(`isSpace_of_mem_getLast?_strip`), and what is such a text behind its first character may be stripped again
(`strip_of_strip_cons`). -/

namespace LogStream

/-! ### Code points of characters -/

namespace CodePoint

variable {c : CodePoint}

theorem is_ofChar (ch : Char) : (ofChar ch).is ch = true := by
  have hlt : ch.toNat < 0x110000 := ch.valid.elim (fun h => Nat.lt_trans h (by decide)) fun h => h.2
  unfold is ofChar
  rw [Fin.val_ofNat, Nat.mod_eq_of_lt hlt]
  exact beq_self_eq_true _

theorem eq_ofChar {ch : Char} (h : c.is ch = true) : c = ofChar ch := by
  have hval : c.val = ch.toNat := beq_iff_eq.mp h
  refine Fin.ext (hval.trans (Nat.mod_eq_of_lt ?_).symm)
  exact hval ▸ c.isLt

theorem is_eq_false_of_ne {a b : Char} (h : c.is a = true) (hab : a.toNat ≠ b.toNat) : c.is b = false := by
  simp only [is, beq_iff_eq] at h
  simp [is, h, hab]

end CodePoint

namespace Text

/-! ### Runs -/

variable {p : CodePoint → Bool} {w rest t : Text}

/-- A run ends in front of what does not belong to it. -/
theorem takeWhile_append (hw : ∀ c ∈ w, p c = true) (hrest : ∀ c ∈ rest.head?, p c = false) :
    (w ++ rest).takeWhile p = w := by
  rw [List.takeWhile_append_of_pos hw]
  cases rest with
  | nil => simp
  | cons c r => simp [hrest c (by simp)]

theorem dropWhile_append (hw : ∀ c ∈ w, p c = true) (hrest : ∀ c ∈ rest.head?, p c = false) :
    (w ++ rest).dropWhile p = rest := by
  rw [List.dropWhile_append_of_pos hw]
  cases rest with
  | nil => rfl
  | cons c r => simp [hrest c (by simp)]

/-- Nothing is dropped in front of what does not belong to a run. -/
theorem dropWhile_of_head? (h : ∀ c ∈ t.head?, p c = false) : t.dropWhile p = t :=
  dropWhile_append (w := []) (List.forall_mem_nil _) h

/-- A text starts with its longest run. -/
theorem exists_run (p : CodePoint → Bool) (t : Text) : ∃ w rest, t = w ++ rest ∧
    (∀ c ∈ w, p c = true) ∧ ∀ c ∈ rest.head?, p c = false := by
  refine ⟨t.takeWhile p, t.dropWhile p, List.takeWhile_append_dropWhile.symm,
    fun c hc => List.mem_takeWhile_imp hc, fun c hc => ?_⟩
  have hhead := List.head?_dropWhile_not p t
  rw [Option.mem_def.mp hc] at hhead
  simpa using hhead

/-! ### Stripping -/

/-- No white space ends a stripped text. -/
theorem isSpace_of_mem_getLast?_strip : ∀ c ∈ (strip t).getLast?, c.isSpace = false := by
  intro c hc
  unfold strip stripWhile at hc
  rw [List.getLast?_reverse] at hc
  have hhead := List.head?_dropWhile_not CodePoint.isSpace (t.dropWhile CodePoint.isSpace).reverse
  rw [Option.mem_def.mp hc] at hhead
  simpa using hhead

/-- Only white space is stripped. -/
theorem mem_strip {c : CodePoint} (hc : c ∈ t) (h : c.isSpace = false) : c ∈ strip t := by
  have hdrop {u : Text} (hu : c ∈ u) : c ∈ u.dropWhile CodePoint.isSpace := by
    rw [← List.takeWhile_append_dropWhile (p := CodePoint.isSpace) (l := u)] at hu
    refine (List.mem_append.mp hu).resolve_left fun hw => ?_
    rw [List.mem_takeWhile_imp hw] at h
    cases h
  unfold strip stripWhile
  exact List.mem_reverse.mpr (hdrop (List.mem_reverse.mpr (hdrop hc)))

/-- A text without white space at its ends is left as it is. -/
theorem strip_eq_self (hhead : ∀ c ∈ t.head?, c.isSpace = false) (hlast : ∀ c ∈ t.getLast?, c.isSpace = false) :
    strip t = t := by
  have hfirst : ∀ c ∈ t.reverse.head?, c.isSpace = false := by rwa [List.head?_reverse]
  unfold strip stripWhile
  rw [dropWhile_of_head? hhead, dropWhile_of_head? hfirst, List.reverse_reverse]

/-- What stands behind the first character of a stripped text, if it does not start with white space. -/
theorem strip_of_strip_cons {c : CodePoint} {r : Text} (h : strip t = c :: r)
    (hhead : ∀ a ∈ r.head?, a.isSpace = false) : strip r = r := by
  refine strip_eq_self hhead fun a ha => isSpace_of_mem_getLast?_strip (t := t) a ?_
  rw [h, List.getLast?_cons, Option.mem_def.mp ha]
  rfl

end Text

end LogStream
