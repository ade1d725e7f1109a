import LogStream.Proofs.Filter.Quoted
import LogStream.Proofs.Text.Numeral

/-! # Reading numerals

The token of an integer is read as what it denotes (`readInteger_eq_ok_iff`), if it has no more
decimal digits than are read. -/

namespace LogStream.Filter

open Text (exists_value_of_mem isIn_of_decimal? readInt?_eq)

theorem isIn_of_hexValue? {c : CodePoint} {d : Nat} (h : c.hexValue? = some d) :
    c.isIn "uU" = false := by
  have hu : ('u' : Char).toNat = 117 := rfl
  have hU : ('U' : Char).toNat = 85 := rfl
  unfold CodePoint.isIn CodePoint.is
  simp only [List.any_cons, List.any_nil, Bool.or_false, Bool.or_eq_false_iff,
    beq_eq_false_iff_ne, hu, hU, show "uU".toList = ['u', 'U'] from rfl]
  unfold CodePoint.hexValue? at h
  split at h
  · omega
  split at h
  · omega
  split at h
  · omega
  · cases h

theorem map_getD_of_mapM {f : CodePoint → Option Nat} : ∀ {t : Text} {ds : List Nat},
    t.mapM f = some ds → t.map (fun c => (f c).getD 0) = ds
  | [], ds, h => by
    cases h
    rfl
  | c :: r, ds, h => by
    rw [List.mapM_cons] at h
    obtain ⟨d, hd, h⟩ := Option.bind_eq_some_iff.mp h
    obtain ⟨ds', hds, h⟩ := Option.bind_eq_some_iff.mp h
    cases h
    rw [List.map_cons, hd, map_getD_of_mapM hds]
    rfl

theorem takeWhile_isDecimal {t : Text} {ds : List Nat} (h : t.mapM CodePoint.decimal? = some ds)
    (rest : Text) : t ++ rest.takeWhile CodePoint.isDecimal =
      (t ++ rest).takeWhile CodePoint.isDecimal := by
  have hall : ∀ c ∈ t, CodePoint.isDecimal c = true := by
    intro c hc
    obtain ⟨d, hd⟩ := exists_value_of_mem h c hc
    unfold CodePoint.isDecimal
    rw [hd]
    rfl
  exact (List.takeWhile_append_of_pos hall).symm

theorem readNumeral_decimal {t : Text} {ds : List Nat} (h : t.mapM CodePoint.decimal? = some ds) :
    readNumeral t = (Text.readInt? t).elim (.error .badValue) fun n => .ok n.toNat := by
  unfold readNumeral
  split
  · next z x r =>
    obtain ⟨d, hd⟩ := exists_value_of_mem h x (by simp)
    rw [isIn_of_decimal? hd (by decide), Bool.and_false, if_neg Bool.false_ne_true]
  · rfl

/-- **A numeral reads as its number**, if it has no more decimal digits than are read. -/
theorem readNumeral_eq {t : Text} {n : Nat} (h : IsNumeral t n)
    (hl : (t.takeWhile CodePoint.isDecimal).length ≤ Text.maxDigits) : readNumeral t = .ok n := by
  cases h with
  | @decimal _ ds h hne =>
    have hall := takeWhile_isDecimal h []
    rw [List.append_nil, List.takeWhile_nil, List.append_nil] at hall
    rw [← hall] at hl
    rw [readNumeral_decimal h, readInt?_eq h hne, if_neg (Nat.not_lt.mpr hl)]
    rfl
  | @hex z x r ds hz hx h hne =>
    unfold readNumeral
    dsimp only
    rw [hz, hx, Bool.and_self, if_pos rfl, map_getD_of_mapM h]

theorem length_takeWhile_le (p : CodePoint → Bool) (t rest : Text) :
    (t.takeWhile p).length ≤ ((t ++ rest).takeWhile p).length := by
  rw [List.takeWhile_append]
  split
  · next h =>
    rw [List.length_append]
    omega
  · exact Nat.le_refl _

/-- A numeral does not end in the mark of an unsigned integer. -/
theorem IsNumeral.exists_last {t : Text} {n : Nat} (h : IsNumeral t n) :
    ∃ r c, t = r ++ [c] ∧ c.isIn "uU" = false := by
  cases h with
  | decimal h hne =>
    refine ⟨t.dropLast, t.getLast hne, (List.dropLast_concat_getLast hne).symm, ?_⟩
    obtain ⟨d, hd⟩ := exists_value_of_mem h _ (List.getLast_mem hne)
    exact isIn_of_decimal? hd (by decide)
  | @hex z x r ds hz hx h hne =>
    refine ⟨z :: x :: r.dropLast, r.getLast hne, ?_, ?_⟩
    · rw [List.cons_append, List.cons_append, List.dropLast_concat_getLast hne]
    · obtain ⟨d, hd⟩ := exists_value_of_mem h _ (List.getLast_mem hne)
      exact isIn_of_hexValue? hd

theorem readInteger_of_last {t : Token} {r : Text} {c : CodePoint} (ht : t.text = r ++ [c]) :
    readInteger t =
      match readNumeral (if c.isIn "uU" then r else t.text) with
      | .error f => .error (.fault f)
      | .ok n =>
        if c.isIn "uU" then
          if uintLiteralMax < n then .error (.at t.pos .uintOutOfRange) else .ok (.uint n)
        else if intLiteralMax < n then .error (.at t.pos .intOutOfRange)
        else .ok (.int n) := by
  have hlength : t.text.length - 1 = r.length := by
    rw [ht, List.length_append]
    exact Nat.add_sub_cancel ..
  have hlast : t.text.drop (t.text.length - 1) = [c] := by
    rw [hlength, ht, List.drop_left]
  have hinit : t.text.take (t.text.length - 1) = r := by
    rw [hlength, ht, List.take_left]
  unfold readInteger
  rw [hlast, hinit]
  generalize hmark : [c].any (·.isIn "uU") = marked
  obtain rfl : c.isIn "uU" = marked := (Bool.or_false _).symm.trans hmark
  rfl

/-- A decimal numeral of more digits than are read is refused, whatever its number is. -/
theorem readInteger_of_long {t : Token} {ds : List Nat}
    (h : t.text.mapM CodePoint.decimal? = some ds) (hl : Text.maxDigits < t.text.length) :
    readInteger t = .error (.fault .badValue) := by
  have hne : t.text ≠ [] := fun he => by rw [he] at hl; cases hl
  obtain ⟨r, c, ht, hc⟩ := IsNumeral.exists_last (.decimal h hne)
  rw [readInteger_of_last ht, hc]
  simp only [Bool.false_eq_true, if_false]
  rw [readNumeral_decimal h, readInt?_eq h hne, if_pos hl]
  rfl

theorem readInteger_of_numeral {t : Token} {n : Nat} (hk : t.kind = .int) (hr : t.IsReadable)
    (h : IsNumeral t.text n) : readInteger t =
      if intLiteralMax < n then .error (.at t.pos .intOutOfRange) else .ok (.int n) := by
  obtain ⟨r, c, ht, hc⟩ := h.exists_last
  rw [readInteger_of_last ht, hc]
  simp only [Bool.false_eq_true, if_false]
  rw [readNumeral_eq h (hr hk)]

theorem readInteger_of_mark {t : Token} {ds : Text} {mark : CodePoint} {n : Nat}
    (hk : t.kind = .int) (hr : t.IsReadable) (ht : t.text = ds ++ [mark]) (hm : mark.isIn "uU")
    (h : IsNumeral ds n) : readInteger t =
      if uintLiteralMax < n then .error (.at t.pos .uintOutOfRange) else .ok (.uint n) := by
  have hl := hr hk
  rw [ht] at hl
  rw [readInteger_of_last ht, hm]
  simp only [if_true]
  rw [readNumeral_eq h (Nat.le_trans (length_takeWhile_le _ ds [mark]) hl)]

/-- **The token of an integer reads as what it denotes**, if it has no more decimal digits than are
read. -/
theorem readInteger_eq_ok_iff {t : Token} (hk : t.kind = .int) (hr : t.IsReadable)
    (ht : IsInteger t.text) {c : Constant} : readInteger t = .ok c ↔ t.Denotes c := by
  constructor
  · intro h
    rcases ht with ⟨n, hn | ⟨ds, mark, ht, hm, hn⟩⟩
    · rw [readInteger_of_numeral hk hr hn] at h
      split at h
      · cases h
      · cases h
        exact .int hk hn (by omega)
    · rw [readInteger_of_mark hk hr ht hm hn] at h
      split at h
      · cases h
      · cases h
        exact .uint hk ht hm hn (by omega)
  · intro h
    cases h with
    | int _ hn hb => rw [readInteger_of_numeral hk hr hn, if_neg (by omega)]
    | uint _ ht hm hn hb => rw [readInteger_of_mark hk hr ht hm hn, if_neg (by omega)]
    | float hk' => rw [hk] at hk'; cases hk'
    | string hk' => rw [hk] at hk'; cases hk'
    | bytes hk' => rw [hk] at hk'; cases hk'

end LogStream.Filter
