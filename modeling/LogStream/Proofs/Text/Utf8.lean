import LogStream.Text.Utf8

/-! # UTF-8 reads back

A text without surrogates is read back from its bytes (`decodeWith?_encodeAll`): the bytes of each code
point are read as this code point, whatever stands behind them (`decodeWith?_encodePoint`). What is
read from bytes is such a text (`isSome_encode?_of_decode?`). -/

namespace LogStream.Utf8

theorem toNat_byte {n : Nat} (h : n < 256) : (byte n).toNat = n := by
  simp only [UInt8.toNat_ofNat']; omega

theorem tail?_byte {n : Nat} (h : n < 64) : tail? (byte (0x80 + n)) = some n := by
  unfold tail?
  rw [toNat_byte (by omega), if_pos (by omega), Nat.add_sub_cancel_left]

theorem ofNat_eq {n : Nat} (c : CodePoint) (h : n = c.val) : CodePoint.ofNat n = c := by
  have hlt := c.isLt
  have hv : (CodePoint.ofNat n).val = n % 0x110000 := rfl
  rw [h, Nat.mod_eq_of_lt hlt] at hv
  rw [h]
  exact Fin.eq_of_val_eq hv

theorem isSurrogate_eq_false {c : CodePoint} (h : c.isSurrogate = false) :
    c.val < 0xD800 ∨ 0xE000 ≤ c.val := by
  unfold CodePoint.isSurrogate at h
  simp only [Bool.and_eq_false_iff, decide_eq_false_iff_not] at h
  omega

/-- **The bytes of a code point are read as this code point**, whatever stands behind them. -/
theorem decodeWith?_encodePoint (surrogates : Bool) {c : CodePoint} (hc : c.isSurrogate = false) (rest : Bytes) :
    decodeWith? surrogates (encodePoint c ++ rest) = (decodeWith? surrogates rest).map (c :: ·) := by
  have hlt := c.isLt
  have hs := isSurrogate_eq_false hc
  unfold encodePoint
  dsimp only
  by_cases h1 : c.val < 0x80
  · rw [if_pos h1, List.singleton_append, decodeWith?.eq_def]
    dsimp only
    rw [toNat_byte (by omega), if_pos h1, ofNat_eq c rfl]
  rw [if_neg h1]
  by_cases h2 : c.val < 0x800
  · rw [if_pos h2, List.cons_append, List.singleton_append,
      decodeWith?.eq_def]
    dsimp only
    rw [toNat_byte (by omega), if_neg (by omega), tail?_byte (by omega)]
    dsimp only
    rw [if_pos (by omega), ofNat_eq c (by omega)]
  rw [if_neg h2]
  by_cases h3 : c.val < 0x10000
  · rw [if_pos h3, List.cons_append, List.cons_append, List.singleton_append,
      decodeWith?.eq_def]
    dsimp only
    rw [toNat_byte (by omega), if_neg (by omega), tail?_byte (by omega)]
    dsimp only
    rw [if_neg (by omega), tail?_byte (by omega)]
    dsimp only
    rw [if_pos (by omega), if_neg (by omega), ofNat_eq c (by omega)]
  · rw [if_neg h3, List.cons_append, List.cons_append, List.cons_append, List.singleton_append,
      decodeWith?.eq_def]
    dsimp only
    rw [toNat_byte (by omega), if_neg (by omega), tail?_byte (by omega)]
    dsimp only
    rw [if_neg (by omega), tail?_byte (by omega)]
    dsimp only
    rw [if_neg (by omega), tail?_byte (by omega)]
    dsimp only
    rw [if_neg (by omega), ofNat_eq c (by omega)]

theorem isSome_encode?_iff {t : Text} :
    (encode? t).isSome ↔ ∀ c ∈ t, c.isSurrogate = false := by
  induction t with
  | nil => simp [encode?]
  | cons c r ih =>
    rw [encode?, List.forall_mem_cons, ← ih]
    cases hc : c.isSurrogate with
    | true => simp
    | false => simp

theorem encode?_eq_some_iff {t : Text} {bs : Bytes} :
    encode? t = some bs ↔ (∀ c ∈ t, c.isSurrogate = false) ∧ bs = encodeAll t := by
  unfold encodeAll
  induction t generalizing bs with
  | nil =>
    rw [encode?, List.flatMap_nil]
    exact ⟨fun h => ⟨List.forall_mem_nil _, (Option.some.inj h).symm⟩, fun h => congrArg some h.2.symm⟩
  | cons c r ih =>
    rw [encode?, List.forall_mem_cons, List.flatMap_cons]
    cases hc : c.isSurrogate with
    | true => simp
    | false =>
      rw [if_neg Bool.false_ne_true, Option.map_eq_some_iff]
      constructor
      · rintro ⟨rest, hrest, rfl⟩
        obtain ⟨hr, rfl⟩ := ih.mp hrest
        exact ⟨⟨rfl, hr⟩, rfl⟩
      · rintro ⟨⟨-, hr⟩, rfl⟩
        exact ⟨_, ih.mpr ⟨hr, rfl⟩, rfl⟩

/-- **A text without surrogates is read back from its bytes**, whether or not surrogates would pass. -/
theorem decodeWith?_encodeAll (surrogates : Bool) {t : Text} (h : (encode? t).isSome) :
    decodeWith? surrogates (encodeAll t) = some t := by
  rw [isSome_encode?_iff] at h
  unfold encodeAll
  induction t with
  | nil => rw [List.flatMap_nil, decodeWith?]
  | cons c r ih =>
    rw [List.forall_mem_cons] at h
    rw [List.flatMap_cons, decodeWith?_encodePoint surrogates h.1, ih h.2, Option.map_some]

theorem decode?_encodeAll {t : Text} (h : (encode? t).isSome) : decode? (encodeAll t) = some t :=
  decodeWith?_encodeAll false h

theorem encodeAll_eq_nil {t : Text} (h : (encode? t).isSome) (he : encodeAll t = []) :
    t = [] := by
  have hd := decode?_encodeAll h
  rw [he] at hd
  exact (Option.some.inj hd).symm

/-! ### Texts that were read -/

theorem not_isSurrogate_ofNat {n : Nat} (h : n < 0x110000) (hs : n < 0xD800 ∨ 0xE000 ≤ n) :
    (CodePoint.ofNat n).isSurrogate = false := by
  have hv : (CodePoint.ofNat n).val = n := Nat.mod_eq_of_lt h
  unfold CodePoint.isSurrogate
  rw [hv]
  simp only [Bool.and_eq_false_iff, decide_eq_false_iff_not]
  omega

theorem tail?_lt {b : UInt8} {n : Nat} (h : tail? b = some n) : n < 64 := by
  unfold tail? at h
  split at h
  · have hn := Option.some.inj h
    omega
  · cases h

theorem forall_of_map_cons {o : Option Text} {c : CodePoint} {t : Text} 
    (h : o.map (c :: ·) = some t) (hc : c.isSurrogate = false)
    (ih : ∀ t, o = some t → ∀ c ∈ t, c.isSurrogate = false) : ∀ c ∈ t, c.isSurrogate = false := by
  obtain ⟨u, hu, rfl⟩ := Option.map_eq_some_iff.mp h
  exact List.forall_mem_cons.mpr ⟨hc, ih u hu⟩

/-- **A text that was read from bytes holds no surrogate.** -/
theorem isSome_encode?_of_decode? {bs : Bytes} {t : Text} (h : decode? bs = some t) :
    (encode? t).isSome := by
  rw [isSome_encode?_iff]
  unfold decode? at h
  fun_induction decodeWith? false bs generalizing t with
  | case1 => cases h; simp
  | case2 b r h1 ih => exact forall_of_map_cons h (not_isSurrogate_ofNat (by omega) (by omega)) @ih
  | case5 b h1 b₁ r₁ t₁ ht₁ hb ih =>
    have hlt := tail?_lt ht₁
    exact forall_of_map_cons h (not_isSurrogate_ofNat (by omega) (by omega)) @ih
  | case9 b h1 b₁ t₁ ht₁ h2 b₂ r₂ t₂ ht₂ hb n hn =>
    rename_i ih
    have hlt₁ := tail?_lt ht₁
    have hlt₂ := tail?_lt ht₂
    have hlt : n < 0x10000 := by omega
    have hs : ¬ (0xD800 ≤ n ∧ n < 0xE000) := fun hs => hn (Or.inr ⟨hs.1, hs.2, rfl⟩)
    exact forall_of_map_cons h (not_isSurrogate_ofNat (by omega) (by omega)) @ih
  | case13 b h1 b₁ t₁ ht₁ h2 b₂ t₂ ht₂ h3 b₃ r₃ t₃ ht₃ n hn =>
    rename_i ih
    exact forall_of_map_cons h (not_isSurrogate_ofNat (by omega) (by omega)) @ih
  | _ => cases h

end LogStream.Utf8
