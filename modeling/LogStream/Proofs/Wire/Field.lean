import LogStream.Wire.Field

/-! # Fields read back

Fields that are written one after the other are read back in their order (`readAll?_flatMap`), since
each of them is read off the front of what stands behind (`readFrom_toBytes`). What a field holds is
read back too: signed numbers of 64 and of 32 bits (`toInt64_ofInt`, `toInt32_ofInt`) and doubles,
bit for bit (`ofBytes_toBytes`). Numbers and bytes that may be left out are lists of one field or
none (`intIfSet`, `bytesIfSet`). -/

namespace LogStream

/-! ### Numbers -/

theorem Varint.ofInt_lt (n : Int) : Varint.ofInt n < 0x10000000000000000 := by
  unfold Varint.ofInt; omega

theorem Varint.toInt64_ofInt {n : Int} (h : -0x8000000000000000 ≤ n ∧ n < 0x8000000000000000) :
    Varint.toInt64 (Varint.ofInt n) = n := by
  unfold Varint.toInt64 Varint.ofInt Int.bmod
  dsimp only
  split <;> omega

theorem Varint.toInt32_ofInt {n : Int} (h : -0x80000000 ≤ n ∧ n < 0x80000000) :
    Varint.toInt32 (Varint.ofInt n) = n := by
  unfold Varint.toInt32 Varint.ofInt Int.bmod
  dsimp only
  split <;> omega

/-- A double is read back from its eight bytes. -/
theorem Double.ofBytes_toBytes (x : Double) : Double.ofBytes x.toBytes = x := by
  obtain ⟨bits⟩ := x
  have hlt := bits.toNat_lt
  have hr : List.range 8 = [0, 1, 2, 3, 4, 5, 6, 7] := by decide
  unfold Double.ofBytes Double.toBytes
  rw [Double.mk.injEq, ← UInt64.toNat_inj, hr]
  simp only [List.map_cons, List.map_nil, List.foldr_cons, List.foldr_nil, UInt8.toNat_ofNat',
    UInt64.toNat_ofNat']
  simp only [Nat.pow_eq, Nat.reducePow]
  omega

theorem Double.length_toBytes (x : Double) : x.toBytes.length = 8 := by
  unfold Double.toBytes; simp

namespace Wire.Field

/-! ### One field -/

/-- The bytes of a field. -/
def toBytes (f : Field) : Bytes :=
  match f.content with
  | .varint n => ofNat f.number n
  | .double x => ofDouble f.number x
  | .bytes bs => ofBytes f.number bs
  | .other => []

/-- A content that can be written: a number that has 64 bits, or bytes whose length has. -/
def Content.Fits : Content → Prop
  | .varint n => n < 0x10000000000000000
  | .double _ => True
  | .bytes bs => bs.length < 0x10000000000000000
  | .other => False

/-- A field that can be written: its number has a tag and its content can be written. -/
structure Fits (f : Field) : Prop where
  number : 0 < f.number ∧ f.number < 0x20000000
  content : Content.Fits f.content

theorem fits_varint {number n : Nat} (h : 0 < number ∧ number < 0x20000000)
    (hn : n < 0x10000000000000000) : Fits ⟨number, .varint n⟩ := ⟨h, hn⟩

theorem fits_double {number : Nat} (h : 0 < number ∧ number < 0x20000000) (x : Double) :
    Fits ⟨number, .double x⟩ := ⟨h, trivial⟩

theorem fits_bytes {number : Nat} {bs : Bytes} (h : 0 < number ∧ number < 0x20000000)
    (hn : bs.length < 0x10000000000000000) : Fits ⟨number, .bytes bs⟩ := ⟨h, hn⟩

theorem readTag?_tag {number layout : Nat} (hn : 0 < number ∧ number < 0x20000000)
    (hl : layout < 8) (rest : Bytes) :
    readTag? (tag number layout ++ rest) = some (number, layout, rest) := by
  have hlt : number * 8 + layout < Nat.pow 128 5 :=
    Nat.lt_trans (by omega) (by decide : 0x100000000 < _)
  unfold readTag? tag
  rw [Varint.read?_encode 4 _ rest hlt]
  dsimp only
  rw [if_neg (by omega)]
  congr 2
  · omega
  · congr 1; omega

theorem take?_append (bs rest : Bytes) : take? bs.length (bs ++ rest) = some (bs, rest) := by
  unfold take?
  rw [if_pos (by simp), List.take_left, List.drop_left]

theorem encode_ne_nil (n : Nat) : Varint.encode n ≠ [] := by
  rw [Varint.encode]
  split <;> simp

theorem toBytes_ne_nil {f : Field} (h : f.Fits) : f.toBytes ≠ [] := by
  obtain ⟨number, content⟩ := f
  have ht := encode_ne_nil
  cases content with
  | varint n => simp [toBytes, ofNat, tag, ht]
  | double x => simp [toBytes, ofDouble, tag, ht]
  | bytes bs => simp [toBytes, ofBytes, tag, ht]
  | other => exact absurd h.content id

/-- **A field is read off the front** of what stands behind it. -/
theorem readFrom_toBytes {f : Field} (h : f.Fits) (depth fuel : Nat) (rest : Bytes) :
    readFrom depth (fuel + 1) [] (f.toBytes ++ rest) =
      (readFrom depth fuel [] rest).map (f :: ·) := by
  obtain ⟨b, r, hb⟩ := List.exists_cons_of_ne_nil
    (List.append_ne_nil_of_left_ne_nil (toBytes_ne_nil h) rest)
  rw [hb, readFrom, ← hb]
  obtain ⟨number, content⟩ := f
  obtain ⟨hn, hc⟩ := h
  cases content with
  | varint n =>
    have hr : readTag? (toBytes ⟨number, .varint n⟩ ++ rest) =
        some (number, 0, Varint.encode n ++ rest) := by
      simp only [toBytes, ofNat]
      rw [List.append_assoc, readTag?_tag hn (by decide)]
    rw [hr]
    dsimp only
    rw [Varint.decode?_encode hc]
    rfl
  | double x =>
    have hr : readTag? (toBytes ⟨number, .double x⟩ ++ rest) =
        some (number, 1, x.toBytes ++ rest) := by
      simp only [toBytes, ofDouble]
      rw [List.append_assoc, readTag?_tag hn (by decide)]
    have ht := take?_append x.toBytes rest
    rw [Double.length_toBytes] at ht
    rw [hr]
    dsimp only
    rw [ht]
    dsimp only
    rw [Double.ofBytes_toBytes]
    rfl
  | bytes bs =>
    have hr : readTag? (toBytes ⟨number, .bytes bs⟩ ++ rest) =
        some (number, 2, Varint.encode bs.length ++ (bs ++ rest)) := by
      simp only [toBytes, ofBytes]
      rw [List.append_assoc, List.append_assoc, readTag?_tag hn (by decide)]
    rw [hr]
    dsimp only
    rw [Varint.decode?_encode hc]
    dsimp only
    rw [take?_append]
    rfl
  | other => exact absurd hc id

/-! ### Many fields -/

theorem readFrom_flatMap (depth : Nat) : ∀ {fs : List Field} {fuel : Nat}, (∀ f ∈ fs, f.Fits) →
    (fs.flatMap toBytes).length ≤ fuel → readFrom depth fuel [] (fs.flatMap toBytes) = some fs
  | [], fuel, _, _ => by
    cases fuel <;> rfl
  | f :: fs, fuel, h, hfuel => by
    have hf := h f List.mem_cons_self
    have hpos := List.length_pos_iff.mpr (toBytes_ne_nil hf)
    rw [List.flatMap_cons] at hfuel ⊢
    rw [List.length_append] at hfuel
    obtain ⟨fuel, rfl⟩ : ∃ k, fuel = k + 1 := ⟨fuel - 1, by omega⟩
    rw [readFrom_toBytes hf, readFrom_flatMap depth (fun g hg => h g (List.mem_cons_of_mem _ hg))
      (by omega), Option.map_some]

/-- **Fields that are written one after the other are read back.** -/
theorem readAll?_flatMap (depth : Nat) {fs : List Field} (h : ∀ f ∈ fs, f.Fits) :
    readAll? depth (fs.flatMap toBytes) = some fs :=
  readFrom_flatMap depth h (Nat.le_refl _)

theorem readAll?_toBytes {f : Field} (h : f.Fits) (depth : Nat) :
    readAll? depth f.toBytes = some [f] := by
  have hf : ∀ g ∈ [f], g.Fits := List.forall_mem_singleton.mpr h
  rw [← readAll?_flatMap depth hf, List.flatMap_singleton]

theorem readAll?_ofNat {number n : Nat} (hn : 0 < number ∧ number < 0x20000000)
    (h : n < 0x10000000000000000) (depth : Nat) :
    readAll? depth (ofNat number n) = some [⟨number, .varint n⟩] :=
  readAll?_toBytes (fits_varint hn h) depth

theorem readAll?_ofInt {number : Nat} (hn : 0 < number ∧ number < 0x20000000) (n : Int)
    (depth : Nat) : readAll? depth (ofInt number n) = some [⟨number, .varint (Varint.ofInt n)⟩] :=
  readAll?_ofNat hn (Varint.ofInt_lt n) depth

theorem readAll?_ofDouble {number : Nat} (hn : 0 < number ∧ number < 0x20000000) (x : Double)
    (depth : Nat) : readAll? depth (ofDouble number x) = some [⟨number, .double x⟩] :=
  readAll?_toBytes (fits_double hn x) depth

theorem length_le_ofBytes (number : Nat) (bs : Bytes) : bs.length ≤ (ofBytes number bs).length := by
  unfold ofBytes
  rw [List.length_append]
  exact Nat.le_add_left ..

theorem readAll?_ofBytes {number : Nat} {bs : Bytes} (hn : 0 < number ∧ number < 0x20000000)
    (h : (ofBytes number bs).length < 0x10000000000000000) (depth : Nat) :
    readAll? depth (ofBytes number bs) = some [⟨number, .bytes bs⟩] :=
  readAll?_toBytes (fits_bytes hn (Nat.lt_of_le_of_lt (length_le_ofBytes number bs) h)) depth

/-! ### Fields that are left out -/

/-- The field of a signed number, unless that is zero. -/
def intIfSet (number : Nat) (n : Int) : List Field :=
  if n = 0 then [] else [⟨number, .varint (Varint.ofInt n)⟩]

/-- The field of some bytes, unless there are none. -/
def bytesIfSet (number : Nat) (bs : Bytes) : List Field :=
  if bs = [] then [] else [⟨number, .bytes bs⟩]

theorem flatMap_intIfSet (number : Nat) (n : Int) :
    (intIfSet number n).flatMap toBytes = ofIntIfSet number n := by
  unfold intIfSet ofIntIfSet
  by_cases h : n = 0
  · rw [if_pos h, if_pos h, List.flatMap_nil]
  · rw [if_neg h, if_neg h, List.flatMap_singleton]; rfl

theorem flatMap_bytesIfSet (number : Nat) (bs : Bytes) :
    (bytesIfSet number bs).flatMap toBytes = ofBytesIfSet number bs := by
  unfold bytesIfSet ofBytesIfSet
  by_cases h : bs = []
  · rw [if_pos h, if_pos h, List.flatMap_nil]
  · rw [if_neg h, if_neg h, List.flatMap_singleton]; rfl

/-- A fold over a number that may be left out, if a zero changes nothing. -/
theorem foldl_intIfSet {σ : Type} {step : σ → Field → σ} {number : Nat} {n : Int} {s t : σ}
    (hzero : n = 0 → s = t) (hstep : step s ⟨number, .varint (Varint.ofInt n)⟩ = t) :
    (intIfSet number n).foldl step s = t := by
  unfold intIfSet
  by_cases h : n = 0
  · rw [if_pos h, List.foldl_nil, hzero h]
  · rw [if_neg h, List.foldl_cons, List.foldl_nil, hstep]

theorem foldlM_intIfSet {σ : Type} {step : σ → Field → Option σ} {number : Nat} {n : Int} {s t : σ}
    (hzero : n = 0 → s = t) (hstep : step s ⟨number, .varint (Varint.ofInt n)⟩ = some t) :
    (intIfSet number n).foldlM step s = some t := by
  unfold intIfSet
  by_cases h : n = 0
  · rw [if_pos h, List.foldlM_nil, hzero h]
    rfl
  · rw [if_neg h, List.foldlM_cons, hstep]
    rfl

/-- A fold over bytes that may be left out, if none change nothing. -/
theorem foldlM_bytesIfSet {σ : Type} {step : σ → Field → Option σ} {number : Nat} {bs : Bytes}
    {s t : σ} (hnil : bs = [] → s = t) (hstep : step s ⟨number, .bytes bs⟩ = some t) :
    (bytesIfSet number bs).foldlM step s = some t := by
  unfold bytesIfSet
  by_cases h : bs = []
  · rw [if_pos h, List.foldlM_nil, hnil h]
    rfl
  · rw [if_neg h, List.foldlM_cons, hstep]
    rfl

theorem fits_of_mem_intIfSet {number : Nat} {n : Int} (h : 0 < number ∧ number < 0x20000000) :
    ∀ f ∈ intIfSet number n, f.Fits := by
  intro f hf
  unfold intIfSet at hf
  by_cases hn : n = 0
  · rw [if_pos hn] at hf; cases hf
  · rw [if_neg hn, List.mem_singleton] at hf
    subst hf
    exact fits_varint h (Varint.ofInt_lt n)

theorem eq_of_mem_bytesIfSet {number : Nat} {bs : Bytes} {f : Field}
    (hf : f ∈ bytesIfSet number bs) : f = ⟨number, .bytes bs⟩ := by
  unfold bytesIfSet at hf
  by_cases hb : bs = []
  · rw [if_pos hb] at hf; cases hf
  · rwa [if_neg hb, List.mem_singleton] at hf

theorem length_le_of_mem {number : Nat} {bs : Bytes} {fs : List Field}
    (h : ⟨number, .bytes bs⟩ ∈ fs) : bs.length ≤ (fs.flatMap toBytes).length := by
  obtain ⟨before, behind, rfl⟩ := List.append_of_mem h
  have hl : bs.length ≤ (toBytes ⟨number, .bytes bs⟩).length := length_le_ofBytes number bs
  rw [List.flatMap_append, List.flatMap_cons, List.length_append, List.length_append]
  omega

theorem fits_bytes_of_mem {number : Nat} {bs : Bytes} {fs : List Field}
    (hl : (fs.flatMap toBytes).length < 0x10000000000000000)
    (h : 0 < number ∧ number < 0x20000000) (hf : ⟨number, .bytes bs⟩ ∈ fs) :
    Fits ⟨number, .bytes bs⟩ :=
  fits_bytes h (Nat.lt_of_le_of_lt (length_le_of_mem hf) hl)

/-! ### Fields that were read -/

theorem keepOutside_eq_some {groups : List Nat} {f : Field} {rest : Option (List Field)}
    {fs : List Field} (h : keepOutside groups f rest = some fs) :
    ∃ gs, rest = some gs ∧ (fs = gs ∨ fs = f :: gs) := by
  unfold keepOutside at h
  split at h
  · obtain ⟨gs, hgs, rfl⟩ := Option.map_eq_some_iff.mp h
    exact ⟨gs, hgs, Or.inr rfl⟩
  · exact ⟨fs, h, Or.inl rfl⟩

/-- What was read as a content: a number has 64 bits. -/
def Content.IsRead : Content → Prop
  | .varint n => n < 0x10000000000000000
  | _ => True

/-- **The numbers that are read from fields have 64 bits.** -/
theorem isRead_of_readFrom {depth fuel : Nat} {groups : List Nat} {bs : Bytes} {fs : List Field}
    (h : readFrom depth fuel groups bs = some fs) : ∀ f ∈ fs, Content.IsRead f.content := by
  have keep : ∀ {groups : List Nat} {f : Field} {rest : Option (List Field)} {fs : List Field},
      keepOutside groups f rest = some fs → Content.IsRead f.content →
      (∀ {gs}, rest = some gs → ∀ g ∈ gs, Content.IsRead g.content) →
      ∀ g ∈ fs, Content.IsRead g.content := by
    intro groups f rest fs h hf hrest
    obtain ⟨gs, hgs, rfl | rfl⟩ := keepOutside_eq_some h
    · exact hrest hgs
    · exact List.forall_mem_cons.mpr ⟨hf, hrest hgs⟩
  fun_induction readFrom depth fuel groups bs generalizing fs
  case case1 =>
    cases h
    exact List.forall_mem_nil _
  case case6 hn _ ih =>
    obtain ⟨p, hp, rfl, rfl⟩ := Option.map_eq_some_iff.mp hn
    exact keep h (Nat.mod_lt _ (by decide)) ih
  case case8 ih | case11 ih | case12 ih | case18 ih => exact keep h trivial ih
  case case15 ih => exact ih h
  all_goals cases h

end Wire.Field

end LogStream
