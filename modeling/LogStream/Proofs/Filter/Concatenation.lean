import Mathlib
import LogStream.Proofs.Filter.Quotings
import LogStream.Proofs.Text.Utf8

/-! # Literals of joined bodies

A body is made of parts: characters, and escapes where these are read (`IsPart`). Each part stands for one code
point, so the literal of two bodies is one of both texts. For bytes the parts are not told apart any more when
their encoding is chosen: the code points of the whole literal are bytes if all of them are below 256, else
all are encoded in UTF-8. What a part contributes depends on the whole (`contribution`), and the bytes of
joined bodies are joined just if the bodies go together (`contributions_append_iff`, `parse_joined`). -/

namespace LogStream.Filter

open Text (exists_value_of_mem)

/-! ### Parts -/

/-- A part of a body and what it stands for: a character, or an escape unless escapes are not read. -/
inductive IsPart (raw : Bool) : Text → CodePoint → Prop
  | plain {c : CodePoint} (h : raw = false → c.is '\\' = false) : IsPart raw [c] c
  | escape {b x : CodePoint} {e : Text} (hraw : raw = false) (hb : b.is '\\' = true) (he : Escape e x) :
      IsPart raw (b :: e) x

structure Part (raw : Bool) where
  text : Text
  point : CodePoint
  isPart : IsPart raw text point

section Bodies

variable {raw : Bool}

/-- The body that is made of the parts. -/
def written (ps : List (Part raw)) : Text := ps.flatMap Part.text

/-- The code points that the parts stand for. -/
def points (ps : List (Part raw)) : Text := ps.map Part.point

theorem written_append (ps qs : List (Part raw)) : written (ps ++ qs) = written ps ++ written qs :=
  List.flatMap_append

theorem points_append (ps qs : List (Part raw)) : points (ps ++ qs) = points ps ++ points qs :=
  List.map_append

theorem unescapes_written : ∀ ps : List (Part false), Unescapes (written ps) (points ps)
  | [] => .nil
  | ⟨_, _, .plain h⟩ :: ps => .plain (h rfl) (unescapes_written ps)
  | ⟨_, _, .escape _ hb he⟩ :: ps => .escape hb he (unescapes_written ps)

theorem written_raw : ∀ ps : List (Part true), written ps = points ps
  | [] => rfl
  | ⟨_, _, .plain _⟩ :: ps => congrArg _ (written_raw ps)

/-- **A body says what its parts stand for.** -/
theorem says_written (q : Quoting) (ps : List (Part q.isRaw)) {content : Text} :
    q.Says (written ps) content ↔ content = points ps := by
  have hparts (raw : Bool) (ps : List (Part raw)) :
      (if raw then content = written ps else Unescapes (written ps) content) ↔ content = points ps := by
    cases raw with
    | true => rw [if_pos rfl, written_raw]
    | false =>
      have hread := unescape_eq_ok_iff.mpr (unescapes_written ps)
      rw [if_neg Bool.false_ne_true, ← unescape_eq_ok_iff, hread]
      simp [eq_comm]
  exact hparts q.isRaw ps

theorem parse_written_iff (q : Quoting) {ps : List (Part q.isRaw)} (h : q.Takes (written ps)) {c : Constant} :
    parse (q.literal (written ps)) = .ok (.literal 0 c) ↔ q.Denotes (points ps) c := by
  simp [Quoting.parse_literal_iff h, says_written]

end Bodies

/-! ### Bytes -/

/-- All code points are single bytes. -/
def IsNarrow (t : Text) : Prop := ∀ c ∈ t, c.val < 256

instance : DecidablePred IsNarrow := fun t => List.decidableBAll _ t

/-- All code points are those of ASCII. -/
def IsAscii (t : Text) : Prop := ∀ c ∈ t, c.val < 128

/-- The bytes of a code point in a literal as a whole. -/
def contribution (whole : Text) (c : CodePoint) : Bytes :=
  if IsNarrow whole then [byte c.val] else Utf8.encodePoint c

/-- The bytes of the code points of a literal, one after the other. -/
def contributions (t : Text) : Bytes := t.flatMap (contribution t)

section Bytes

variable {s t : Text} {c : CodePoint}

theorem IsAscii.isNarrow (h : IsAscii t) : IsNarrow t := fun c hc => Nat.lt_trans (h c hc) (by decide)

theorem isNarrow_append : IsNarrow (s ++ t) ↔ IsNarrow s ∧ IsNarrow t := by
  simp [IsNarrow, or_imp, forall_and]

/-- In UTF-8 a code point is one byte if it is in ASCII, and more if it is not. -/
theorem length_encodePoint (c : CodePoint) :
    1 ≤ (Utf8.encodePoint c).length ∧ ((Utf8.encodePoint c).length = 1 ↔ c.val < 128) := by
  unfold Utf8.encodePoint
  dsimp only
  split_ifs <;> simp <;> omega

theorem encodePoint_of_lt (h : c.val < 128) : Utf8.encodePoint c = [byte c.val] := by
  simp [Utf8.encodePoint, h]

/-- **A byte is contributed as it is** just if the whole is narrow or the byte is in ASCII. -/
theorem contribution_eq_iff {whole : Text} :
    contribution whole c = [byte c.val] ↔ IsNarrow whole ∨ c.val < 128 := by
  unfold contribution
  split_ifs with h
  · simp [h]
  · simp only [h, false_or]
    constructor
    · intro heq
      exact (length_encodePoint c).2.mp (by rw [heq, List.length_singleton])
    · exact encodePoint_of_lt

theorem contributions_of_narrow (h : IsNarrow t) : contributions t = t.map fun c => byte c.val := by
  have hone : contribution t = fun c => [byte c.val] := by
    funext c
    simp [contribution, h]
  rw [contributions, hone, List.map_eq_flatMap]

theorem contributions_of_not_narrow (h : ¬ IsNarrow t) : contributions t = Utf8.encodeAll t := by
  have hwide : contribution t = Utf8.encodePoint := by
    funext c
    simp [contribution, h]
  rw [contributions, hwide, Utf8.encodeAll]

/-- **A content stands for the contributions of its code points**, none of which is a surrogate. -/
theorem saysBytes_iff {bs : Bytes} :
    SaysBytes t bs ↔ (∀ c ∈ t, c.isSurrogate = false) ∧ bs = contributions t := by
  by_cases h : IsNarrow t
  · have hsurrogate : ∀ c ∈ t, c.isSurrogate = false := by
      intro c hc
      have hlt := h c hc
      simp [CodePoint.isSurrogate]
      omega
    rw [contributions_of_narrow h]
    constructor
    · intro hs
      cases hs with
      | narrow => exact ⟨hsurrogate, rfl⟩
      | wide hw => exact absurd h hw
    · rintro ⟨-, rfl⟩
      exact .narrow h
  · rw [contributions_of_not_narrow h, ← Utf8.encode?_eq_some_iff]
    constructor
    · intro hs
      cases hs with
      | narrow hn => exact absurd hn h
      | wide _ hb => exact hb
    · exact .wide h

theorem length_encodeAll : ∀ s : Text, s.length ≤ (Utf8.encodeAll s).length ∧
    ((Utf8.encodeAll s).length = s.length → IsAscii s)
  | [] => by simp [Utf8.encodeAll, IsAscii]
  | c :: s => by
    obtain ⟨hle, hascii⟩ := length_encodeAll s
    obtain ⟨hpos, hone⟩ := length_encodePoint c
    have hlength : (Utf8.encodeAll (c :: s)).length =
        (Utf8.encodePoint c).length + (Utf8.encodeAll s).length := by simp [Utf8.encodeAll]
    rw [hlength, List.length_cons]
    refine ⟨by omega, fun heq => List.forall_mem_cons.mpr ⟨hone.mp ?_, hascii ?_⟩⟩ <;> omega

/-- Bytes encoded in UTF-8 stay what they are just if all are in ASCII. -/
theorem encodeAll_eq_bytes_iff : Utf8.encodeAll s = (s.map fun c => byte c.val) ↔ IsAscii s := by
  constructor
  · intro heq
    exact (length_encodeAll s).2 (by rw [heq, List.length_map])
  · intro h
    rw [List.map_eq_flatMap]
    exact List.flatMap_congr fun c hc => encodePoint_of_lt (h c hc)

/-- **The bytes of two texts together are those of each** just if both texts are narrow, or neither is, or one
of them is in ASCII. -/
theorem contributions_append_iff : contributions (s ++ t) = contributions s ++ contributions t ↔
    (IsNarrow s ↔ IsNarrow t) ∨ IsAscii s ∨ IsAscii t := by
  have hencode : Utf8.encodeAll (s ++ t) = Utf8.encodeAll s ++ Utf8.encodeAll t := List.flatMap_append
  by_cases hs : IsNarrow s <;> by_cases ht : IsNarrow t
  · rw [contributions_of_narrow hs, contributions_of_narrow ht,
      contributions_of_narrow (isNarrow_append.mpr ⟨hs, ht⟩)]
    simp [hs, ht]
  · have htext : ¬ IsAscii t := fun h => ht h.isNarrow
    rw [contributions_of_narrow hs, contributions_of_not_narrow ht,
      contributions_of_not_narrow fun h => ht (isNarrow_append.mp h).2, hencode, List.append_left_inj,
      encodeAll_eq_bytes_iff]
    simp [hs, ht, htext]
  · have htext : ¬ IsAscii s := fun h => hs h.isNarrow
    rw [contributions_of_not_narrow hs, contributions_of_narrow ht,
      contributions_of_not_narrow fun h => hs (isNarrow_append.mp h).1, hencode, List.append_right_inj,
      encodeAll_eq_bytes_iff]
    simp [hs, ht, htext]
  · rw [contributions_of_not_narrow hs, contributions_of_not_narrow ht,
      contributions_of_not_narrow fun h => hs (isNarrow_append.mp h).1, hencode]
    simp [hs, ht]

end Bytes

/-! ### Escapes of bytes -/

/-- The part is an escape of two hexadecimal digits behind an `x`, or of three octal ones. -/
def Part.IsByteEscape {raw : Bool} (p : Part raw) : Prop :=
  ∃ b d r, p.text = b :: d :: r ∧ (d.is 'x' = true ∨ d.isOctalDigit = true)

theorem hexValue?_lt {c : CodePoint} {d : Nat} (h : c.hexValue? = some d) : d < 16 := by
  unfold CodePoint.hexValue? at h
  split_ifs at h <;> cases h <;> omega

/-- Two hexadecimal digits are a byte. -/
theorem numberOf_lt_of_length {r : Text} {ds : List Nat} (h : r.mapM CodePoint.hexValue? = some ds)
    (hr : r.length = 2) : Text.numberOf 16 ds < 256 := by
  match r, hr with
  | [a, b], _ =>
    obtain ⟨x, hx⟩ := exists_value_of_mem h a (by simp)
    obtain ⟨y, hy⟩ := exists_value_of_mem h b (by simp)
    have hds : ds = [x, y] := by simpa [hx, hy, eq_comm] using h
    have hxlt := hexValue?_lt hx
    have hylt := hexValue?_lt hy
    simp [hds, Text.numberOf]
    omega

theorem val_ofNat {n : Nat} (h : n < 0x110000) : (CodePoint.ofNat n).val = n := Nat.mod_eq_of_lt h

/-- **An escape of a byte stands for one.** -/
theorem Part.IsByteEscape.lt {raw : Bool} {p : Part raw} (h : p.IsByteEscape) : p.point.val < 256 := by
  obtain ⟨text, point, hpart⟩ := p
  obtain ⟨b, d, r, htext, hd⟩ := h
  dsimp only at htext ⊢
  cases hpart with
  | plain _ => cases htext
  | escape _ _ he =>
    have htail := (List.cons.inj htext).2
    cases he with
    | @simple c n hmem =>
      have hsimple : ∀ e ∈ simpleEscapes, e.2 < 256 := by decide
      have hlt := hsimple _ hmem
      rw [val_ofNat (Nat.lt_trans hlt (by decide))]
      exact hlt
    | @numbered mark count r ds hmem hr hl hb =>
      obtain ⟨rfl, -⟩ := List.cons.inj htail
      have hmarks : ∀ m ∈ [('x', 2), ('u', 4), ('U', 8)], (CodePoint.ofChar m.1).is 'x' = true ∨
          (CodePoint.ofChar m.1).isOctalDigit = true → m.2 = 2 := by decide
      have hlt := numberOf_lt_of_length hr (hl.trans (hmarks _ hmem hd))
      rw [val_ofNat hb]
      exact hlt
    | @octal a b c ha hb hc =>
      have hlt : Text.numberOf 8 [a.val - 48, b.val - 48, c.val - 48] < 256 := by
        simp only [Text.numberOf, List.foldl_cons, List.foldl_nil]
        omega
      rw [val_ofNat (Nat.lt_trans hlt (by decide))]
      exact hlt

/-! ### Literals -/

section Literals

variable {q : Quoting} {xs ys : List (Part q.isRaw)}

theorem parse_string_iff (hq : q.isBytes = false) (h : q.Takes (written xs)) {c : Constant} :
    parse (q.literal (written xs)) = .ok (.literal 0 c) ↔ c = .string (points xs) := by
  rw [parse_written_iff q h, Quoting.Denotes, hq, if_neg Bool.false_ne_true]

theorem parse_bytes_iff (hq : q.isBytes = true) (h : q.Takes (written xs)) {bs : Bytes} :
    parse (q.literal (written xs)) = .ok (.literal 0 (.bytes bs)) ↔
      (∀ c ∈ points xs, c.isSurrogate = false) ∧ bs = contributions (points xs) := by
  rw [parse_written_iff q h, Quoting.Denotes, hq, if_pos rfl, ← saysBytes_iff]
  simp

/-- **What literals of joined bodies stand for.** The string literal of two bodies stands for both strings, one
after the other. The bytes literal of two bodies that stand for bytes stands for bytes too; these are the bytes
of both, one after the other, just if both are narrow, or neither is, or one of them is in ASCII. The bytes of a
literal are what its parts contribute, and an escape of a byte contributes this byte just if the whole literal
is narrow or the byte is in ASCII. -/
theorem parse_joined (q : Quoting) (xs ys : List (Part q.isRaw)) (hx : q.Takes (written xs))
    (hy : q.Takes (written ys)) :
    (q.isBytes = false →
      parse (q.literal (written xs)) = .ok (.literal 0 (.string (points xs))) ∧
        parse (q.literal (written ys)) = .ok (.literal 0 (.string (points ys))) ∧
        parse (q.literal (written xs ++ written ys)) =
          .ok (.literal 0 (.string (points xs ++ points ys)))) ∧
    (q.isBytes = true → ∀ a b, parse (q.literal (written xs)) = .ok (.literal 0 (.bytes a)) →
      parse (q.literal (written ys)) = .ok (.literal 0 (.bytes b)) →
        (∃ c, parse (q.literal (written xs ++ written ys)) = .ok (.literal 0 (.bytes c)) ∧
          (c = a ++ b ↔ (IsNarrow (points xs) ↔ IsNarrow (points ys)) ∨
            IsAscii (points xs) ∨ IsAscii (points ys))) ∧
        a = (points xs).flatMap (contribution (points xs)) ∧
        ∀ p ∈ xs, p.IsByteEscape → p.point.val < 256 ∧
          (contribution (points xs) p.point = [byte p.point.val] ↔
            IsNarrow (points xs) ∨ p.point.val < 128)) := by
  have hxy : q.Takes (written (xs ++ ys)) := by
    rw [written_append]
    exact hx.append hy
  rw [← written_append, ← points_append]
  refine ⟨fun hq => ?_, fun hq a b ha hb => ⟨?_, ?_⟩⟩
  · simp [parse_string_iff hq, hx, hy, hxy]
  · obtain ⟨hxs, rfl⟩ := (parse_bytes_iff hq hx).mp ha
    obtain ⟨hys, rfl⟩ := (parse_bytes_iff hq hy).mp hb
    have hsurrogate : ∀ c ∈ points (xs ++ ys), c.isSurrogate = false := by
      rw [points_append, List.forall_mem_append]
      exact ⟨hxs, hys⟩
    refine ⟨_, (parse_bytes_iff hq hxy).mpr ⟨hsurrogate, rfl⟩, ?_⟩
    rw [points_append]
    exact contributions_append_iff
  · obtain ⟨-, rfl⟩ := (parse_bytes_iff hq hx).mp ha
    exact ⟨rfl, fun p _ hp => ⟨hp.lt, contribution_eq_iff⟩⟩

end Literals

/-- Bytes between single quotes. -/
def byteQuoting : Quoting where
  letters := Text.lit "b"
  quote := CodePoint.ofChar '\''
  isTripled := false
  length_letters := by decide
  isLetter := List.all_eq_true.mp (by decide)
  isQuote := by decide

/-- The escape of the greatest byte. -/
def greatestByte : Part byteQuoting.isRaw where
  text := CodePoint.ofChar '\\' :: CodePoint.ofChar 'x' :: Text.lit "ff"
  point := CodePoint.ofNat 255
  isPart := .escape rfl (by decide)
    (@Escape.numbered 'x' 2 (Text.lit "ff") [15, 15] (by decide) (by decide) (by decide)
      (by simp [Text.numberOf]))

theorem takes_greatestByte : byteQuoting.Takes (written [greatestByte]) :=
  .escaped (by decide) (by decide) (.plain (by decide) (by decide) (by decide)
    (.plain (by decide) (by decide) (by decide) .nil))

theorem parse_greatestByte : parse (byteQuoting.literal (written [greatestByte])) =
    .ok (.literal 0 (.bytes [0xFF])) :=
  (parse_bytes_iff rfl takes_greatestByte).mpr ⟨List.forall_mem_singleton.mpr (by decide), by decide⟩

/-- A character alone. -/
def characterPart (c : Char) (h : (CodePoint.ofChar c).is '\\' = false) : Part byteQuoting.isRaw :=
  ⟨[CodePoint.ofChar c], CodePoint.ofChar c, .plain fun _ => h⟩

/-- The bytes of an escape and of a letter in ASCII. -/
theorem parse_joined_letter : ∃ c, parse (Text.lit "b'\\xffa'") = .ok (.literal 0 (.bytes c)) ∧
    c = [0xFF] ++ [0x61] := by
  let a := characterPart 'a' (by decide)
  have htakes : byteQuoting.Takes (written [a]) := .plain (by decide) (by decide) (by decide) .nil
  have hparse : parse (byteQuoting.literal (written [a])) = .ok (.literal 0 (.bytes [0x61])) :=
    (parse_bytes_iff rfl htakes).mpr ⟨List.forall_mem_singleton.mpr (by decide), by decide⟩
  obtain ⟨⟨c, hc, hjoined⟩, -⟩ :=
    (parse_joined byteQuoting _ _ takes_greatestByte htakes).2 rfl _ _ parse_greatestByte hparse
  exact ⟨c, hc, hjoined.mpr (.inl (by decide))⟩

/-- A wider character behind the escape of a byte makes two bytes of it. -/
theorem not_joined_of_wide : parse (Text.lit "b'\\xff'") = .ok (.literal 0 (.bytes [0xFF])) ∧
    parse (Text.lit "b'€'") = .ok (.literal 0 (.bytes [0xE2, 0x82, 0xAC])) ∧
    parse (Text.lit "b'\\xff€'") ≠ .ok (.literal 0 (.bytes ([0xFF] ++ [0xE2, 0x82, 0xAC]))) := by
  let euro := characterPart '€' (by decide)
  have htakes : byteQuoting.Takes (written [euro]) := .plain (by decide) (by decide) (by decide) .nil
  have hboth : byteQuoting.Takes (written [greatestByte, euro]) := takes_greatestByte.append htakes
  have hparse : parse (byteQuoting.literal (written [euro])) =
      .ok (.literal 0 (.bytes [0xE2, 0x82, 0xAC])) :=
    (parse_bytes_iff rfl htakes).mpr ⟨List.forall_mem_singleton.mpr (by decide), by decide⟩
  refine ⟨parse_greatestByte, hparse, fun hjoined => ?_⟩
  have hbytes := ((parse_bytes_iff rfl hboth).mp hjoined).2
  exact absurd hbytes (by decide)

end LogStream.Filter
