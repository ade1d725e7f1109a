import Mathlib
import LogStream.Proofs.Text.Numeral
import LogStream.Proofs.Text.Utf8
import LogStream.Proofs.Time.Calendar
import LogStream.Proofs.Wire.Stamp
import LogStream.Time.Iso
import LogStream.Time.Zone

/-! # Times in ISO form read back

The fields of a wall clock reading are those of a date that exists and of a clock, and give the reading again
(`ofFields?_fields`). In ISO form each field stands as a number of a fixed count of digits (`exists_isField`), and the
reader takes them one by one (`readDate?_digitBytes`, `readClock?_digitBytes`). So the text of a time in UTC is read
as the time (`read_isoUtc?`). -/

namespace LogStream

/-! ### Fields -/

namespace Time

theorem isValid_date (t : Time) : t.date.isValid = true :=
  Date.isValid_ofDay (Nat.div_lt_of_lt_mul (Nat.mul_comm _ _ ▸ t.wall.isLt))

theorem clock_lt (t : Time) : t.hour < 24 ∧ t.minute < 60 ∧ t.second < 60 ∧ t.micro < microsPerSecond := by
  unfold hour minute second micro secondOfDay microsPerSecond
  omega

/-- **The fields of a time give its wall clock reading.** -/
theorem ofFields?_fields (t : Time) (offset : Option Int) :
    ofFields? t.date t.hour t.minute t.second t.micro offset = some ⟨t.wall, offset⟩ := by
  have hday := Date.toDay_ofDay (t.wall.val / microsPerDay)
  have hvalid := t.isValid_date
  have hwall : (((t.date.toDay * 24 + t.hour) * 60 + t.minute) * 60 + t.second) * microsPerSecond + t.micro =
      t.wall.val := by
    unfold date hour minute second micro secondOfDay
    rw [hday]
    unfold microsPerDay microsPerSecond
    omega
  have hfields := t.clock_lt
  unfold ofFields?
  rw [if_pos (by simp [hvalid, hfields]), hwall]
  unfold ofWall?
  rw [dif_pos (by simp), if_pos (by omega)]
  rfl

/-- A time in UTC is the one of its instant. -/
theorem toUtc?_of_utc {t : Time} (h : t.offset = some 0) : t.toUtc? = some t := by
  obtain ⟨wall, offset⟩ := t
  obtain rfl : offset = some 0 := h
  have hwall : (Time.mk wall (some 0)).instant + epochWall = wall.val := by
    simp [instant]
  unfold toUtc? ofInstant? ofWall?
  rw [hwall, dif_pos (by simp), if_pos (by omega)]
  rfl

/-! ### Fields of digits -/

/-- The digits of a number in a field of fixed width. -/
structure IsField (width n : Nat) (ds : List Nat) : Prop where
  length : ds.length = width
  lt : ∀ d ∈ ds, d < 10
  number : Text.numberOf 10 ds = n

/-- A number that is not too great for a field is written as its digits there. -/
theorem exists_isField (width : Nat) {n : Nat} (hwidth : 0 < width) (h : n < 10 ^ width) :
    ∃ ds, IsField width n ds ∧ padded width n = Decimal.digitText ds := by
  have hlength := (Decimal.length_digitsOf_le_iff hwidth).mpr h
  refine ⟨List.replicate (width - (Decimal.digitsOf n).length) 0 ++ Decimal.digitsOf n, ⟨?_, ?_, ?_⟩, ?_⟩
  · rw [List.length_append, List.length_replicate]
    omega
  · refine List.forall_mem_append.mpr ⟨fun d hd => ?_, fun d => Decimal.digitsOf_lt⟩
    rw [List.eq_of_mem_replicate hd]
    decide
  · rw [Text.numberOf_replicate_append, Decimal.numberOf_digitsOf]
  · unfold padded Text.padLeft
    rw [← Decimal.digitText_digitsOf]
    unfold Decimal.digitText
    rw [List.map_append, List.map_replicate, List.length_map]
    rfl

end Time

namespace Iso

open Time (IsField)

/-- The bytes of decimal digits. -/
def digitBytes (ds : List Nat) : Bytes := ds.map fun d => byte (48 + d)

/-- The byte of a character of ASCII. -/
abbrev mark (c : Char) : UInt8 := byte c.toNat

theorem isDigit_digit : ∀ d < 10, isDigit (byte (48 + d)) = true := by decide

theorem startsZone_digit : ∀ d < 10, startsZone (byte (48 + d)) = false := by decide

theorem isChar_digit {d : Nat} (hd : d < 10) {c : Char} (hc : c.toNat < 48 ∨ 57 < c.toNat) :
    isChar (byte (48 + d)) c = false := by
  unfold isChar
  rw [Utf8.toNat_byte (by omega), beq_eq_false_iff_ne]
  omega

theorem takeNumber?_digitBytes : ∀ {ds : List Nat}, (∀ d ∈ ds, d < 10) → ∀ (acc : Nat) (rest : Bytes),
    takeNumber? ds.length acc (digitBytes ds ++ rest) = some (ds.foldl (fun n d => n * 10 + d) acc, rest)
  | [], _, _, _ => rfl
  | d :: ds, h, acc, rest => by
    obtain ⟨hd, hds⟩ := List.forall_mem_cons.mp h
    have hvalue : (byte (48 + d)).toNat - 48 = d := by
      rw [Utf8.toNat_byte (by omega), Nat.add_sub_cancel_left]
    change takeNumber? (ds.length + 1) acc (byte (48 + d) :: (digitBytes ds ++ rest)) = _
    rw [takeNumber?, if_pos (isDigit_digit d hd), hvalue, takeNumber?_digitBytes hds]
    rfl

section

variable {width n : Nat} {ds : List Nat}

/-- The number of a field is taken from the front of what stands behind it. -/
theorem takeNumber?_of_isField (h : IsField width n ds) (rest : Bytes) :
    takeNumber? width 0 (digitBytes ds ++ rest) = some (n, rest) := by
  rw [← h.length, ← h.number]
  exact takeNumber?_digitBytes h.lt 0 rest

theorem exists_cons_of_isField (h : IsField (width + 1) n ds) : ∃ d < 10, ∃ es, ds = d :: es := by
  obtain ⟨d, es, rfl⟩ := List.exists_cons_of_length_eq_add_one h.length
  exact ⟨d, h.lt d List.mem_cons_self, es, rfl⟩

end

/-! ### Reading dates -/

section

variable {year month day : Nat} {ys ms ds : List Nat} (hyear : IsField 4 year ys) (hmonth : IsField 2 month ms)
include hyear hmonth

/-- The date is read from its three numbers. -/
theorem readDate?_digitBytes (hday : IsField 2 day ds) (rest : Bytes) :
    readDate? (digitBytes ys ++ mark '-' :: (digitBytes ms ++ mark '-' :: (digitBytes ds ++ rest))) 10 =
      some ⟨year, month, day⟩ := by
  have hweek : isChar (at' (digitBytes ms ++ mark '-' :: (digitBytes ds ++ rest)) 0) 'W' = false := by
    obtain ⟨d, hd, es, rfl⟩ := exists_cons_of_isField hmonth
    exact isChar_digit hd (by decide)
  have hhyphen (r : Bytes) : isChar (at' (mark '-' :: r) 0) '-' = true := rfl
  have hdrop (r : Bytes) : dropHyphen? true (mark '-' :: r) = some r := rfl
  unfold readDate?
  rw [takeNumber?_of_isField hyear]
  simp only [Option.bind_eq_bind, Option.bind_some, hhyphen, hdrop, if_true, List.drop_succ_cons,
    List.drop_zero, hweek, Bool.false_eq_true, if_false, takeNumber?_of_isField hmonth,
    takeNumber?_of_isField hday]

/-- The date ends behind ten bytes: there are hyphens at both places, and no week. -/
theorem dateLength?_digitBytes {rest : Bytes} (hrest : rest ≠ []) :
    dateLength? (digitBytes ys ++ mark '-' :: (digitBytes ms ++ rest)) = some 10 := by
  obtain ⟨y₁, y₂, y₃, y₄, rfl⟩ : ∃ y₁ y₂ y₃ y₄, ys = [y₁, y₂, y₃, y₄] := by
    have hlength := hyear.length
    match ys, hlength with
    | [y₁, y₂, y₃, y₄], _ => exact ⟨y₁, y₂, y₃, y₄, rfl⟩
  obtain ⟨m, hm, es, rfl⟩ := exists_cons_of_isField hmonth
  have hlong : ¬ (digitBytes [y₁, y₂, y₃, y₄] ++ mark '-' :: (digitBytes (m :: es) ++ rest)).length = 7 := by
    have hes := hmonth.length
    have hpos := List.length_pos_iff.mpr hrest
    simp only [digitBytes, List.length_append, List.length_map, List.length_cons, List.length_nil] at hes ⊢
    omega
  have hhyphen : isChar (at' (digitBytes [y₁, y₂, y₃, y₄] ++ mark '-' :: (digitBytes (m :: es) ++ rest)) 4) '-' =
      true := rfl
  have hweek : isChar (at' (digitBytes [y₁, y₂, y₃, y₄] ++ mark '-' :: (digitBytes (m :: es) ++ rest)) 5) 'W' =
      false := isChar_digit hm (by decide)
  unfold dateLength?
  rw [if_neg hlong, if_pos hhyphen, hweek]
  rfl

end

/-! ### Reading clocks -/

section

variable {n micro : Nat} {ds fs : List Nat} (h : IsField 2 n ds) (c : Clock) (rank more : Nat)
include h

/-- A part of the clock in front of a colon. -/
theorem readParts?_colon {rest : Bytes} (hrest : rest ≠ []) :
    readParts? true c rank (more + 1) (digitBytes ds ++ mark ':' :: rest) =
      readParts? true (c.set rank n) (rank + 1) more rest := by
  have hcolon (r : Bytes) : isChar (at' (mark ':' :: r) 0) ':' = true := rfl
  obtain ⟨b, r, rfl⟩ := List.exists_cons_of_ne_nil hrest
  rw [readParts?, takeNumber?_of_isField h]
  simp only [Option.bind_eq_bind, Option.bind_some, hcolon, ite_self]
  rfl

/-- The last part of the clock, without a fraction. -/
theorem readParts?_last :
    readParts? true c rank (more + 1) (digitBytes ds) = some (c.set rank n, false) := by
  rw [← List.append_nil (digitBytes ds), readParts?, takeNumber?_of_isField h]
  rfl

/-- The last part of the clock, in front of microseconds. -/
theorem readParts?_fraction (hf : IsField 6 micro fs) (hrank : rank ≠ 0) :
    readParts? true c rank (more + 1) (digitBytes ds ++ mark '.' :: digitBytes fs) =
      some (⟨(c.set rank n).hour, (c.set rank n).minute, (c.set rank n).second, micro⟩, false) := by
  have hcount : min (digitBytes fs).length 6 = 6 := by
    rw [digitBytes, List.length_map, hf.length]
    rfl
  have hnumber := takeNumber?_of_isField hf []
  rw [List.append_nil] at hnumber
  obtain ⟨f, -, es, hfs⟩ := exists_cons_of_isField hf
  have hfraction : readFraction? (c.set rank n) (digitBytes fs) =
      some (⟨(c.set rank n).hour, (c.set rank n).minute, (c.set rank n).second, micro⟩, false) := by
    unfold readFraction?
    rw [hcount]
    dsimp only
    rw [hnumber]
    simp [at']
  rw [← hfraction, readParts?, takeNumber?_of_isField h]
  simp only [Option.bind_eq_bind, Option.bind_some, if_neg hrank, hfs]
  rfl

end

/-- The bytes of microseconds behind a point, or of nothing where there are none. -/
def fractionBytes (micro : Nat) (fs : List Nat) : Bytes :=
  if micro = 0 then [] else mark '.' :: digitBytes fs

theorem startsZone_digitBytes {ds : List Nat} (h : ∀ d ∈ ds, d < 10) :
    ∀ b ∈ digitBytes ds, (!startsZone b) = true := by
  intro b hb
  obtain ⟨d, hd, rfl⟩ := List.mem_map.mp hb
  rw [startsZone_digit d (h d hd)]
  rfl

theorem startsZone_fractionBytes (micro : Nat) {fs : List Nat} (h : ∀ d ∈ fs, d < 10) :
    ∀ b ∈ fractionBytes micro fs, (!startsZone b) = true := by
  unfold fractionBytes
  split
  · exact List.forall_mem_nil _
  · exact List.forall_mem_cons.mpr ⟨rfl, startsZone_digitBytes h⟩

section

variable {hour minute second micro : Nat} {hs ms ss fs : List Nat} (hhour : IsField 2 hour hs)
  (hminute : IsField 2 minute ms) (hsecond : IsField 2 second ss) (hmicro : IsField 6 micro fs)
include hhour hminute hsecond hmicro

/-- The clock is read from its three numbers and the microseconds. -/
theorem readClock?_digitBytes :
    readClock? (digitBytes hs ++ mark ':' :: (digitBytes ms ++ mark ':' :: (digitBytes ss ++
      fractionBytes micro fs))) = some (⟨hour, minute, second, micro⟩, false) := by
  unfold readClock?
  rw [readParts?_colon hhour _ _ _ (by simp), readParts?_colon hminute _ _ _ (by
    obtain ⟨d, -, es, rfl⟩ := exists_cons_of_isField hsecond
    exact List.cons_ne_nil _ _)]
  unfold fractionBytes
  split
  · next hzero =>
    subst hzero
    rw [List.append_nil, readParts?_last hsecond]
    rfl
  · rw [readParts?_fraction hsecond _ _ _ hmicro (by decide)]
    rfl

/-- The clock is read up to the mark of UTC behind it. -/
theorem readTime?_digitBytes :
    readTime? ((digitBytes hs ++ mark ':' :: (digitBytes ms ++ mark ':' :: (digitBytes ss ++
      fractionBytes micro fs))) ++ [mark 'Z']) = some (⟨hour, minute, second, micro⟩, some 0) := by
  have hcolon : (!startsZone (mark ':')) = true := rfl
  have hplain : ∀ b ∈ digitBytes hs ++ mark ':' :: (digitBytes ms ++ mark ':' :: (digitBytes ss ++
      fractionBytes micro fs)), (!startsZone b) = true := by
    simp only [List.forall_mem_append, List.forall_mem_cons]
    exact ⟨startsZone_digitBytes hhour.lt, hcolon, startsZone_digitBytes hminute.lt, hcolon,
      startsZone_digitBytes hsecond.lt, startsZone_fractionBytes micro hmicro.lt⟩
  have hread := readClock?_digitBytes hhour hminute hsecond hmicro
  unfold readTime?
  rw [List.takeWhile_append_of_pos hplain, List.dropWhile_append_of_pos hplain]
  change (readClock? (_ ++ [])).bind _ = _
  rw [List.append_nil, hread]
  rfl

end

/-! ### Bytes of texts in ASCII -/

/-- The bytes of a text in ASCII are its characters. -/
theorem encode?_of_ascii {t : Text} (h : ∀ c ∈ t, c.val < 128) :
    Utf8.encode? t = some (t.map fun c => byte c.val) := by
  rw [Utf8.encode?_eq_some_iff]
  constructor
  · intro c hc
    have hlt := h c hc
    unfold CodePoint.isSurrogate
    rw [Bool.and_eq_false_iff, decide_eq_false_iff_not]
    omega
  · unfold Utf8.encodeAll
    induction t with
    | nil => rfl
    | cons c r ih =>
      obtain ⟨hc, hr⟩ := List.forall_mem_cons.mp h
      rw [List.flatMap_cons, List.map_cons, ih hr, Utf8.encodePoint, if_pos hc]
      rfl

/-- A text without surrogates has a plain separator already. -/
theorem plainSeparator_eq_self {t : Text} (h : ∀ c ∈ t, c.isSurrogate = false) : plainSeparator t = t := by
  have hnone : ([7, 8, 10].find? fun i => (t[i]?).any CodePoint.isSurrogate) = none := by
    refine List.find?_eq_none.mpr fun i _ => ?_
    cases hi : t[i]? with
    | none => simp
    | some c => simp [h c (List.mem_of_getElem? hi)]
  unfold plainSeparator
  rw [hnone]

theorem val_digit : ∀ d < 10, (CodePoint.ofNat (48 + d)).val = 48 + d := by decide

theorem lt_of_mem_digitText {ds : List Nat} (h : ∀ d ∈ ds, d < 10) :
    ∀ c ∈ Decimal.digitText ds, c.val < 128 := by
  intro c hc
  obtain ⟨d, hd, rfl⟩ := List.mem_map.mp hc
  have hlt := h d hd
  rw [val_digit d hlt]
  omega

theorem map_byte_digitText {ds : List Nat} (h : ∀ d ∈ ds, d < 10) :
    (Decimal.digitText ds).map (fun c => byte c.val) = digitBytes ds := by
  unfold Decimal.digitText digitBytes
  rw [List.map_map]
  exact List.map_congr_left fun d hd => congrArg byte (val_digit d (h d hd))

/-! ### Texts read back -/

/-- A text of the fields of a time in UTC. -/
def fieldText (ys ms ds hs ns ss : List Nat) (fraction : Text) : Text :=
  Decimal.digitText ys ++ CodePoint.ofChar '-' :: (Decimal.digitText ms ++ CodePoint.ofChar '-' ::
    (Decimal.digitText ds ++ CodePoint.ofChar 'T' :: ((Decimal.digitText hs ++ CodePoint.ofChar ':' ::
      (Decimal.digitText ns ++ CodePoint.ofChar ':' :: (Decimal.digitText ss ++ fraction))) ++
        [CodePoint.ofChar 'Z'])))

/-- The bytes of the date of a text of fields. -/
def dateBytes (ys ms ds : List Nat) : Bytes :=
  digitBytes ys ++ mark '-' :: (digitBytes ms ++ mark '-' :: digitBytes ds)

/-- The bytes of a clock in UTC. -/
def clockBytes (hs ns ss : List Nat) (fraction : Bytes) : Bytes :=
  (digitBytes hs ++ mark ':' :: (digitBytes ns ++ mark ':' :: (digitBytes ss ++ fraction))) ++ [mark 'Z']

theorem val_ofChar {c : Char} (h : c.toNat < 128) : (CodePoint.ofChar c).val = c.toNat := by
  unfold CodePoint.ofChar
  rw [Fin.val_ofNat, Nat.mod_eq_of_lt (by omega)]

section

variable {year month day hour minute second micro : Nat} {ys ms ds hs ns ss fs : List Nat}
  (hyear : IsField 4 year ys) (hmonth : IsField 2 month ms) (hday : IsField 2 day ds)
include hyear hmonth hday

theorem length_dateBytes : (dateBytes ys ms ds).length = 10 := by
  simp [dateBytes, digitBytes, hyear.length, hmonth.length, hday.length]

/-- The fields of a time are read from the bytes of its date and of its clock. -/
theorem readFields?_of_encode? {t : Text} {clock : Bytes} {c : Clock} {zone : Option Int}
    (hlength : 7 ≤ t.length)
    (hbytes : Utf8.encode? (plainSeparator t) = some (dateBytes ys ms ds ++ mark 'T' :: clock))
    (hclock : readTime? clock = some (c, zone)) :
    readFields? t = some (⟨year, month, day⟩, c, zone) := by
  have hten := length_dateBytes hyear hmonth hday
  have hdate : dateLength? (dateBytes ys ms ds ++ mark 'T' :: clock) = some 10 := by
    have hd := dateLength?_digitBytes hyear hmonth
      (show mark '-' :: (digitBytes ds ++ mark 'T' :: clock) ≠ [] from List.cons_ne_nil _ _)
    simpa [dateBytes] using hd
  have hread : readDate? (dateBytes ys ms ds ++ mark 'T' :: clock) 10 = some ⟨year, month, day⟩ := by
    have hr := readDate?_digitBytes hyear hmonth hday (mark 'T' :: clock)
    simpa [dateBytes] using hr
  have hseparator : at' (dateBytes ys ms ds ++ mark 'T' :: clock) 10 = mark 'T' := by
    unfold at'
    rw [List.getD_append_right _ _ _ _ (by omega), hten]
    rfl
  have hdrop : (dateBytes ys ms ds ++ mark 'T' :: clock).drop (10 + separatorWidth (mark 'T')) = clock := by
    rw [← List.drop_drop, ← hten, List.drop_left]
    rfl
  unfold readFields?
  rw [if_neg (by omega), hbytes]
  simp only [Option.bind_eq_bind, Option.bind_some, hdate, hread, hseparator, hdrop, hclock]
  rw [if_pos (by simp [hten])]

variable (hhour : IsField 2 hour hs) (hminute : IsField 2 minute ns) (hsecond : IsField 2 second ss)
  (hmicro : IsField 6 micro fs)
include hhour hminute hsecond hmicro

/-- The bytes of a text of fields, which are all of ASCII. -/
theorem encode?_fieldText {fraction : Text}
    (hfraction : fraction = if micro = 0 then [] else CodePoint.ofChar '.' :: Decimal.digitText fs) :
    Utf8.encode? (plainSeparator (fieldText ys ms ds hs ns ss fraction)) =
      some (dateBytes ys ms ds ++ mark 'T' :: clockBytes hs ns ss (fractionBytes micro fs)) := by
  have hfractionAscii : ∀ c ∈ fraction, c.val < 128 := by
    rw [hfraction]
    split
    · exact List.forall_mem_nil _
    · exact List.forall_mem_cons.mpr ⟨by decide, lt_of_mem_digitText hmicro.lt⟩
  have hfractionBytes : fraction.map (fun c => byte c.val) = fractionBytes micro fs := by
    rw [hfraction, fractionBytes]
    split
    · rfl
    · rw [List.map_cons, map_byte_digitText hmicro.lt]
      rfl
  have hmark (c : Char) (hc : c.toNat < 128) : (CodePoint.ofChar c).val < 128 := val_ofChar hc ▸ hc
  have hascii : ∀ c ∈ fieldText ys ms ds hs ns ss fraction, c.val < 128 := by
    simp only [fieldText, List.forall_mem_append, List.forall_mem_cons]
    exact ⟨lt_of_mem_digitText hyear.lt, hmark '-' (by decide), lt_of_mem_digitText hmonth.lt,
      hmark '-' (by decide), lt_of_mem_digitText hday.lt, hmark 'T' (by decide),
      ⟨lt_of_mem_digitText hhour.lt, hmark ':' (by decide), lt_of_mem_digitText hminute.lt,
        hmark ':' (by decide), lt_of_mem_digitText hsecond.lt, hfractionAscii⟩, hmark 'Z' (by decide),
      List.forall_mem_nil _⟩
  have hencode := encode?_of_ascii hascii
  rw [plainSeparator_eq_self (Utf8.encode?_eq_some_iff.mp hencode).1, hencode]
  simp only [fieldText, dateBytes, clockBytes, List.map_append, List.map_cons, List.map_nil,
    map_byte_digitText hyear.lt, map_byte_digitText hmonth.lt, map_byte_digitText hday.lt,
    map_byte_digitText hhour.lt, map_byte_digitText hminute.lt, map_byte_digitText hsecond.lt,
    hfractionBytes, List.append_assoc, List.cons_append]
  rw [val_ofChar (by decide), val_ofChar (by decide), val_ofChar (by decide), val_ofChar (by decide)]

/-- The text of the fields of a time is read as these fields. -/
theorem readFields?_fieldText {fraction : Text}
    (hfraction : fraction = if micro = 0 then [] else CodePoint.ofChar '.' :: Decimal.digitText fs) :
    readFields? (fieldText ys ms ds hs ns ss fraction) =
      some (⟨year, month, day⟩, ⟨hour, minute, second, micro⟩, some 0) := by
  refine readFields?_of_encode? hyear hmonth hday ?_
    (encode?_fieldText hyear hmonth hday hhour hminute hsecond hmicro hfraction)
    (readTime?_digitBytes hhour hminute hsecond hmicro)
  simp only [fieldText, Decimal.digitText, List.length_append, List.length_map, List.length_cons,
    hyear.length, hmonth.length]
  omega

end

/-- **The text of a time in UTC is read as the time.** -/
theorem read_isoUtc? {t : Time} (h : t.offset = some 0) : ∃ text, t.isoUtc? = some text ∧ read text = .ok t := by
  obtain ⟨hyear, hmonth, hday⟩ := Date.fields_lt_of_isValid t.isValid_date
  obtain ⟨hhour, hminute, hsecond, hmicro⟩ := t.clock_lt
  obtain ⟨ys, hys, hyears⟩ := Time.exists_isField 4 (by decide) hyear
  obtain ⟨ms, hms, hmonths⟩ := Time.exists_isField 2 (by decide) hmonth
  obtain ⟨ds, hds, hdays⟩ := Time.exists_isField 2 (by decide) hday
  obtain ⟨hs, hhs, hhours⟩ := Time.exists_isField 2 (by decide) (show t.hour < 100 by omega)
  obtain ⟨ns, hns, hminutes⟩ := Time.exists_isField 2 (by decide) (show t.minute < 100 by omega)
  obtain ⟨ss, hss, hseconds⟩ := Time.exists_isField 2 (by decide) (show t.second < 100 by omega)
  obtain ⟨fs, hfs, hmicros⟩ := Time.exists_isField 6 (by decide) hmicro
  have htext : t.isoUtc? = some (fieldText ys ms ds hs ns ss (Time.fractionText t.micro)) := by
    have hparts : t.isoUtc? = some (Time.dateText t.date ++ Text.lit "T" ++ t.clockText ++ [] ++ Text.lit "Z") := by
      unfold Time.isoUtc?
      rw [Time.toUtc?_of_utc h]
      rfl
    rw [hparts, Time.dateText, Time.clockText, hyears, hmonths, hdays, hhours, hminutes, hseconds, fieldText]
    simp only [show Text.lit "T" = [CodePoint.ofChar 'T'] from rfl,
      show Text.lit "Z" = [CodePoint.ofChar 'Z'] from rfl, show Text.lit "-" = [CodePoint.ofChar '-'] from rfl,
      show Text.lit ":" = [CodePoint.ofChar ':'] from rfl, List.append_assoc, List.append_nil,
      List.cons_append, List.nil_append]
  refine ⟨_, htext, ?_⟩
  have hfraction : Time.fractionText t.micro =
      if t.micro = 0 then [] else CodePoint.ofChar '.' :: Decimal.digitText fs := by
    rw [Time.fractionText, hmicros]
  have hfields := readFields?_fieldText hys hms hds hhs hns hss hfs hfraction
  have hinstant : Time.ofInstant? ((Time.mk t.wall none).instant - 0) = some t := by
    have hutc := Time.toUtc?_of_utc h
    unfold Time.toUtc? Time.instant at hutc
    rw [h] at hutc
    unfold Time.instant
    simpa using hutc
  unfold read
  rw [hfields]
  dsimp only
  rw [Time.ofFields?_fields]
  dsimp only
  rw [hinstant]

end Iso

end LogStream
