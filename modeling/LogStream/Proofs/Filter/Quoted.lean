import LogStream.Proofs.Filter.Literals
import LogStream.Proofs.Outcome
import LogStream.Proofs.Text.Runs

/-! # Reading quoted texts

A quoted text is read as what it denotes: its escapes are read one by one from the left
(`unescape_eq_ok_iff`), and so the token of a text or of bytes is read (`readString_eq_ok_iff`). -/

namespace LogStream.Filter

/-! ### Reading escapes -/

theorem unescapeFrom_succ (skip : Nat) (c : CodePoint) (r : Text) :
    unescapeFrom (skip + 1) (c :: r) = unescapeFrom skip r := by
  rw [unescapeFrom.eq_def]
  exact if_pos (Nat.succ_ne_zero skip)

theorem unescapeFrom_eq : ∀ (skip : Nat) (t : Text),
    unescapeFrom skip t = unescapeFrom 0 (t.drop skip)
  | 0, t => by rw [List.drop_zero]
  | skip + 1, [] => by
    rw [List.drop_nil]
    rfl
  | skip + 1, c :: r => by
    rw [unescapeFrom_succ, unescapeFrom_eq skip r, List.drop_succ_cons]

theorem unescapeFrom_plain {c : CodePoint} (hc : c.is '\\' = false) (r : Text) :
    unescapeFrom 0 (c :: r) = (unescapeFrom 0 r).map (c :: ·) := by
  rw [unescapeFrom.eq_def]
  dsimp only
  rw [if_neg (not_not_intro rfl), hc, if_neg Bool.false_ne_true]

theorem unescapeFrom_last {b : CodePoint} (hb : b.is '\\' = true) :
    unescapeFrom 0 [b] = .ok [b] := by
  rw [unescapeFrom.eq_def]
  dsimp only
  rw [if_neg (not_not_intro rfl), if_pos hb]

theorem unescapeFrom_escape {b d : CodePoint} (hb : b.is '\\' = true) (r : Text) :
    unescapeFrom 0 (b :: d :: r) =
      match readEscape d r with
      | .error e => .error e
      | .ok (x, n) => (unescapeFrom n (d :: r)).map (x :: ·) := by
  rw [unescapeFrom.eq_def]
  dsimp only
  rw [if_neg (not_not_intro rfl)]
  exact if_pos hb

theorem exists_of_escapeDigits? {count n : Nat} {t : Text} (h : escapeDigits? count t = some n) :
    ∃ r rest ds, t = r ++ rest ∧ r.length = count ∧ r.mapM CodePoint.hexValue? = some ds ∧
      n = Text.numberOf 16 ds := by
  unfold escapeDigits? at h
  split at h
  · cases h
  · obtain ⟨ds, hds, rfl⟩ := Option.map_eq_some_iff.mp h
    refine ⟨t.take count, t.drop count, ds, (List.take_append_drop count t).symm, ?_, hds, rfl⟩
    rw [List.length_take]
    omega

theorem escapeDigits?_append {r rest : Text} {ds : List Nat}
    (h : r.mapM CodePoint.hexValue? = some ds) :
    escapeDigits? r.length (r ++ rest) = some (Text.numberOf 16 ds) := by
  unfold escapeDigits?
  rw [if_neg (by rw [List.length_append]; omega), List.take_left, h]
  rfl

theorem octalDigits?_eq_some {t : Text} {n : Nat} (h : octalDigits? t = some n) :
    ∃ a b c rest, t = [a, b, c] ++ rest ∧ (48 ≤ a.val ∧ a.val ≤ 51) ∧ (48 ≤ b.val ∧ b.val ≤ 55) ∧
      (48 ≤ c.val ∧ c.val ≤ 55) ∧ n = Text.numberOf 8 [a.val - 48, b.val - 48, c.val - 48] := by
  unfold octalDigits? at h
  split at h
  · next a b c rest =>
    split at h
    · next hd =>
      cases h
      simp only [CodePoint.isOctalDigit, Bool.and_eq_true, decide_eq_true_eq] at hd
      exact ⟨a, b, c, rest, rfl, by omega, by omega, by omega, rfl⟩
    · cases h
  · cases h

/-- The digits that a mark asks for are an escape together with it. -/
theorem exists_escape_of_digits (mark : Char) {d x : CodePoint} {r : Text} {n count : Nat}
    (hmem : (mark, count) ∈ [('x', 2), ('u', 4), ('U', 8)]) (hmark : d.is mark = true)
    (h : (match escapeDigits? count r with
      | some n => do return (← numbered n, count + 1)
      | none => .error (.unknown d)) = Except.ok (x, n)) :
    ∃ e rest, d :: r = e ++ rest ∧ e.length = n ∧ Escape e x := by
  cases hd : escapeDigits? count r with
  | none => rw [hd] at h; cases h
  | some m =>
    obtain ⟨r', rest, ds, rfl, hl, hds, rfl⟩ := exists_of_escapeDigits? hd
    rw [hd] at h
    dsimp only at h
    by_cases hb : Text.numberOf 16 ds < 0x110000
    · rw [numbered, if_pos hb] at h
      cases h
      obtain rfl := CodePoint.eq_ofChar hmark
      exact ⟨CodePoint.ofChar mark :: r', rest, rfl, by rw [List.length_cons, hl],
        .numbered hmem hds hl hb⟩
    · rw [numbered, if_neg hb] at h
      split at h <;> cases h

/-- **What is read behind a backslash is an escape.** -/
theorem exists_escape_of_readEscape {d x : CodePoint} {r : Text} {n : Nat}
    (h : readEscape d r = .ok (x, n)) :
    ∃ e rest, d :: r = e ++ rest ∧ e.length = n ∧ Escape e x := by
  unfold readEscape at h
  dsimp only at h
  split at h
  · next e he =>
    cases h
    have hd : d.is e.1 = true := List.find?_some (p := fun e : Char × Nat => d.is e.1) he
    obtain rfl := CodePoint.eq_ofChar hd
    exact ⟨[CodePoint.ofChar e.1], r, rfl, rfl, .simple (List.mem_of_find?_eq_some he)⟩
  · split at h
    · next hx => exact exists_escape_of_digits 'x' (by decide) hx h
    split at h
    · next hu => exact exists_escape_of_digits 'u' (by decide) hu h
    split at h
    · next hu => exact exists_escape_of_digits 'U' (by decide) hu h
    split at h
    · next m hm =>
      cases h
      obtain ⟨a, b, c, rest, hr, ha, hb, hc, rfl⟩ := octalDigits?_eq_some hm
      exact ⟨[a, b, c], rest, hr, rfl, .octal ha hb hc⟩
    · cases h

theorem find?_simpleEscapes : ∀ p ∈ simpleEscapes,
    simpleEscapes.find? (fun e => (CodePoint.ofChar p.1).is e.1) = some p := by decide

theorem readEscape_numbered {mark : Char} {count n : Nat} {r : Text}
    (hmem : (mark, count) ∈ [('x', 2), ('u', 4), ('U', 8)])
    (hd : escapeDigits? count r = some n) (hb : n < 0x110000) :
    readEscape (CodePoint.ofChar mark) r = .ok (CodePoint.ofNat n, count + 1) := by
  have hn : numbered n = .ok (CodePoint.ofNat n) := if_pos hb
  have hfind : ∀ p ∈ [('x', 2), ('u', 4), ('U', 8)],
      simpleEscapes.find? (fun e => (CodePoint.ofChar p.1).is e.1) = none := by decide
  have hx : (CodePoint.ofChar 'u').is 'x' = false := by decide
  have hx' : (CodePoint.ofChar 'U').is 'x' = false := by decide
  have hu : (CodePoint.ofChar 'U').is 'u' = false := by decide
  rw [readEscape, hfind _ hmem]
  simp only [List.mem_cons, Prod.mk.injEq, List.not_mem_nil, or_false] at hmem
  rcases hmem with ⟨rfl, rfl⟩ | ⟨rfl, rfl⟩ | ⟨rfl, rfl⟩
  · simp only [CodePoint.is_ofChar, if_true, hd, hn]
    rfl
  · simp only [CodePoint.is_ofChar, hx, if_true, hd, hn]
    rfl
  · simp only [CodePoint.is_ofChar, hx', hu, if_true, hd, hn]
    rfl

theorem readEscape_octal {a b c : CodePoint} (ha : 48 ≤ a.val ∧ a.val ≤ 51)
    (hb : 48 ≤ b.val ∧ b.val ≤ 55) (hc : 48 ≤ c.val ∧ c.val ≤ 55) (rest : Text) :
    readEscape a (b :: c :: rest) =
      .ok (CodePoint.ofNat (Text.numberOf 8 [a.val - 48, b.val - 48, c.val - 48]), 3) := by
  have hchars : ∀ e ∈ simpleEscapes, e.1.toNat < 48 ∨ 51 < e.1.toNat := by decide
  have hfind : simpleEscapes.find? (fun e => a.is e.1) = none := by
    rw [List.find?_eq_none]
    intro e he h
    have hval : a.val = e.1.toNat := beq_iff_eq.mp h
    have hrange := hchars e he
    omega
  have hnot : ∀ ch ∈ ['x', 'u', 'U'], a.is ch = false := by
    intro ch hch
    have hrange : ['x', 'u', 'U'].all (51 < ·.toNat) = true := by decide
    have hlt : 51 < ch.toNat := of_decide_eq_true (List.all_eq_true.mp hrange ch hch)
    refine beq_false_of_ne fun hval => ?_
    omega
  have hx := hnot 'x' (by decide)
  have hu := hnot 'u' (by decide)
  have hU := hnot 'U' (by decide)
  have hoctal : octalDigits? (a :: b :: c :: rest) =
      some (Text.numberOf 8 [a.val - 48, b.val - 48, c.val - 48]) := by
    rw [octalDigits?, if_pos]
    simp only [CodePoint.isOctalDigit, Bool.and_eq_true, decide_eq_true_eq]
    omega
  rw [readEscape, hfind]
  simp only [hx, hu, hU, hoctal]
  rfl

/-- **An escape is read**, whatever stands behind it. -/
theorem readEscape_of_escape {e : Text} {x : CodePoint} (h : Escape e x) :
    ∃ d r, e = d :: r ∧ ∀ rest, readEscape d (r ++ rest) = .ok (x, e.length) := by
  cases h with
  | @simple c n h =>
    refine ⟨CodePoint.ofChar c, [], rfl, ?_⟩
    intro rest
    rw [readEscape, find?_simpleEscapes (c, n) h]
    rfl
  | @numbered mark count r ds h hr hl hb =>
    refine ⟨CodePoint.ofChar mark, r, rfl, ?_⟩
    intro rest
    subst hl
    exact readEscape_numbered h (escapeDigits?_append hr) hb
  | @octal a b c ha hb hc => exact ⟨a, [b, c], rfl, readEscape_octal ha hb hc⟩

/-- By the length of the text, since an escape is read at once. -/
theorem unescapes_of_unescapeFrom : ∀ {t u : Text}, unescapeFrom 0 t = .ok u → Unescapes t u
  | [], u, h => by
    cases h
    exact .nil
  | [c], u, h => by
    cases hc : c.is '\\' with
    | false =>
      rw [unescapeFrom_plain hc] at h
      cases h
      exact .plain hc .nil
    | true =>
      rw [unescapeFrom_last hc] at h
      cases h
      exact .last hc
  | c :: d :: r, u, h => by
    cases hc : c.is '\\' with
    | false =>
      rw [unescapeFrom_plain hc] at h
      obtain ⟨v, hv, rfl⟩ := exists_of_map_eq_ok h
      exact .plain hc (unescapes_of_unescapeFrom hv)
    | true =>
      rw [unescapeFrom_escape hc] at h
      split at h
      · cases h
      · next x n hx =>
        obtain ⟨v, hv, rfl⟩ := exists_of_map_eq_ok h
        obtain ⟨e, rest, he, rfl, hescape⟩ := exists_escape_of_readEscape hx
        have hlength : rest.length ≤ (d :: r).length := by
          rw [he, List.length_append]
          exact Nat.le_add_left ..
        rw [unescapeFrom_eq, he, List.drop_left] at hv
        rw [he]
        exact .escape hc hescape (unescapes_of_unescapeFrom hv)
termination_by t => t.length
decreasing_by
  · exact Nat.lt_succ_self _
  · exact Nat.lt_succ_of_le hlength

/-- **A text is unescaped to what it stands for.** -/
theorem unescape_eq_ok_iff {t u : Text} : unescape t = .ok u ↔ Unescapes t u := by
  constructor
  · exact unescapes_of_unescapeFrom
  · intro h
    unfold unescape
    induction h with
    | nil => rfl
    | last hb => exact unescapeFrom_last hb
    | plain hc _ ih =>
      rw [unescapeFrom_plain hc, ih]
      rfl
    | @escape b x e r t hb he _ ih =>
      obtain ⟨d, e', rfl, hread⟩ := readEscape_of_escape he
      rw [List.cons_append, unescapeFrom_escape hb, hread]
      dsimp only
      rw [unescapeFrom_eq, ← List.cons_append, List.drop_left, ih]
      rfl

/-! ### Reading quoted texts -/

/-- What is said between the quotes. -/
def said (t : Text) : Except EscapeError Text :=
  if (quoteLetters t).any (·.isIn "rR") then .ok (betweenQuotes (t.dropWhile (·.isIn "rRbB")))
  else unescape (betweenQuotes (t.dropWhile (·.isIn "rRbB")))

theorem said_eq_ok_iff {t content : Text} : said t = .ok content ↔ Says t content := by
  unfold said
  constructor
  · intro h
    cases hr : (quoteLetters t).any (·.isIn "rR") with
    | true =>
      rw [if_pos hr] at h
      cases h
      exact .raw hr
    | false =>
      rw [if_neg (by rw [hr]; exact Bool.false_ne_true)] at h
      exact .cooked hr (unescape_eq_ok_iff.mp h)
  · intro h
    cases h with
    | raw hr => rw [if_pos hr]
    | cooked hr hc =>
      rw [if_neg (by rw [hr]; exact Bool.false_ne_true)]
      exact unescape_eq_ok_iff.mpr hc

theorem literalBytes_eq_ok_iff {content : Text} {bs : Bytes} :
    literalBytes content = .ok bs ↔ SaysBytes content bs := by
  have hall : content.all (·.val < 256) = true ↔ ∀ c ∈ content, c.val < 256 := by
    rw [List.all_eq_true]
    simp only [decide_eq_true_eq]
  unfold literalBytes
  by_cases h : content.all (·.val < 256) = true
  · rw [if_pos h]
    constructor
    · rintro ⟨⟩
      exact .narrow (hall.mp h)
    · intro hs
      cases hs with
      | narrow => rfl
      | wide hw => exact absurd (hall.mp h) hw
  · rw [if_neg h]
    constructor
    · intro hb
      cases he : Utf8.encode? content with
      | none => rw [he] at hb; cases hb
      | some bs' =>
        rw [he] at hb
        cases hb
        exact .wide (fun hw => h (hall.mpr hw)) he
    · intro hs
      cases hs with
      | narrow hw => exact absurd (hall.mpr hw) h
      | wide hw hb => rw [hb]; rfl

theorem readString_eq_ok_iff_readQuoted {t : Token} {c : Constant} :
    readString t = .ok c ↔ readQuoted t.text = .ok c := by
  unfold readString
  cases readQuoted t.text with
  | ok c' =>
    constructor
    · rintro ⟨⟩
      rfl
    · rintro ⟨⟩
      rfl
  | error e =>
    constructor
    · intro h
      cases e <;> cases h
    · nofun

theorem readQuoted_eq (t : Text) : readQuoted t = (said t).bind fun content =>
    if (quoteLetters t).any (·.isIn "bB") then (literalBytes content).bind fun bs => .ok (.bytes bs)
    else .ok (.string content) := by
  unfold readQuoted said quoteLetters
  dsimp only
  cases (t.takeWhile (·.isIn "rRbB")).any (·.isIn "rR") with
  | true => rfl
  | false => rfl

/-- **The token of a text reads as what it denotes.** -/
theorem readString_eq_ok_iff {t : Token} (hk : t.kind = .string) {c : Constant} :
    readString t = .ok c ↔ t.Denotes c := by
  rw [readString_eq_ok_iff_readQuoted, readQuoted_eq]
  constructor
  · intro h
    obtain ⟨content, hc, h⟩ := exists_of_bind_eq_ok h
    have hsays := said_eq_ok_iff.mp hc
    cases hb : (quoteLetters t.text).any (·.isIn "bB") with
    | true =>
      rw [if_pos hb] at h
      obtain ⟨bs, hbs, h⟩ := exists_of_bind_eq_ok h
      cases h
      exact .bytes hk hsays hb (literalBytes_eq_ok_iff.mp hbs)
    | false =>
      rw [if_neg (by rw [hb]; exact Bool.false_ne_true)] at h
      cases h
      exact .string hk hsays hb
  · intro h
    cases h with
    | int hk' => rw [hk] at hk'; cases hk'
    | uint hk' => rw [hk] at hk'; cases hk'
    | float hk' => rw [hk] at hk'; cases hk'
    | string _ hsays hb =>
      rw [said_eq_ok_iff.mpr hsays, hb]
      rfl
    | bytes _ hsays hb hbs =>
      have hread := literalBytes_eq_ok_iff.mpr hbs
      rw [said_eq_ok_iff.mpr hsays, hb]
      simp only [Except.bind, if_true, hread]

end LogStream.Filter
