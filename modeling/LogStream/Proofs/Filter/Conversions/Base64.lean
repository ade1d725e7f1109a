import Mathlib
import LogStream.Proofs.Filter.Application
import LogStream.Proofs.Text.Runs
import LogStream.Text.Base64

/-! # Base 64

Some bytes are written as the letters of their sextets (`sextets`), padded up to whole groups (`encode_eq`). The sextets
tell the bytes (`bytesOf_sextets`), and letters that are padded are read as the bytes of their sextets
(`decode?_padded_letters`). Padding in front of which some is there already comes out the same (`padded_append`), so the
bytes are read back whatever part of the padding is left out (`decode?_padded`). In expressions, what `base64.encode`
writes is read by `base64.decode`, with all of its padding, with a part of it or without any (`base64_round_trip`). -/

namespace LogStream.Base64

variable {bs : Bytes} {ns : List Nat} {t : Text}

/-! ### Sextets -/

/-- The numbers of the letters of some bytes: six bits each, with zeros behind the last ones. -/
def sextets : Bytes → List Nat
  | [] => []
  | [a] => [a.toNat / 4, a.toNat % 4 * 16]
  | [a, b] => [a.toNat / 4, a.toNat % 4 * 16 + b.toNat / 16, b.toNat % 16 * 4]
  | a :: b :: c :: r =>
    a.toNat / 4 :: (a.toNat % 4 * 16 + b.toNat / 16) :: (b.toNat % 16 * 4 + c.toNat / 64) :: c.toNat % 64 :: sextets r

theorem lt_of_mem_sextets : ∀ {bs : Bytes}, ∀ n ∈ sextets bs, n < 64
  | [], n, hn => absurd hn List.not_mem_nil
  | [a], n, hn => by
    have ha := a.toNat_lt
    simp only [sextets, List.mem_cons, List.not_mem_nil, or_false] at hn
    omega
  | [a, b], n, hn => by
    have ha := a.toNat_lt
    have hb := b.toNat_lt
    simp only [sextets, List.mem_cons, List.not_mem_nil, or_false] at hn
    omega
  | a :: b :: c :: r, n, hn => by
    have ha := a.toNat_lt
    have hb := b.toNat_lt
    have hc := c.toNat_lt
    simp only [sextets, List.mem_cons] at hn
    rcases hn with hn | hn | hn | hn | hn
    · omega
    · omega
    · omega
    · omega
    · exact lt_of_mem_sextets n hn

/-- No byte fits in one sextet, so there is none alone in the last group. -/
theorem length_sextets_mod_ne_one : ∀ bs : Bytes, (sextets bs).length % 4 ≠ 1
  | [] => by simp [sextets]
  | [_] => by simp [sextets]
  | [_, _] => by simp [sextets]
  | a :: b :: c :: r => by
    have hlength : (sextets (a :: b :: c :: r)).length = (sextets r).length + 4 := rfl
    rw [hlength, Nat.add_mod_right]
    exact length_sextets_mod_ne_one r

theorem byte_eq {n : Nat} {a : UInt8} (h : n % 256 = a.toNat) : byte n = a :=
  UInt8.toNat_inj.mp (UInt8.toNat_ofNat'.trans h)

/-- **The sextets tell the bytes.** -/
theorem bytesOf_sextets : ∀ bs : Bytes, bytesOf (sextets bs) = bs
  | [] => rfl
  | [a] => by
    have ha := a.toNat_lt
    rw [sextets, bytesOf, byte_eq (a := a) (by omega)]
  | [a, b] => by
    have ha := a.toNat_lt
    have hb := b.toNat_lt
    rw [sextets, bytesOf, byte_eq (a := a) (by omega), byte_eq (a := b) (by omega)]
  | a :: b :: c :: r => by
    have ha := a.toNat_lt
    have hb := b.toNat_lt
    have hc := c.toNat_lt
    rw [sextets, bytesOf, byte_eq (a := a) (by omega), byte_eq (a := b) (by omega), byte_eq (a := c) (by omega),
      bytesOf_sextets r]

/-! ### Padding -/

/-- Padding goes on where some of it is there already. -/
theorem padded_append {p : Nat} (hp : p ≤ (4 - t.length % 4) % 4) :
    padded (t ++ List.replicate p pad) = padded t := by
  have hmissing : p + (4 - (t.length + p) % 4) % 4 = (4 - t.length % 4) % 4 := by omega
  rw [padded, padded, List.length_append, List.length_replicate, List.append_assoc, List.replicate_append_replicate,
    hmissing]

/-- **Bytes are written as the letters of their sextets, padded up to whole groups.** -/
theorem encode_eq : ∀ bs : Bytes, encode bs = padded ((sextets bs).map letter)
  | [] => rfl
  | [_] => rfl
  | [_, _] => rfl
  | a :: b :: c :: r => by
    have hlength : ((sextets (a :: b :: c :: r)).map letter).length = ((sextets r).map letter).length + 4 := rfl
    rw [encode, encode_eq r, padded, padded, hlength, Nat.add_mod_right]
    rfl

/-! ### Letters -/

theorem value?_letter : ∀ n < 64, value? (letter n) = some n := by decide +kernel

theorem letter_ne_pad : ∀ n < 64, letter n ≠ pad := by decide +kernel

theorem isAscii_letter : ∀ n < 64, (letter n).isAscii = true := by decide +kernel

theorem mapM_value?_letter : ∀ {ns : List Nat}, (∀ n ∈ ns, n < 64) → (ns.map letter).mapM value? = some ns
  | [], _ => rfl
  | n :: ns, h => by
    obtain ⟨hn, hns⟩ := List.forall_mem_cons.mp h
    rw [List.map_cons, List.mapM_cons, value?_letter n hn, mapM_value?_letter hns]
    rfl

theorem ne_pad_of_mem_letters (hns : ∀ n ∈ ns, n < 64) : ∀ c ∈ ns.map letter, c ≠ pad := by
  intro c hc
  obtain ⟨n, hn, rfl⟩ := List.mem_map.mp hc
  exact letter_ne_pad n (hns n hn)

/-- Letters that are padded have the padding that fits, unless there is one letter alone in the last group. -/
theorem paddingFits_padded {n : Nat} (h : n % 4 ≠ 1) : paddingFits n ((4 - n % 4) % 4) = true := by
  have hcases : n % 4 = 0 ∨ n % 4 = 2 ∨ n % 4 = 3 := by omega
  rcases hcases with h | h | h
  all_goals simp [paddingFits, h]

/-- **Letters that are padded are read as the bytes of their sextets.** -/
theorem decode?_padded_letters (hns : ∀ n ∈ ns, n < 64) (hlength : ns.length % 4 ≠ 1) :
    decode? (padded (ns.map letter)) = some (bytesOf ns) := by
  have hletters : ∀ c ∈ ns.map letter, (c != pad) = true := fun c hc =>
    bne_iff_ne.mpr (ne_pad_of_mem_letters hns c hc)
  have hpads {p : Nat} : ∀ c ∈ (List.replicate p pad).head?, (c != pad) = false := by
    intro c hc
    rw [List.eq_of_mem_replicate (List.mem_of_mem_head? hc)]
    exact bne_self_eq_false pad
  have hall {p : Nat} : ((List.replicate p pad).all fun c => c == pad) = true := by simp
  unfold decode? padded
  dsimp only
  rw [Text.takeWhile_append hletters hpads, Text.dropWhile_append hletters hpads, hall, List.length_map,
    List.length_replicate, paddingFits_padded hlength, mapM_value?_letter hns]
  rfl

/-! ### Written and read -/

/-- What remains when padding is taken away are all letters and less padding. -/
theorem exists_of_encode_eq {k : Nat} (h : encode bs = t ++ List.replicate k pad) : ∃ p,
    p ≤ (4 - ((sextets bs).map letter).length % 4) % 4 ∧ t = (sextets bs).map letter ++ List.replicate p pad := by
  have hletters : ((sextets bs).map letter).count pad = 0 :=
    List.count_eq_zero.mpr fun hmem => ne_pad_of_mem_letters lt_of_mem_sextets pad hmem rfl
  rw [encode_eq, padded] at h
  have hcount := congrArg (List.count pad) h
  rw [List.count_append, List.count_append, List.count_replicate_self, List.count_replicate_self, hletters,
    Nat.zero_add] at hcount
  refine ⟨t.count pad, by omega, ?_⟩
  rw [hcount, ← List.replicate_append_replicate, ← List.append_assoc] at h
  exact (List.append_cancel_right h).symm

/-- **Bytes are read back from what is written, whatever part of the padding is left out.** -/
theorem decode?_padded {k : Nat} (h : encode bs = t ++ List.replicate k pad) : decode? (padded t) = some bs := by
  obtain ⟨p, hp, rfl⟩ := exists_of_encode_eq h
  rw [padded_append hp, decode?_padded_letters lt_of_mem_sextets (length_sextets_mod_ne_one bs), bytesOf_sextets]

/-- What is written is ASCII. -/
theorem isAscii_of_mem_encode : ∀ c ∈ encode bs, c.isAscii = true := by
  intro c hc
  rw [encode_eq, padded] at hc
  rcases List.mem_append.mp hc with hc | hc
  · obtain ⟨n, hn, rfl⟩ := List.mem_map.mp hc
    exact isAscii_letter n (lt_of_mem_sextets n hn)
  · rw [List.eq_of_mem_replicate hc]
    rfl

end LogStream.Base64

namespace LogStream.Filter

section

variable {env : Activation} {e : Expr} {bs : Bytes} {t : Text}

/-- The call of `base64.encode`. -/
def encodeCall (pos : Nat) (e : Expr) : Expr := .call pos (Text.lit "base64.encode") [e]

/-- The call of `base64.decode`. -/
def decodeCall (pos : Nat) (e : Expr) : Expr := .call pos (Text.lit "base64.decode") [e]

theorem eval_encodeCall (he : eval env e = .ok (.bytes bs)) (pos : Nat) :
    eval env (encodeCall pos e) = .ok (.string (Base64.encode bs)) := by
  have hname : Builtin.global? (Text.lit "base64.encode") = some .encodeBase64 := by decide
  rw [encodeCall, eval_global hname (evalAll_cons he evalAll_nil)]
  rfl

theorem eval_decodeCall (he : eval env e = .ok (.string t)) (hascii : ∀ c ∈ t, c.isAscii = true)
    (hdecode : Base64.decode? (Base64.padded t) = some bs) (pos : Nat) :
    eval env (decodeCall pos e) = .ok (.bytes bs) := by
  have hname : Builtin.global? (Text.lit "base64.decode") = some .decodeBase64 := by decide
  have hvalue : Dyn.decodeBase64 (.string t) = .ok (.bytes bs) := by
    rw [Dyn.decodeBase64, if_pos (List.all_eq_true.mpr hascii), hdecode]
    rfl
  rw [decodeCall, eval_global hname (evalAll_cons he evalAll_nil)]
  exact congrArg (called _) hvalue

/-- **Bytes are read back from base 64 whatever part of its padding is left out.** -/
theorem base64_round_trip (he : eval env e = .ok (.bytes bs)) (i j : Nat) :
    ∃ s, eval env (encodeCall i e) = .ok (.string s) ∧ ∀ t k, s = t ++ List.replicate k (CodePoint.ofChar '=') →
      ∀ d, eval env d = .ok (.string t) → eval env (decodeCall j d) = .ok (.bytes bs) := by
  refine ⟨Base64.encode bs, eval_encodeCall he i, fun t k hs d hd => ?_⟩
  have hascii : ∀ c ∈ t, c.isAscii = true := fun c hc =>
    Base64.isAscii_of_mem_encode c (hs ▸ List.mem_append_left _ hc)
  exact eval_decodeCall hd hascii (Base64.decode?_padded hs) j

end

/-- One byte, which is written as `+w==`. -/
def loneByte : Expr := .literal 0 (.bytes [0xFB])

/-- It is read back from the letters with one of the two characters of padding, and from the letters alone. -/
theorem base64_round_trip_loneByte :
    eval [] (decodeCall 0 (.literal 0 (.string (Text.lit "+w=")))) = .ok (.bytes [0xFB]) ∧
    eval [] (decodeCall 0 (.literal 0 (.string (Text.lit "+w")))) = .ok (.bytes [0xFB]) := by
  have hbyte : eval [] loneByte = .ok (.bytes [0xFB]) := rfl
  obtain ⟨s, hs, hdecode⟩ := base64_round_trip hbyte 0 0
  have hwritten : s = Text.lit "+w==" := by
    rw [eval_encodeCall hbyte] at hs
    cases hs
    decide
  exact ⟨hdecode (Text.lit "+w=") 1 hwritten _ rfl, hdecode (Text.lit "+w") 2 hwritten _ rfl⟩

end LogStream.Filter
