import LogStream.Json.Printer
import LogStream.Proofs.Number.Digits
import LogStream.Proofs.Outcome

/-! # JSON in ASCII

Printed JSON is in printable ASCII, whatever the data (`isPlain_print`): strings are since every code point of them is
escaped or is printable itself (`isPlain_string`), integers and doubles since their digits are decimal ones
(`isPlain_toText`), and lists and dictionaries if what stands between their items is. -/

namespace LogStream

namespace Text

/-- All code points are printable ones of ASCII. -/
def IsPlain (t : Text) : Prop := ∀ c ∈ t, 32 ≤ c.val ∧ c.val < 127

instance (t : Text) : Decidable t.IsPlain := List.decidableBAll _ t

variable {c : CodePoint} {s t : Text}

@[simp] theorem isPlain_nil : IsPlain [] := List.forall_mem_nil _

@[simp] theorem isPlain_cons : IsPlain (c :: t) ↔ (32 ≤ c.val ∧ c.val < 127) ∧ IsPlain t := List.forall_mem_cons

@[simp] theorem isPlain_append : IsPlain (s ++ t) ↔ IsPlain s ∧ IsPlain t := List.forall_mem_append

theorem isPlain_joinWith {sep : Text} (hsep : IsPlain sep) : ∀ {ts : List Text}, (∀ t ∈ ts, IsPlain t) →
    IsPlain (joinWith sep ts)
  | [], _ => isPlain_nil
  | [t], h => h t List.mem_cons_self
  | t :: u :: ts, h => by
    obtain ⟨ht, hrest⟩ := List.forall_mem_cons.mp h
    exact isPlain_append.mpr ⟨isPlain_append.mpr ⟨ht, hsep⟩, isPlain_joinWith hsep hrest⟩

theorem isPlain_padLeft (hc : 32 ≤ c.val ∧ c.val < 127) (width : Nat) (ht : IsPlain t) :
    IsPlain (padLeft c width t) := by
  refine isPlain_append.mpr ⟨fun d hd => ?_, ht⟩
  rwa [List.eq_of_mem_replicate hd]

end Text

open Text (IsPlain isPlain_append)

/-! ### Digits -/

namespace Decimal

variable {ds : List Nat} {d : Decimal}

theorem isPlain_digitText (h : ∀ n ∈ ds, n < 10) : IsPlain (digitText ds) := by
  have hdigit : ∀ n < 10, 32 ≤ (CodePoint.ofNat (48 + n)).val ∧ (CodePoint.ofNat (48 + n)).val < 127 := by decide
  intro c hc
  obtain ⟨n, hn, rfl⟩ := List.mem_map.mp hc
  exact hdigit n (h n hn)

theorem isPlain_ofNat (n : Nat) : IsPlain (Text.ofNat n) := by
  rw [← digitText_digitsOf]
  exact isPlain_digitText fun _ => digitsOf_lt

theorem isPlain_pointed (h : ∀ n ∈ ds, n < 10) :
    IsPlain (if ds = [] then [] else CodePoint.ofChar '.' :: digitText ds) := by
  split
  · exact Text.isPlain_nil
  · exact Text.isPlain_cons.mpr ⟨by decide, isPlain_digitText h⟩

theorem isPlain_positional (h : d.IsProper) (places : Nat) : IsPlain (d.positional places) := by
  have hzeros (k : Nat) : ∀ n ∈ List.replicate k 0, n < 10 := fun _ => lt_of_mem_replicate
  refine isPlain_append.mpr ⟨isPlain_digitText ?_, isPlain_pointed (List.forall_mem_append.mpr ⟨?_, hzeros _⟩)⟩
  · split
    · simp
    · exact fun n hn => List.forall_mem_append.mpr ⟨h.lt, hzeros _⟩ n (List.mem_of_mem_take hn)
  · split
    · exact List.forall_mem_append.mpr ⟨hzeros _, h.lt⟩
    · exact fun n hn => h.lt n (List.mem_of_mem_drop hn)

theorem isPlain_exponentText (e : Int) : IsPlain (exponentText e) := by
  refine isPlain_append.mpr ⟨?_, Text.isPlain_padLeft (by decide) 2 (isPlain_ofNat _)⟩
  split <;> decide

theorem isPlain_scientific (h : d.IsProper) : IsPlain d.scientific := by
  refine isPlain_append.mpr ⟨isPlain_append.mpr ⟨?_, ?_⟩, isPlain_exponentText _⟩
  · exact isPlain_digitText fun n hn => h.lt n (List.mem_of_mem_take hn)
  · split
    · exact Text.isPlain_nil
    · exact Text.isPlain_cons.mpr ⟨by decide, isPlain_digitText fun n hn => h.lt n (List.mem_of_mem_drop hn)⟩

theorem isProper_shortestFrom (near? : Int → Option Nat) (e : Int) (fuel : Nat) :
    (shortestFrom near? e fuel).IsProper := by
  induction fuel generalizing e with
  | zero => exact ⟨List.cons_ne_nil 0 [], List.forall_mem_singleton.mpr (by decide)⟩
  | succ fuel ih =>
    unfold shortestFrom
    split
    · exact ⟨digitsOf_ne_nil _, fun _ => digitsOf_lt⟩
    · exact ih (e - 1)

theorem isProper_shortest (x : Double) : (shortest x).IsProper :=
  (value_dropZeros (isProper_shortestFrom _ _ _)).1

end Decimal

theorem Text.isPlain_ofInt (n : Int) : IsPlain (Text.ofInt n) := by
  unfold ofInt ofIntBase
  split
  · exact isPlain_cons.mpr ⟨by decide, Decimal.isPlain_ofNat _⟩
  · exact Decimal.isPlain_ofNat _

namespace Double

theorem isPlain_signed (x : Double) {t : Text} (h : IsPlain t) : IsPlain (x.signed t) := by
  unfold signed
  split
  · exact Text.isPlain_cons.mpr ⟨by decide, h⟩
  · exact h

theorem isPlain_toText (x : Double) : IsPlain x.toText := by
  have hproper := Decimal.isProper_shortest x
  unfold toText
  split
  · decide
  split
  · exact isPlain_signed x (by decide)
  split
  · exact isPlain_signed x (by decide)
  refine isPlain_signed x ?_
  split
  · exact Decimal.isPlain_positional hproper 1
  · exact Decimal.isPlain_scientific hproper

end Double

namespace Json

/-! ### Strings -/

theorem isPlain_hex (width n : Nat) : IsPlain (Text.hex width n) := by
  refine Text.isPlain_padLeft (by decide) width ?_
  have hdigit : ∀ d < 16, 32 ≤ (CodePoint.ofChar (Nat.digitChar d)).val ∧
      (CodePoint.ofChar (Nat.digitChar d)).val < 127 := by decide
  obtain ⟨ds, hds, hchars, -⟩ := Text.exists_toDigits 16 (by decide) n
  rw [hchars, List.map_map]
  intro c hc
  obtain ⟨d, hd, rfl⟩ := List.mem_map.mp hc
  exact hdigit d (hds d hd)

/-- **Every code point is escaped** unless it is printable itself. -/
theorem isPlain_escapePoint (c : CodePoint) : IsPlain (escapePoint c) := by
  unfold escapePoint
  iterate 7
    split
    · decide
  split
  · next h => exact Text.isPlain_cons.mpr ⟨h, Text.isPlain_nil⟩
  · intro d hd
    obtain ⟨u, -, hd⟩ := List.mem_flatMap.mp hd
    exact isPlain_append.mpr ⟨by decide, isPlain_hex 4 u⟩ d hd

theorem isPlain_string (t : Text) : IsPlain (string t) := by
  refine isPlain_append.mpr ⟨isPlain_append.mpr ⟨by decide, fun d hd => ?_⟩, by decide⟩
  obtain ⟨c, -, hd⟩ := List.mem_flatMap.mp hd
  exact isPlain_escapePoint c d hd

/-! ### Data -/

theorem isPlain_integer (n : Int) : Yields IsPlain (integer n) := by
  unfold integer
  split
  · exact yields_ok.mpr (Text.isPlain_ofInt n)
  · exact yields_error

theorem isPlain_number (x : Double) : IsPlain (number x) := by
  unfold number
  split
  · decide
  split
  · split <;> decide
  · exact x.isPlain_toText

theorem isPlain_truth (b : Bool) : IsPlain (truth b) := by
  cases b <;> decide

theorem isPlain_other (layout : Layout) (d : Datum) : Yields IsPlain (other layout d) := by
  unfold other
  split
  · exact yields_error
  split
  · exact yields_ok.mpr (isPlain_string _)
  · exact yields_error

/-- What stands between the items is printable ASCII. -/
structure Layout.IsPlain (layout : Layout) : Prop where
  comma : Text.IsPlain (Text.lit layout.comma)
  colon : Text.IsPlain (Text.lit layout.colon)

variable {layout : Layout} {ts : List Text}

theorem isPlain_array (h : layout.IsPlain) (hts : ∀ t ∈ ts, IsPlain t) : IsPlain (array layout ts) :=
  isPlain_append.mpr ⟨isPlain_append.mpr ⟨by decide, Text.isPlain_joinWith h.comma hts⟩, by decide⟩

theorem isPlain_object (h : layout.IsPlain) (hts : ∀ t ∈ ts, IsPlain t) : IsPlain (object layout ts) :=
  isPlain_append.mpr ⟨isPlain_append.mpr ⟨by decide, Text.isPlain_joinWith h.comma hts⟩, by decide⟩

mutual

/-- **Printed JSON is printable ASCII**, whatever the datum. -/
theorem isPlain_print (h : layout.IsPlain) : ∀ d : Datum, Yields IsPlain (print layout d)
  | .null => yields_ok.mpr (by decide)
  | .bool b => yields_ok.mpr (isPlain_truth b)
  | .int n => isPlain_integer n
  | .float x => yields_ok.mpr (isPlain_number x)
  | .text t => yields_ok.mpr (isPlain_string t)
  | .list xs | .tuple xs => (isPlain_printItems h xs).map fun _ hts => isPlain_array h hts
  | .map es => (isPlain_printEntries h es).map fun _ hts => isPlain_object h hts
  | .bytes _ | .time _ | .duration _ | .sealed _ _ | .lazy _ | .loop | .broken | .thing | .value _ =>
    isPlain_other layout _
termination_by structural d => d

theorem isPlain_printItems (h : layout.IsPlain) : ∀ xs : List Datum,
    Yields (∀ t ∈ ·, IsPlain t) (printItems layout xs)
  | [] => yields_ok.mpr (List.forall_mem_nil _)
  | x :: xs => (isPlain_print h x).bind fun _ ht => (isPlain_printItems h xs).bind fun _ hts =>
      yields_ok.mpr (List.forall_mem_cons.mpr ⟨ht, hts⟩)
termination_by structural xs => xs

theorem isPlain_printEntries (h : layout.IsPlain) : ∀ es : List (Datum × Datum),
    Yields (∀ t ∈ ·, IsPlain t) (printEntries layout es)
  | [] => yields_ok.mpr (List.forall_mem_nil _)
  | (k, d) :: es => yields_bind_of_forall fun name => (isPlain_print h d).bind fun _ ht =>
      (isPlain_printEntries h es).bind fun _ hts => by
        have hkey := isPlain_append.mpr ⟨isPlain_string name, h.colon⟩
        exact yields_ok.mpr (List.forall_mem_cons.mpr ⟨isPlain_append.mpr ⟨hkey, ht⟩, hts⟩)
termination_by structural es => es

end

end Json

end LogStream
