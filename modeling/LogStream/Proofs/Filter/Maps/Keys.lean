import LogStream.Filter.Dyn
import LogStream.Proofs.Number.Exact

/-! # Keys of maps

The plain keys are truth values, numbers, strings and bytes. Each belongs to a class (`Dyn.keyClass?`), and
two of them are the same as keys if they are in one class (`Dyn.sameKey_iff`): either they are equal, or one
is a truth value and the other one the number that it counts as (`Dyn.sameKey_eq`). Where the keys of each
of two maps are pairwise not the same, the maps are equal if each entry of one has a counterpart in the
other (`Dyn.equals_map_iff`). -/

namespace LogStream.Filter

/-- What tells plain keys apart. -/
inductive KeyClass
  | number (u : ExactValue)
  | string (t : Text)
  | bytes (bs : Bytes)

namespace Dyn

variable {v w key : Dyn} {es fs : List (Dyn × Dyn)}

/-! ### Classes of keys -/

/-- A truth value, a number that is not a not-a-number, a string or bytes. -/
def isPlainKey : Dyn → Bool
  | bool _ => true
  | int _ => true
  | double x => !x.isNaN
  | string _ => true
  | bytes _ => true
  | _ => false

/-- The class of a plain key; numbers and what counts as a number are taken by exact value. -/
def keyClass? : Dyn → Option KeyClass
  | string t => some (.string t)
  | bytes bs => some (.bytes bs)
  | v => (v.keyNumber?.bind Number.exactValue?).map .number

theorem exists_keyClass? (h : v.isPlainKey = true) : ∃ c, v.keyClass? = some c := by
  cases v with
  | double x =>
    obtain ⟨u, hu⟩ := Double.exists_exactValue? (by simpa [isPlainKey] using h)
    exact ⟨.number u, by simp [keyClass?, keyNumber?, number?, Number.exactValue?, hu]⟩
  | bool b => exact ⟨_, rfl⟩
  | int n => exact ⟨_, rfl⟩
  | string t => exact ⟨_, rfl⟩
  | bytes bs => exact ⟨_, rfl⟩
  | _ => cases h

/-- A key that counts as an equal number is in the class of the number. -/
theorem any_equal_iff {a : Number} {u : ExactValue} (ha : a.exactValue? = some u) :
    w.keyNumber?.any (Number.equal a) = true ↔ w.keyClass? = some (.number u) := by
  have hclass (b : Number) : Number.equal a b = true ↔
      b.exactValue?.map KeyClass.number = some (.number u) := by
    rw [Number.equal_iff, ha]
    simp [eq_comm]
  cases w with
  | bool c => exact hclass _
  | int n => exact hclass _
  | double y => exact hclass _
  | _ => simp [keyNumber?, number?, keyClass?]

/-- **Plain keys are the same just if they are in one class.** -/
theorem sameKey_iff (hv : v.isPlainKey = true) :
    v.sameKey w = true ↔ v.keyClass? = w.keyClass? := by
  have hnumber {a : Number} (hsame : v.sameKey w = w.keyNumber?.any (Number.equal a))
      (hclass : v.keyClass? = a.exactValue?.map .number) :
      v.sameKey w = true ↔ v.keyClass? = w.keyClass? := by
    obtain ⟨c, hc⟩ := exists_keyClass? hv
    obtain ⟨u, hu, rfl⟩ := Option.map_eq_some_iff.mp (hclass.symm.trans hc)
    rw [hsame, any_equal_iff hu, hc, eq_comm]
  cases v with
  | bool b => exact hnumber rfl rfl
  | int n => exact hnumber rfl rfl
  | double x => exact hnumber rfl rfl
  | string t => cases w <;> simp [sameKey, keyClass?, keyNumber?, number?]
  | bytes bs => cases w <;> simp [sameKey, keyClass?, keyNumber?, number?]
  | _ => cases hv

/-! ### Equal keys and keys that clash -/

/-- One of two keys is a truth value, and the other one is the number that it counts as. -/
def clashes : Dyn → Dyn → Bool
  | bool b, w => w.number?.any (Number.equal (.int (if b then 1 else 0)))
  | v, bool b => v.number?.any fun a => Number.equal a (.int (if b then 1 else 0))
  | _, _ => false

/-- Two keys are equal or clash. -/
def countsAs (v w : Dyn) : Bool := v.equals w || v.clashes w

/-- **Plain keys are the same if they are equal or clash.** -/
theorem sameKey_eq (hv : v.isPlainKey = true) : v.sameKey w = v.countsAs w := by
  unfold countsAs
  cases v with
  | bool b =>
    cases w with
    | bool c => cases b <;> cases c <;> decide
    | _ => simp [sameKey, equals, clashes, keyNumber?]
  | int n => cases w <;> simp [sameKey, equals, clashes, keyNumber?, number?]
  | double x => cases w <;> simp [sameKey, equals, clashes, keyNumber?, number?]
  | string t => cases w <;> simp [sameKey, equals, clashes, number?]
  | bytes bs => cases w <;> simp [sameKey, equals, clashes, number?]
  | _ => cases hv

theorem countsAs_iff (hv : v.isPlainKey = true) :
    v.countsAs w = true ↔ v.keyClass? = w.keyClass? := by
  rw [← sameKey_eq hv, sameKey_iff hv]

theorem countsAs_comm (hv : v.isPlainKey = true) (hw : w.isPlainKey = true) :
    v.countsAs w = true ↔ w.countsAs v = true := by
  rw [countsAs_iff hv, countsAs_iff hw, eq_comm]

/-- A key finds what it counts as; a truth value only finds an equal one. -/
def finds : Dyn → Dyn → Bool
  | bool b, w => (bool b).equals w
  | v, w => v.countsAs w

/-! ### Maps with distinct keys -/

/-- No key of the entries is the same as an earlier one. -/
def HasDistinctKeys (es : List (Dyn × Dyn)) : Prop :=
  es.Pairwise fun e f => f.1.sameKey e.1 = false

/-- An entry behind others that all have another key. -/
theorem HasDistinctKeys.snoc {f : Dyn × Dyn} (h : HasDistinctKeys es)
    (hf : ¬ ∃ e ∈ es, f.1.sameKey e.1 = true) : HasDistinctKeys (es ++ [f]) := by
  refine List.pairwise_append.mpr ⟨h, List.pairwise_singleton _ _, fun e he g hg => ?_⟩
  rw [List.mem_singleton.mp hg]
  exact Bool.eq_false_iff.mpr fun hsame => hf ⟨e, he, hsame⟩

/-- All keys of the entries are plain. -/
def HasPlainKeys (es : List (Dyn × Dyn)) : Prop := ∀ e ∈ es, e.1.isPlainKey = true

/-- The classes of the keys of entries. -/
def classes (es : List (Dyn × Dyn)) : List (Option KeyClass) := es.map fun e => e.1.keyClass?

/-- Distinct plain keys are in distinct classes. -/
theorem HasDistinctKeys.nodup_classes (h : HasDistinctKeys es) (hes : HasPlainKeys es) :
    (classes es).Nodup := by
  refine List.pairwise_map.mpr (h.imp_of_mem fun {e f} _ hf hsame heq => ?_)
  rw [(sameKey_iff (hes f hf)).mpr heq.symm] at hsame
  cases hsame

theorem classes_subset (hes : HasPlainKeys es)
    (h : ∀ e ∈ es, ∃ f ∈ fs, e.1.countsAs f.1 = true) : classes es ⊆ classes fs := by
  intro c hc
  obtain ⟨e, he, rfl⟩ := List.mem_map.mp hc
  obtain ⟨f, hf, hcounts⟩ := h e he
  exact List.mem_map.mpr ⟨f, hf, ((countsAs_iff (hes e he)).mp hcounts).symm⟩

theorem isSome_binding?_iff :
    (binding? key es).isSome = true ↔ ∃ e ∈ es, key.sameKey e.1 = true :=
  List.find?_isSome

/-- Under a plain key there is the content of each entry whose key counts as the same, of which there is at
most one. -/
theorem lookup?_eq_some_iff (h : HasDistinctKeys es) (hes : HasPlainKeys es)
    (hkey : key.isPlainKey = true) :
    lookup? key es = some w ↔ ∃ e ∈ es, key.countsAs e.1 = true ∧ e.2 = w := by
  unfold lookup? binding?
  rw [Option.map_eq_some_iff]
  constructor
  · rintro ⟨e, he, rfl⟩
    have hsame := List.find?_some he
    exact ⟨e, List.mem_of_find?_eq_some he, sameKey_eq hkey ▸ hsame, rfl⟩
  · rintro ⟨e, he, hcounts, rfl⟩
    rw [← sameKey_eq hkey] at hcounts
    obtain ⟨f, hf⟩ := Option.isSome_iff_exists.mp (isSome_binding?_iff.mpr ⟨e, he, hcounts⟩)
    unfold binding? at hf
    have hfound := List.find?_some hf
    have hclass : f.1.keyClass? = e.1.keyClass? :=
      ((sameKey_iff hkey).mp hfound).symm.trans ((sameKey_iff hkey).mp hcounts)
    rw [List.inj_on_of_nodup_map (h.nodup_classes hes) (List.mem_of_find?_eq_some hf) he hclass] at hf
    exact ⟨e, hf, rfl⟩

/-! ### Equal maps -/

/-- Each entry has a counterpart in the other map, with a key that counts as the same and an equal content,
and so it is the other way round. -/
structure Corresponds (es fs : List (Dyn × Dyn)) : Prop where
  left : ∀ e ∈ es, ∃ f ∈ fs, e.1.countsAs f.1 = true ∧ e.2.equals f.2 = true
  right : ∀ f ∈ fs, ∃ e ∈ es, e.1.countsAs f.1 = true ∧ e.2.equals f.2 = true

theorem equalEntries_iff : ∀ {es fs : List (Dyn × Dyn)}, equalEntries es fs = true ↔
    ∀ e ∈ es, ∃ w, lookup? e.1 fs = some w ∧ e.2.equals w = true
  | [], fs => by simp [equalEntries]
  | (k, v) :: es, fs => by
    rw [equalEntries, Bool.and_eq_true, equalEntries_iff, List.forall_mem_cons]
    cases lookup? k fs <;> simp

section

variable (hes : HasDistinctKeys es) (hfs : HasDistinctKeys fs) (hesp : HasPlainKeys es)
  (hfsp : HasPlainKeys fs)

include hfs hesp hfsp

theorem equalEntries_iff_exists : equalEntries es fs = true ↔
    ∀ e ∈ es, ∃ f ∈ fs, e.1.countsAs f.1 = true ∧ e.2.equals f.2 = true := by
  rw [equalEntries_iff]
  refine forall₂_congr fun e he => ?_
  simp only [lookup?_eq_some_iff hfs hfsp (hesp e he)]
  constructor
  · rintro ⟨_, ⟨f, hf, hcounts, rfl⟩, hequal⟩
    exact ⟨f, hf, hcounts, hequal⟩
  · rintro ⟨f, hf, hcounts, hequal⟩
    exact ⟨f.2, ⟨f, hf, hcounts, rfl⟩, hequal⟩

include hes

/-- Where each entry has a counterpart in a map of the same length, the keys take up all classes of the keys
there. -/
theorem corresponds_of_length (hlength : es.length = fs.length)
    (hleft : ∀ e ∈ es, ∃ f ∈ fs, e.1.countsAs f.1 = true ∧ e.2.equals f.2 = true) :
    Corresponds es fs := by
  refine ⟨hleft, fun f hf => ?_⟩
  have hsubset := classes_subset hesp fun e he => (hleft e he).imp fun _ h => ⟨h.1, h.2.1⟩
  have hperm : (classes es).Perm (classes fs) :=
    ((hes.nodup_classes hesp).subperm hsubset).perm_of_length_le (by simp [classes, hlength])
  have hclass : f.1.keyClass? ∈ classes es := hperm.mem_iff.mpr (List.mem_map_of_mem hf)
  obtain ⟨e, he, hef⟩ := List.mem_map.mp hclass
  obtain ⟨g, hg, hcounts, hequal⟩ := hleft e he
  have hgf : g.1.keyClass? = f.1.keyClass? := ((countsAs_iff (hesp e he)).mp hcounts).symm.trans hef
  rw [List.inj_on_of_nodup_map (hfs.nodup_classes hfsp) hg hf hgf] at hcounts hequal
  exact ⟨e, he, hcounts, hequal⟩

/-- Maps whose entries correspond to each other are of the same length. -/
theorem Corresponds.length_eq (h : Corresponds es fs) : es.length = fs.length := by
  have hsubset := classes_subset hesp fun e he => (h.left e he).imp fun _ h => ⟨h.1, h.2.1⟩
  have hsuperset : classes fs ⊆ classes es := by
    refine classes_subset hfsp fun f hf => ?_
    obtain ⟨e, he, hcounts, -⟩ := h.right f hf
    exact ⟨e, he, (countsAs_comm (hesp e he) (hfsp f hf)).mp hcounts⟩
  have hle := ((hes.nodup_classes hesp).subperm hsubset).length_le
  have hge := ((hfs.nodup_classes hfsp).subperm hsuperset).length_le
  simp only [classes, List.length_map] at hle hge
  omega

/-- **Maps with distinct plain keys are equal just if their entries correspond to each other.** -/
theorem equals_map_iff : (map es).equals (map fs) = true ↔ Corresponds es fs := by
  change (es.length == fs.length && equalEntries es fs) = true ↔ _
  rw [Bool.and_eq_true, beq_iff_eq, equalEntries_iff_exists hfs hesp hfsp]
  constructor
  · rintro ⟨hlength, hleft⟩
    exact corresponds_of_length hes hfs hesp hfsp hlength hleft
  · intro h
    exact ⟨h.length_eq hes hfs hesp hfsp, h.left⟩

end

end Dyn

end LogStream.Filter
