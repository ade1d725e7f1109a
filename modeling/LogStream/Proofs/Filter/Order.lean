import LogStream.Filter.Access
import LogStream.Proofs.Filter.Equality

/-! # Order of values

The values of an ordered type stand in the order of their ranks (`Dyn.compare?_eq`), and two of them are equal
if they have the same rank (`Dyn.equals_iff_rank`). So the relations on them are those of a linear order, and
no other two values are in any order (`Dyn.isLawful`). -/

namespace LogStream.Filter

/-- The ordered types, numbers taken together. -/
inductive OrderedType
  | number
  | string
  | bytes
  | bool
  | timestamp
  | duration
deriving DecidableEq

/-- The ordered type of the values with a content, if they are of one. -/
def Content.orderedType? : Content → Option OrderedType
  | number _ => some .number
  | string _ => some .string
  | bytes _ => some .bytes
  | bool _ => some .bool
  | instant _ => some .timestamp
  | duration _ => some .duration
  | _ => none

/-! ### Ranks -/

/-- Where a value stands among those of its ordered type: at a point, or as a word in a dictionary. -/
abbrev Rank := ExactValue ⊕ₗ List Nat

namespace Rank

def point (u : ExactValue) : Rank := Sum.inlₗ u

def word (ns : List Nat) : Rank := Sum.inrₗ ns

theorem point_injective : Function.Injective point := fun _ _ h => Sum.inl_injective (toLex.injective h)

theorem word_injective : Function.Injective word := fun _ _ h => Sum.inr_injective (toLex.injective h)

theorem compare_point (u v : ExactValue) : Ord.compare (point u) (point v) = Ord.compare u v :=
  compare_eq_compare Sum.Lex.inl_lt_inl_iff Sum.Lex.inl_lt_inl_iff

theorem compare_point_ofUnits (m n : Int) :
    Ord.compare (point (.ofUnits m)) (point (.ofUnits n)) = Ord.compare m n :=
  (compare_point _ _).trans
    (compare_eq_compare ExactValue.ofUnits_lt_ofUnits ExactValue.ofUnits_lt_ofUnits)

theorem point_ofUnits_inj {m n : Int} : point (.ofUnits m) = point (.ofUnits n) ↔ m = n := by
  rw [← compare_eq_iff_eq, compare_point_ofUnits, compare_eq_iff_eq]

theorem word_cons_lt {m n : Nat} {s t : List Nat} :
    word (m :: s) < word (n :: t) ↔ m < n ∨ m = n ∧ word s < word t :=
  Sum.Lex.inr_lt_inr_iff.trans (List.cons_lt_cons_iff.trans
    (or_congr_right (and_congr_right fun _ => Sum.Lex.inr_lt_inr_iff.symm)))

theorem compare_word_cons (m n : Nat) (s t : List Nat) :
    Ord.compare (word (m :: s)) (word (n :: t)) =
      (Ord.compare m n).then (Ord.compare (word s) (word t)) := by
  rcases lt_trichotomy m n with h | rfl | h
  · rw [compare_lt_iff_lt.mpr (word_cons_lt.mpr (.inl h)), compare_lt_iff_lt.mpr h]
    rfl
  · rw [compare_eq_iff_eq.mpr rfl]
    exact compare_eq_compare (by simp [word_cons_lt]) (by simp [word_cons_lt])
  · rw [compare_gt_iff_gt.mpr (word_cons_lt.mpr (.inl h)), compare_gt_iff_gt.mpr h]
    rfl

theorem nil_lt_cons (n : Nat) (ns : List Nat) : word [] < word (n :: ns) :=
  Sum.Lex.inr_lt_inr_iff.mpr (List.nil_lt_cons n ns)

/-- A comparison from the front, a proper beginning first, is that of words. -/
theorem compare_word_map {α : Type} {f : α → Nat} {c : List α → List α → Ordering}
    (hnil : c [] [] = .eq) (hleft : ∀ b t, c [] (b :: t) = .lt) (hright : ∀ a s, c (a :: s) [] = .gt)
    (hcons : ∀ a s b t, c (a :: s) (b :: t) = (Ord.compare (f a) (f b)).then (c s t)) :
    ∀ s t, c s t = Ord.compare (word (s.map f)) (word (t.map f))
  | [], [] => hnil.trans (compare_eq_iff_eq.mpr rfl).symm
  | [], b :: t => (hleft b t).trans (compare_lt_iff_lt.mpr (nil_lt_cons _ _)).symm
  | a :: s, [] => (hright a s).trans (compare_gt_iff_gt.mpr (nil_lt_cons _ _)).symm
  | a :: s, b :: t => by
    rw [hcons, compare_word_map hnil hleft hright hcons s t, List.map_cons, List.map_cons,
      compare_word_cons]

end Rank

namespace Dyn

variable {u v w u' v' : Dyn} {t : OrderedType} {a b : Number}

/-- The ordered type of a value, if it has one. -/
def orderedType? : Dyn → Option OrderedType
  | int _ => some .number
  | double _ => some .number
  | string _ => some .string
  | bytes _ => some .bytes
  | bool _ => some .bool
  | timestamp _ => some .timestamp
  | duration _ => some .duration
  | _ => none

/-- The rank of a value of an ordered type; a not-a-number has none. -/
def rank? : Dyn → Option Rank
  | int n => (Number.exactValue? (.int n)).map Rank.point
  | double x => (Number.exactValue? (.double x)).map Rank.point
  | string t => some (Rank.word (t.map Fin.val))
  | bytes bs => some (Rank.word (bs.map UInt8.toNat))
  | bool b => some (Rank.point (.ofUnits b.toNat))
  | timestamp t => some (Rank.point (.ofUnits t.instant))
  | duration d => some (Rank.point (.ofUnits d.micros))
  | _ => none

theorem compare?_number (a b : Number) : Number.compare? a b =
    (do return Ord.compare (← a.exactValue?.map Rank.point) (← b.exactValue?.map Rank.point)) := by
  rw [Number.compare?_eq]
  cases a.exactValue? with
  | none => rfl
  | some x =>
    cases b.exactValue? with
    | none => rfl
    | some y => exact congrArg some (Rank.compare_point x y).symm

/-- **Values of one ordered type are compared by their ranks.** -/
theorem compare?_eq (hv : v.orderedType? = some t) (hw : w.orderedType? = some t) :
    compare? v w = some (do return Ord.compare (← v.rank?) (← w.rank?)) := by
  cases v <;> cases hv <;> cases w <;> cases hw
  case string.refl.string.refl s t =>
    exact congrArg (some ∘ some) (Rank.compare_word_map rfl (fun _ _ => rfl) (fun _ _ => rfl)
      (fun _ _ _ _ => rfl) s t)
  case bytes.refl.bytes.refl s t =>
    exact congrArg (some ∘ some) (Rank.compare_word_map rfl (fun _ _ => rfl) (fun _ _ => rfl)
      (fun _ _ _ _ => rfl) s t)
  case bool.refl.bool.refl b c => cases b <;> cases c <;> decide
  case timestamp.refl.timestamp.refl t u =>
    exact congrArg (some ∘ some) (Rank.compare_point_ofUnits t.instant u.instant).symm
  case duration.refl.duration.refl d e =>
    exact congrArg (some ∘ some) (Rank.compare_point_ofUnits d.micros e.micros).symm
  all_goals exact congrArg some (compare?_number _ _)

/-- Values that are not of one ordered type are not in any order. -/
theorem compare?_eq_none (h : ∀ t, v.orderedType? = some t → w.orderedType? ≠ some t) :
    compare? v w = none := by
  cases v <;> cases w <;> first | rfl | exact absurd rfl (h _ rfl)

theorem IsProper.isScalar_of_orderedType? (h : v.IsProper) (ht : v.orderedType? = some t) :
    v.isScalar = true := by
  cases h with
  | scalar h => exact h
  | list => cases ht
  | map => cases ht
  | optional => cases ht

theorem scalarContent?_of_number? (h : v.number? = some a) :
    v.scalarContent? = a.exactValue?.map .number := by
  cases v <;> cases h <;> rfl

theorem rank?_of_number? (h : v.number? = some a) : v.rank? = a.exactValue?.map .point := by
  cases v <;> cases h <;> rfl

/-- In one ordered type the content of a value tells its rank, and the other way round. -/
theorem agreeOn_scalarContent?_iff (hv : v.orderedType? = some t) (hw : w.orderedType? = some t) :
    AgreeOn scalarContent? v w ↔ AgreeOn rank? v w := by
  have hnumber {a b : Number} (hv : v.number? = some a) (hw : w.number? = some b) :
      AgreeOn scalarContent? v w ↔ AgreeOn rank? v w := by
    unfold AgreeOn
    rw [scalarContent?_of_number? hv, scalarContent?_of_number? hw, rank?_of_number? hv,
      rank?_of_number? hw]
    cases a.exactValue? <;> cases b.exactValue? <;> simp [Rank.point_injective.eq_iff]
  cases v <;> cases hv <;> cases w <;> cases hw
  case string.refl.string.refl s t =>
    simp [AgreeOn, scalarContent?, keyContent?, rank?, Rank.word_injective.eq_iff,
      (List.map_injective_iff.mpr Fin.val_injective).eq_iff]
  case bytes.refl.bytes.refl s t =>
    simp [AgreeOn, scalarContent?, keyContent?, rank?, Rank.word_injective.eq_iff,
      (List.map_injective_iff.mpr fun _ _ h => UInt8.toNat_inj.mp h).eq_iff]
  case bool.refl.bool.refl b c =>
    cases b <;> cases c <;> simp [AgreeOn, scalarContent?, rank?, Rank.point_ofUnits_inj]
  case timestamp.refl.timestamp.refl t u =>
    simp [AgreeOn, scalarContent?, keyContent?, rank?, Rank.point_ofUnits_inj]
  case duration.refl.duration.refl d e =>
    obtain ⟨m, hm⟩ := d
    obtain ⟨n, hn⟩ := e
    simp [AgreeOn, scalarContent?, keyContent?, rank?, Rank.point_ofUnits_inj]
  all_goals exact hnumber rfl rfl

/-- **Values of one ordered type are equal just if they have the same rank.** -/
theorem equals_iff_rank (hv : v.IsProper) (hw : w.IsProper) (hvt : v.orderedType? = some t)
    (hwt : w.orderedType? = some t) : v.equals w = true ↔ AgreeOn rank? v w :=
  (equals_iff_of_isScalar (hv.isScalar_of_orderedType? hvt) hw).trans
    (agreeOn_scalarContent?_iff hvt hwt)

/-- What is equal to a value of an ordered type is of this type. -/
theorem orderedType?_of_equals (hv : v.IsProper) (hw : w.IsProper) (hvt : v.orderedType? = some t)
    (h : v.equals w = true) : w.orderedType? = some t := by
  obtain ⟨k, hk, hk'⟩ :=
    (equals_iff_of_isScalar (hv.isScalar_of_orderedType? hvt) hw).mp h
  have htype {v : Dyn} (h : v.scalarContent? = some k) : v.orderedType? = k.orderedType? := by
    cases v with
    | double x =>
      obtain ⟨u, -, rfl⟩ := Option.map_eq_some_iff.mp h
      rfl
    | _ => cases h <;> rfl
  rw [htype hk', ← htype hk, hvt]

theorem exists_rank? (ht : v.orderedType? = some t) (hnan : v.holdsNaN = false) :
    ∃ r, v.rank? = some r := by
  cases v with
  | double x =>
    obtain ⟨u, hu⟩ := Double.exists_exactValue? hnan
    exact ⟨.point u, by simp [rank?, Number.exactValue?, hu]⟩
  | _ => first | exact ⟨_, rfl⟩ | cases ht

/-! ### Order relations -/

/-- An order relation on values of one ordered type is the one on their ranks. -/
theorem compare_of_rank? {r s : Rank} (op : BinaryOp) (hvt : v.orderedType? = some t)
    (hwt : w.orderedType? = some t) (hr : v.rank? = some r) (hs : w.rank? = some s) :
    compare op v w = .ok (bool (holds op (Ord.compare r s))) := by
  unfold compare
  rw [compare?_eq hvt hwt, hr, hs]
  rfl

/-- What is less than a value is of its ordered type and has a lower rank. -/
theorem exists_rank?_of_less (h : compare .lt v w = .ok (bool true)) : ∃ t r s,
    v.orderedType? = some t ∧ w.orderedType? = some t ∧ v.rank? = some r ∧ w.rank? = some s ∧ r < s := by
  have htype : ∃ t, v.orderedType? = some t ∧ w.orderedType? = some t := by
    by_contra hnone
    unfold compare at h
    rw [compare?_eq_none fun t hv hw => hnone ⟨t, hv, hw⟩] at h
    cases h
  obtain ⟨t, hv, hw⟩ := htype
  unfold compare at h
  rw [compare?_eq hv hw] at h
  cases hr : v.rank? with
  | none =>
    rw [hr] at h
    cases h
  | some r =>
    cases hs : w.rank? with
    | none =>
      rw [hr, hs] at h
      cases h
    | some s =>
      rw [hr, hs] at h
      have hless : (Ord.compare r s == .lt) = true := by simpa [holds] using h
      exact ⟨t, r, s, hv, hw, rfl, rfl, compare_lt_iff_lt.mp (beq_iff_eq.mp hless)⟩

theorem less_trans (huv : compare .lt u v = .ok (bool true)) (hvw : compare .lt v w = .ok (bool true)) :
    compare .lt u w = .ok (bool true) := by
  obtain ⟨t, q, r, hut, hvt, hq, hr, hqr⟩ := exists_rank?_of_less huv
  obtain ⟨t', r', s, hvt', hwt, hr', hs, hrs⟩ := exists_rank?_of_less hvw
  obtain rfl : t = t' := Option.some.inj (hvt.symm.trans hvt')
  obtain rfl : r = r' := Option.some.inj (hr.symm.trans hr')
  rw [compare_of_rank? .lt hut hwt hq hs, compare_lt_iff_lt.mpr (hqr.trans hrs)]
  rfl

/-- Equal values of an ordered type are less than the same values. -/
theorem less_congr (hu : u.IsProper) (hu' : u'.IsProper) (hv : v.IsProper) (hv' : v'.IsProper)
    (hut : u.orderedType? = some t) (hvt : v.orderedType? = some t) (huu : u.equals u' = true)
    (hvv : v.equals v' = true) : compare .lt u v = compare .lt u' v' := by
  have hut' := orderedType?_of_equals hu hu' hut huu
  have hvt' := orderedType?_of_equals hv hv' hvt hvv
  obtain ⟨r, hr, hr'⟩ := (equals_iff_rank hu hu' hut hut').mp huu
  obtain ⟨s, hs, hs'⟩ := (equals_iff_rank hv hv' hvt hvt').mp hvv
  rw [compare_of_rank? .lt hut hvt hr hs, compare_of_rank? .lt hut' hvt' hr' hs']

/-- What all relations say of two values in the given order. -/
structure AreIn (o : Ordering) (v w : Dyn) : Prop where
  less : compare .lt v w = .ok (bool (o == .lt))
  equal : v.equals w = (o == .eq)
  more : compare .lt w v = .ok (bool (o == .gt))
  gt : compare .gt v w = .ok (bool (o == .gt))
  le : compare .le v w = .ok (bool !(o == .gt))
  ge : compare .ge v w = .ok (bool !(o == .lt))

/-- **Two values of one ordered type are in just one order**, but for a not-a-number. -/
theorem exists_areIn (hv : v.IsProper) (hw : w.IsProper) (hvnan : v.holdsNaN = false)
    (hwnan : w.holdsNaN = false) (hvt : v.orderedType? = some t) (hwt : w.orderedType? = some t) :
    ∃ o, AreIn o v w := by
  obtain ⟨r, hr⟩ := exists_rank? hvt hvnan
  obtain ⟨s, hs⟩ := exists_rank? hwt hwnan
  have hequals : v.equals w = (Ord.compare r s == .eq) := by
    rw [Bool.eq_iff_iff, beq_iff_eq, compare_eq_iff_eq, equals_iff_rank hv hw hvt hwt, agreeOn_iff hr,
      hs, Option.some_inj, eq_comm]
  have hmore : compare .lt w v = .ok (bool (Ord.compare r s == .gt)) := by
    rw [compare_of_rank? .lt hwt hvt hs hr, Std.OrientedOrd.eq_swap (a := s)]
    cases Ord.compare r s <;> rfl
  refine ⟨Ord.compare r s, ?_, hequals, hmore, ?_, ?_, ?_⟩
  all_goals
    rw [compare_of_rank? _ hvt hwt hr hs]
    rfl

theorem equals_iff_of_number? (hv : v.number? = some a) (hw : w.number? = some b) :
    v.equals w = true ↔ AgreeOn Number.exactValue? a b := by
  have hequals : v.equals w = Number.equal a b := by
    cases v <;> cases hv <;> rw [equals, hw, Option.any_some]
  rw [hequals]
  exact Number.equal_iff

theorem less_of_number? {x y : ExactValue} (hv : v.number? = some a) (hw : w.number? = some b)
    (hx : a.exactValue? = some x) (hy : b.exactValue? = some y) :
    compare .lt v w = .ok (bool (decide (x < y))) := by
  have htype {v : Dyn} {a : Number} (h : v.number? = some a) : v.orderedType? = some .number := by
    cases v <;> cases h <;> rfl
  have hrank {v : Dyn} {a : Number} {x : ExactValue} (h : v.number? = some a)
      (hx : a.exactValue? = some x) : v.rank? = some (.point x) := by
    rw [rank?_of_number? h, hx]
    rfl
  rw [compare_of_rank? .lt (htype hv) (htype hw) (hrank hv hx) (hrank hw hy), Rank.compare_point]
  refine congrArg (Except.ok ∘ bool) ?_
  rw [Bool.eq_iff_iff, holds, beq_iff_eq, decide_eq_true_iff, compare_lt_iff_lt]

/-! ### All laws -/

/-- Equality is an equivalence on the values of the language, but that not-a-numbers are unequal to
themselves; numbers are taken by exact value; the order is linear on each ordered type, and there is none on
other values. -/
structure IsLawful : Prop where
  symm {v w : Dyn} : v.IsProper → w.IsProper → v.equals w = true → w.equals v = true
  trans {u v w : Dyn} : u.IsProper → v.IsProper → w.IsProper → u.equals v = true →
    v.equals w = true → u.equals w = true
  self {v : Dyn} : v.IsProper → v.holdsNaN = false → v.equals v = true
  number_equal {v w : Dyn} {a b : Number} : v.number? = some a → w.number? = some b →
    (v.equals w = true ↔ AgreeOn Number.exactValue? a b)
  number_less {v w : Dyn} {a b : Number} {x y : ExactValue} : v.number? = some a →
    w.number? = some b → a.exactValue? = some x → b.exactValue? = some y →
    compare .lt v w = .ok (bool (decide (x < y)))
  decided {t : OrderedType} {v w : Dyn} : v.IsProper → w.IsProper → v.holdsNaN = false →
    w.holdsNaN = false → v.orderedType? = some t → w.orderedType? = some t → ∃ o, AreIn o v w
  less_trans {u v w : Dyn} : compare .lt u v = .ok (bool true) → compare .lt v w = .ok (bool true) →
    compare .lt u w = .ok (bool true)
  less_congr {t : OrderedType} {u u' v v' : Dyn} : u.IsProper → u'.IsProper → v.IsProper → v'.IsProper →
    u.orderedType? = some t → v.orderedType? = some t → u.equals u' = true → v.equals v' = true →
    compare .lt u v = compare .lt u' v'
  unordered {v w : Dyn} (op : BinaryOp) :
    (∀ t, v.orderedType? = some t → w.orderedType? ≠ some t) →
    compare op v w = Eval.noOverload s!"_{op.symbol}_" [v, w]

/-- **Equality and the order relations are lawful.** -/
theorem isLawful : IsLawful where
  symm := equals_symm
  trans := equals_trans
  self := equals_self
  number_equal := equals_iff_of_number?
  number_less := less_of_number?
  decided := exists_areIn
  less_trans := Dyn.less_trans
  less_congr := Dyn.less_congr
  unordered op h := by
    unfold compare
    rw [compare?_eq_none h]

/-- An integer that no double has is not equal to the nearest one, also inside a list. -/
example : (list [int 0x20000000000001]).equals (list [double (Double.ofInt 0x20000000000001)]) = false := by
  decide +kernel

end Dyn

end LogStream.Filter
