import Mathlib
import LogStream.Proofs.Filter.Application
import LogStream.Proofs.Filter.Order
import LogStream.Proofs.Filter.Walks

/-! # Sorting

A stable sort of a list is determined by the list and the order (`IsStableSort.eq`), and merging gives it where the
order is that of ranks (`isStableSort_mergeSort`). Keys without a not-a-number have ranks once they are of one
ordered type (`Dyn.atMost_eq`), which the names of their types tell (`Dyn.sameOrder_iff`). So the test that is made
before sorting is just what makes the comparisons of the sort an order, and both forms of sorting give the stable
sort or fail together (`sorting_laws`). -/

namespace LogStream

/-! ### Stable sorts -/

section StableSort

variable {α β : Type} {le r : α → α → Bool} {xs ys zs : List α}

/-- The elements of a list in an order; those that are level in it stay in the order they had. -/
structure IsStableSort (le : α → α → Bool) (xs ys : List α) : Prop where
  perm : ys.Perm xs
  ordered : ys.Pairwise fun a b => le a b = true
  stable : ∀ a ∈ xs, ys.filter (fun b => le a b && le b a) = xs.filter fun b => le a b && le b a

/-- Lists with the same classes of level elements, both in order, are the same. -/
theorem eq_of_filter_eq (hrefl : ∀ a ∈ ys, le a a = true) (hperm : ys.Perm zs)
    (hys : ys.Pairwise fun a b => le a b = true) (hzs : zs.Pairwise fun a b => le a b = true)
    (h : ∀ a ∈ ys, ys.filter (fun b => le a b && le b a) = zs.filter fun b => le a b && le b a) : ys = zs := by
  induction ys generalizing zs with
  | nil => exact (List.nil_perm.mp hperm).symm
  | cons y ys ih =>
    obtain ⟨z, zs, rfl⟩ := List.exists_cons_of_ne_nil fun hnil : zs = [] => by simp [hnil] at hperm
    have hy := hrefl y List.mem_cons_self
    have hz := hrefl z (hperm.mem_iff.mpr List.mem_cons_self)
    have hyz : le y z = true := by
      rcases List.mem_cons.mp (hperm.mem_iff.mpr List.mem_cons_self) with rfl | hmem
      · exact hy
      · exact List.rel_of_pairwise_cons hys hmem
    have hzy : le z y = true := by
      rcases List.mem_cons.mp (hperm.mem_iff.mp List.mem_cons_self) with rfl | hmem
      · exact hz
      · exact List.rel_of_pairwise_cons hzs hmem
    -- Both heads are the first elements of the class of the first one.
    have hclass := h y List.mem_cons_self
    rw [List.filter_cons_of_pos (by simp [hy]), List.filter_cons_of_pos (by simp [hyz, hzy])] at hclass
    obtain rfl := (List.cons.inj hclass).1
    refine congrArg (y :: ·) (ih (fun a ha => hrefl a (List.mem_cons_of_mem y ha)) hperm.cons_inv hys.of_cons
      hzs.of_cons fun a ha => ?_)
    have htail := h a (List.mem_cons_of_mem y ha)
    rw [List.filter_cons, List.filter_cons] at htail
    split at htail
    · exact (List.cons.inj htail).2
    · exact htail

/-- **There is one stable sort.** -/
theorem IsStableSort.eq (hrefl : ∀ a ∈ xs, le a a = true) (hys : IsStableSort le xs ys)
    (hzs : IsStableSort le xs zs) : ys = zs := by
  have hmem {a : α} (ha : a ∈ ys) : a ∈ xs := hys.perm.mem_iff.mp ha
  exact eq_of_filter_eq (fun a ha => hrefl a (hmem ha)) (hys.perm.trans hzs.perm.symm) hys.ordered hzs.ordered
    fun a ha => (hys.stable a (hmem ha)).trans (hzs.stable a (hmem ha)).symm

/-- **Merging sorts stably**, where elements are compared by their ranks. -/
theorem isStableSort_mergeSort [LinearOrder β] (rank : α → β)
    (hle : ∀ a ∈ xs, ∀ b ∈ xs, le a b = decide (rank a ≤ rank b)) (hr : ∀ a ∈ xs, ∀ b ∈ xs, r a b = le a b) :
    IsStableSort le xs (xs.mergeSort r) := by
  have htrans : ∀ a b c : α, decide (rank a ≤ rank b) = true → decide (rank b ≤ rank c) = true →
      decide (rank a ≤ rank c) = true := by
    simp only [decide_eq_true_eq]
    exact fun a b c => le_trans
  have htotal : ∀ a b : α, (decide (rank a ≤ rank b) || decide (rank b ≤ rank a)) = true := by
    simp only [Bool.or_eq_true, decide_eq_true_eq]
    exact fun a b => le_total _ _
  have hsort : xs.mergeSort r = xs.mergeSort fun a b => decide (rank a ≤ rank b) := by
    have hmap := List.map_mergeSort (s := fun a b => decide (rank a ≤ rank b)) (f := id) fun a ha b hb =>
      (hr a ha b hb).trans (hle a ha b hb)
    rwa [List.map_id, List.map_id] at hmap
  have hperm : (xs.mergeSort r).Perm xs := List.mergeSort_perm xs r
  refine ⟨hperm, ?_, fun a ha => ?_⟩
  · have hsorted := List.pairwise_mergeSort htrans htotal xs
    rw [← hsort] at hsorted
    exact hsorted.imp_of_mem fun {b c} hb hc hbc => (hle b (hperm.mem_iff.mp hb) c (hperm.mem_iff.mp hc)).trans hbc
  · -- A class is in order as it is, so it is part of the sorted list, which has no more of the class.
    have hclass : (xs.filter fun b => le a b && le b a).Pairwise fun b c => decide (rank b ≤ rank c) = true := by
      refine List.pairwise_iff_forall_sublist.mpr fun {b c} hsub => ?_
      obtain ⟨hb, hab⟩ := List.mem_filter.mp (hsub.subset List.mem_cons_self)
      obtain ⟨hc, hac⟩ := List.mem_filter.mp (hsub.subset (List.mem_cons_of_mem b List.mem_cons_self))
      rw [hle a ha b hb, hle b hb a ha] at hab
      rw [hle a ha c hc, hle c hc a ha] at hac
      simp only [Bool.and_eq_true, decide_eq_true_eq] at hab hac ⊢
      exact hab.2.trans hac.1
    have hsub := (List.sublist_mergeSort htrans htotal hclass List.filter_sublist).filter fun b => le a b && le b a
    rw [List.filter_filter, ← hsort] at hsub
    simp only [Bool.and_self] at hsub
    exact (hsub.eq_of_length (hperm.filter _).length_eq.symm).symm

end StableSort

namespace Filter

/-- The name of an ordered type in messages. -/
def OrderedType.name : OrderedType → String
  | .number => "number"
  | .string => "string"
  | .bytes => "bytes"
  | .bool => "bool"
  | .timestamp => "timestamp"
  | .duration => "duration"

namespace Dyn

variable {v w : Dyn} {t : OrderedType} {keys : List Dyn} {give : Dyn → Dyn} {xs ys : List Dyn}

/-! ### Types of keys -/

/-- A value without a not-a-number in it; a datum is handed on only if there is no value for it. -/
structure IsKey (v : Dyn) : Prop where
  noNaN : v.holdsNaN = false
  handedOn : ∀ d, v = .foreign d → ofDatum d = v

/-- The value of a datum is a key unless there is a not-a-number in it. -/
theorem isKey_ofDatum {d : Datum} (h : (ofDatum d).holdsNaN = false) : (ofDatum d).IsKey := by
  refine ⟨h, fun d' hd' => ?_⟩
  cases d <;> simp only [ofDatum, reduceCtorEq, foreign.injEq] at hd' <;> subst hd' <;> rfl

/-- All values are keys. -/
abbrev AreKeys (vs : List Dyn) : Prop := ∀ v ∈ vs, v.IsKey

/-- The keys are of one ordered type. -/
def HaveOneOrder (keys : List Dyn) : Prop := ∃ t, ∀ k ∈ keys, k.orderedType? = some t

theorem mem_ordered_iff {name : String} : name ∈ ordered ↔ ∃ t : OrderedType, t.name = name := by
  constructor
  · intro h
    simp only [ordered, List.mem_cons, List.not_mem_nil, or_false] at h
    rcases h with rfl | rfl | rfl | rfl | rfl | rfl
    · exact ⟨.number, rfl⟩
    · exact ⟨.string, rfl⟩
    · exact ⟨.bytes, rfl⟩
    · exact ⟨.bool, rfl⟩
    · exact ⟨.timestamp, rfl⟩
    · exact ⟨.duration, rfl⟩
  · rintro ⟨t, rfl⟩
    cases t <;> decide

/-- **The names tell the ordered types.** -/
theorem IsKey.sortName_eq_iff (hv : v.IsKey) : v.sortName = t.name ↔ v.orderedType? = some t := by
  cases v with
  | foreign d =>
    have hd := hv.handedOn d rfl
    cases d <;> simp only [ofDatum, reduceCtorEq] at hd <;>
      cases t <;> simp [sortName, isNumber, number?, typeName, OrderedType.name, orderedType?, Datum.typeName]
  | _ => cases t <;> simp [sortName, isNumber, number?, typeName, OrderedType.name, orderedType?]

theorem mem_sortNames_iff {name : String} : name ∈ sortNames keys ↔ ∃ k ∈ keys, k.sortName = name := by
  rw [sortNames, List.mem_mergeSort, List.mem_eraseDups, List.mem_map]

theorem sortNames_of_forall_eq {name : String} (hne : keys ≠ []) (h : ∀ k ∈ keys, k.sortName = name) :
    sortNames keys = [name] := by
  obtain ⟨k, keys, rfl⟩ := List.exists_cons_of_ne_nil hne
  obtain ⟨hk, hkeys⟩ := List.forall_mem_cons.mp h
  have hrest : (keys.map sortName).filter (fun n => !n == k.sortName) = [] := by
    refine List.filter_eq_nil_iff.mpr fun n hn => ?_
    obtain ⟨k', hk', rfl⟩ := List.mem_map.mp hn
    simp [hk, hkeys k' hk']
  rw [sortNames, List.map_cons, List.eraseDups_cons, hrest, List.eraseDups_nil, List.mergeSort_singleton, hk]

/-- **The names of the types are the test for one ordered type.** -/
theorem sameOrder_iff (hkeys : AreKeys keys) : sameOrder keys = true ↔ HaveOneOrder keys := by
  constructor
  · intro h
    have hname {k : Dyn} (hk : k ∈ keys) : k.sortName ∈ sortNames keys := mem_sortNames_iff.mpr ⟨k, hk, rfl⟩
    unfold sameOrder at h
    split at h
    · next hnames =>
      rw [hnames] at hname
      exact ⟨.number, fun k hk => absurd (hname hk) List.not_mem_nil⟩
    · next name hnames =>
      rw [hnames] at hname
      obtain ⟨t, rfl⟩ := mem_ordered_iff.mp (List.contains_iff_mem.mp h)
      exact ⟨t, fun k hk => (hkeys k hk).sortName_eq_iff.mp (List.mem_singleton.mp (hname hk))⟩
    · cases h
  · rintro ⟨t, ht⟩
    rcases eq_or_ne keys [] with rfl | hne
    · simp [sameOrder, sortNames]
    · have hnames := sortNames_of_forall_eq hne fun k hk => (hkeys k hk).sortName_eq_iff.mpr (ht k hk)
      rw [sameOrder, hnames]
      exact List.contains_iff_mem.mpr (mem_ordered_iff.mpr ⟨t, rfl⟩)

/-! ### Order of keys -/

/-- The first value is less than the second or level with it. -/
def atMost (v w : Dyn) : Bool := compare .le v w matches .ok (.bool true)

/-- The rank of a value, if it has one. -/
def rank (v : Dyn) : Rank := v.rank?.getD (.word [])

section

variable (hv : v.orderedType? = some t) (hw : w.orderedType? = some t) (hvkey : v.IsKey) (hwkey : w.IsKey)

include hv hw hvkey hwkey

/-- Keys of one ordered type are in the order of their ranks. -/
theorem atMost_eq : atMost v w = decide (v.rank ≤ w.rank) := by
  obtain ⟨r, hr⟩ := exists_rank? hv hvkey.noNaN
  obtain ⟨s, hs⟩ := exists_rank? hw hwkey.noNaN
  rw [atMost, compare_of_rank? .le hv hw hr hs, rank, rank, hr, hs, Option.getD_some, Option.getD_some,
    Bool.eq_iff_iff, decide_eq_true_iff, ← compare_le_iff_le]
  cases Ord.compare r s <;> decide

/-- What is not less than a key is the same or more. -/
theorem not_less_eq : (!less w v) = atMost v w := by
  obtain ⟨r, hr⟩ := exists_rank? hv hvkey.noNaN
  obtain ⟨s, hs⟩ := exists_rank? hw hwkey.noNaN
  have hcompare : compare? w v = some (some (Ord.compare s r)) := by
    rw [compare?_eq hw hv, hr, hs]
    rfl
  rw [atMost, compare_of_rank? .le hv hw hr hs, less, hcompare, Std.OrientedOrd.eq_swap (a := r)]
  cases Ord.compare s r <;> rfl

end

/-! ### Sorted elements -/

/-- Elements by their keys, where the second of two goes first just if its key is less. -/
def sortedBy (give : Dyn → Dyn) (xs : List Dyn) : List Dyn := xs.mergeSort fun a b => !less (give b) (give a)

theorem any_isNaN_number? (hv : v.holdsNaN = false) : v.number?.any Number.isNaN = false := by
  cases v with
  | double x => exact hv
  | _ => rfl

theorem sortedBy_perm (give : Dyn → Dyn) (xs : List Dyn) : (sortedBy give xs).Perm xs := List.mergeSort_perm xs _

/-- Elements are merged by their keys, as no key is a not-a-number. -/
theorem sortItems_eq (hkeys : AreKeys (xs.map give)) :
    (sortItems (xs.map fun v => (give v, v))).map Prod.snd = sortedBy give xs := by
  have hnumber : (xs.map fun v => (give v, v)).any (fun a => a.1.number?.any Number.isNaN) = false := by
    refine List.any_eq_false.mpr fun a ha => ?_
    obtain ⟨v, hv, rfl⟩ := List.mem_map.mp ha
    exact Bool.eq_false_iff.mp (any_isNaN_number? (hkeys (give v) (List.mem_map_of_mem hv)).noNaN)
  have hmerge : (sortedBy give xs).map (fun v => (give v, v)) =
      (xs.map fun v => (give v, v)).mergeSort fun a b => !less b.1 a.1 :=
    List.map_mergeSort fun a _ b _ => rfl
  rw [sortItems, hnumber, if_neg Bool.false_ne_true, ← hmerge, List.map_map]
  exact List.map_id _

theorem sortBy_eq (name : String) (hkeys : AreKeys (xs.map give)) :
    sortBy name (xs.map fun v => (give v, v)) = if sameOrder (xs.map give) then .ok (sortedBy give xs)
      else Eval.fail (.notOrderable name (sortNames (xs.map give))) := by
  have hfst : (xs.map fun v => (give v, v)).map Prod.fst = xs.map give := List.map_map
  unfold sortBy
  rw [hfst, sortItems_eq hkeys]

/-- The stable sort of elements by their keys. -/
def IsSortedBy (give : Dyn → Dyn) (xs ys : List Dyn) : Prop :=
  IsStableSort (fun a b => atMost (give a) (give b)) xs ys

/-- **Elements are sorted stably by keys of one ordered type.** -/
theorem isSortedBy_sortedBy (hkeys : AreKeys (xs.map give)) (horder : HaveOneOrder (xs.map give)) :
    IsSortedBy give xs (sortedBy give xs) := by
  obtain ⟨t, ht⟩ := horder
  have hkey {a : Dyn} (ha : a ∈ xs) := hkeys (give a) (List.mem_map_of_mem ha)
  have htype {a : Dyn} (ha : a ∈ xs) := ht (give a) (List.mem_map_of_mem ha)
  exact isStableSort_mergeSort (fun a => (give a).rank)
    (fun a ha b hb => atMost_eq (htype ha) (htype hb) (hkey ha) (hkey hb))
    (fun a ha b hb => not_less_eq (htype ha) (htype hb) (hkey ha) (hkey hb))

/-- Sorted elements are the only ones that are. -/
theorem isSortedBy_iff (hkeys : AreKeys (xs.map give)) (horder : HaveOneOrder (xs.map give)) :
    IsSortedBy give xs ys ↔ ys = sortedBy give xs := by
  have hsorted := isSortedBy_sortedBy hkeys horder
  constructor
  · intro hys
    obtain ⟨t, ht⟩ := horder
    refine hys.eq (fun a ha => ?_) hsorted
    have hmem := List.mem_map_of_mem (f := give) ha
    rw [atMost_eq (ht _ hmem) (ht _ hmem) (hkeys _ hmem) (hkeys _ hmem), decide_eq_true_iff]
  · rintro rfl
    exact hsorted

/-- **What is sorted stays as it is.** -/
theorem sortedBy_sortedBy (hkeys : AreKeys (xs.map give)) (horder : HaveOneOrder (xs.map give)) :
    sortedBy give (sortedBy give xs) = sortedBy give xs := by
  have hsorted := isSortedBy_sortedBy hkeys horder
  obtain ⟨t, ht⟩ := horder
  have hmem {a : Dyn} (ha : a ∈ sortedBy give xs) := ((sortedBy_perm give xs).map give).mem_iff.mp
    (List.mem_map_of_mem ha)
  exact List.mergeSort_of_pairwise (hsorted.ordered.imp_of_mem fun {a b} ha hb hab =>
    (not_less_eq (ht _ (hmem ha)) (ht _ (hmem hb)) (hkeys _ (hmem ha)) (hkeys _ (hmem hb))).trans hab)

end Dyn

/-! ### Expressions -/

/-- The call that sorts a list. -/
def sortCall (pos : Nat) (e : Expr) : Expr := .method pos (Text.lit "sort") e []

variable {env : Activation} {e k : Expr} {x : Text} {v : Dyn} {xs : List Dyn}

/-- An expression has values for all items if all items have keys. -/
theorem hasValues_of_keyed {items : List Dyn} {keys : List (Dyn × Dyn)}
    (h : keyed (fun v => eval ((x, v) :: env) k) items = .ok keys) : HasValues env x items k := by
  induction items generalizing keys with
  | nil => exact fun v hv => absurd hv List.not_mem_nil
  | cons v items ih =>
    obtain ⟨u, hu, h⟩ := exists_of_bind_eq_ok h
    obtain ⟨rest, hrest, -⟩ := exists_of_bind_eq_ok h
    exact List.forall_mem_cons.mpr ⟨⟨u, hu⟩, ih hrest⟩

/-- What an expression gives for any of the items is a key. -/
def GivesKeys (env : Activation) (x : Text) (items : List Dyn) (k : Expr) : Prop :=
  ∀ v ∈ items, ∀ u, eval ((x, v) :: env) k = .ok u → u.IsKey

theorem GivesKeys.areKeys (h : GivesKeys env x xs k) (hk : HasValues env x xs k) :
    Dyn.AreKeys (xs.map (valueAt env x k)) := by
  intro u hu
  obtain ⟨v, hv, rfl⟩ := List.mem_map.mp hu
  exact h v hv _ (hk.eval_eq v hv)

section

variable (he : eval env e = .ok (.list xs))

include he

theorem eval_sortBy {give : Dyn → Dyn} (hk : ∀ v ∈ xs, eval ((x, v) :: env) k = .ok (give v))
    (hkeys : Dyn.AreKeys (xs.map give)) (i : Nat) : eval env (.walk i .sortBy e x k) =
      if Dyn.sameOrder (xs.map give) then .ok (.list (Dyn.sortedBy give xs))
      else Eval.fail (.notOrderable "sortBy" (Dyn.sortNames (xs.map give))) := by
  rw [eval_walk he (.list xs), walk, keyed_eq hk, ok_bind, Dyn.sortBy_eq "sortBy" hkeys]
  split <;> rfl

theorem eval_sort (hxs : Dyn.AreKeys xs) (i : Nat) : eval env (sortCall i e) =
    if Dyn.sameOrder xs then .ok (.list (Dyn.sortedBy id xs))
    else Eval.fail (.notOrderable "sort" (Dyn.sortNames xs)) := by
  have hname : Builtin.member? (Text.lit "sort") = some .sort := by decide
  have hkeys : Dyn.AreKeys (xs.map id) := by rwa [List.map_id]
  have hsort := Dyn.sortBy_eq "sort" hkeys
  rw [List.map_id] at hsort
  have happly : Builtin.apply .sort [.list xs] =
      Dyn.sortBy "sort" (xs.map fun v => (id v, v)) >>= fun ys => .ok (.list ys) := rfl
  rw [sortCall, eval_method hname he evalAll_nil, happly, hsort]
  split <;> rfl

/-- **Elements are sorted by an expression just if it gives each a key, all of one ordered type.** -/
theorem eval_sortBy_eq_ok_iff (hkeys : GivesKeys env x xs k) (i : Nat) :
    eval env (.walk i .sortBy e x k) = .ok v ↔ HasValues env x xs k ∧
      Dyn.HaveOneOrder (xs.map (valueAt env x k)) ∧ v = .list (Dyn.sortedBy (valueAt env x k) xs) := by
  constructor
  · intro h
    have hk : HasValues env x xs k := by
      rw [eval_walk he (.list xs)] at h
      obtain ⟨keys, hkeyed, -⟩ := exists_of_bind_eq_ok h
      exact hasValues_of_keyed hkeyed
    rw [eval_sortBy he hk.eval_eq (hkeys.areKeys hk)] at h
    split at h
    · next hsame => exact ⟨hk, (Dyn.sameOrder_iff (hkeys.areKeys hk)).mp hsame, (Except.ok.inj h).symm⟩
    · cases h
  · rintro ⟨hk, horder, rfl⟩
    rw [eval_sortBy he hk.eval_eq (hkeys.areKeys hk),
      if_pos ((Dyn.sameOrder_iff (hkeys.areKeys hk)).mpr horder)]

end

/-! ### The laws -/

/-- **The laws of sorting** a list: it succeeds on keys of one ordered type and gives the only stable sort by them,
both of its forms agree, and sorting twice is sorting once. -/
structure SortLaws (env : Activation) (e : Expr) (xs : List Dyn) : Prop where
  succeeds_iff {x : Text} {k : Expr} (hk : GivesKeys env x xs k) (i : Nat) :
    (∃ v, eval env (.walk i .sortBy e x k) = .ok v) ↔
      HasValues env x xs k ∧ Dyn.HaveOneOrder (xs.map (valueAt env x k))
  sorts {x : Text} {k : Expr} (hk : GivesKeys env x xs k) (i : Nat) {v : Dyn}
    (h : eval env (.walk i .sortBy e x k) = .ok v) :
    ∃ ys, v = .list ys ∧ ∀ zs, Dyn.IsSortedBy (valueAt env x k) xs zs ↔ zs = ys
  sortBy_sortBy {x : Text} {k : Expr} (hk : GivesKeys env x xs k) (i j : Nat) :
    eval env (.walk i .sortBy (.walk j .sortBy e x k) x k) = eval env (.walk j .sortBy e x k)
  sort_eq_ok_iff (hxs : Dyn.AreKeys xs) (x : Text) (i j l : Nat) (v : Dyn) :
    eval env (sortCall i e) = .ok v ↔ eval env (.walk j .sortBy e x (.ident l x)) = .ok v
  sort_sort (hxs : Dyn.AreKeys xs) (i j : Nat) :
    eval env (sortCall i (sortCall j e)) = eval env (sortCall j e)

/-- **Lists are sorted lawfully**, whatever stands in them but not-a-numbers. -/
theorem sorting_laws (he : eval env e = .ok (.list xs)) : SortLaws env e xs where
  succeeds_iff hk i := by
    constructor
    · rintro ⟨v, hv⟩
      obtain ⟨hvalues, horder, -⟩ := (eval_sortBy_eq_ok_iff he hk i).mp hv
      exact ⟨hvalues, horder⟩
    · rintro ⟨hvalues, horder⟩
      exact ⟨_, (eval_sortBy_eq_ok_iff he hk i).mpr ⟨hvalues, horder, rfl⟩⟩
  sorts hk i v hv := by
    obtain ⟨hvalues, horder, rfl⟩ := (eval_sortBy_eq_ok_iff he hk i).mp hv
    exact ⟨_, rfl, fun zs => Dyn.isSortedBy_iff (hk.areKeys hvalues) horder⟩
  sortBy_sortBy {x k} hk i j := by
    cases hsort : eval env (.walk j .sortBy e x k) with
    | error failure =>
      rw [eval, hsort]
      rfl
    | ok v =>
      obtain ⟨hvalues, horder, rfl⟩ := (eval_sortBy_eq_ok_iff he hk j).mp hsort
      have hperm := Dyn.sortedBy_perm (valueAt env x k) xs
      refine (eval_sortBy_eq_ok_iff hsort (fun v hv => hk v (hperm.mem_iff.mp hv)) i).mpr
        ⟨fun v hv => hvalues v (hperm.mem_iff.mp hv), ?_, ?_⟩
      · exact horder.imp fun t ht u hu => ht u ((hperm.map _).mem_iff.mp hu)
      · rw [Dyn.sortedBy_sortedBy (hk.areKeys hvalues) horder]
  sort_eq_ok_iff hxs x i j l v := by
    have hitem : ∀ u ∈ xs, eval ((x, u) :: env) (.ident l x) = .ok (id u) := fun u _ => by
      rw [eval, List.lookup_cons_self]
      rfl
    rw [eval_sort he hxs, eval_sortBy he hitem (by rwa [List.map_id]), List.map_id]
    split
    · rfl
    · exact ⟨nofun, nofun⟩
  sort_sort hxs i j := by
    have hsort := eval_sort he hxs j
    split at hsort
    · next hsame =>
      have hperm := Dyn.sortedBy_perm id xs
      have hkeys : Dyn.AreKeys (xs.map id) := by rwa [List.map_id]
      have horder := (Dyn.sameOrder_iff hxs).mp hsame
      have hsorted : Dyn.AreKeys (Dyn.sortedBy id xs) := fun v hv => hxs v (hperm.mem_iff.mp hv)
      have hsame' := (Dyn.sameOrder_iff hsorted).mpr
        (horder.imp fun t ht u hu => ht u (hperm.mem_iff.mp hu))
      rw [eval_sort hsort hsorted i, if_pos hsame', hsort,
        Dyn.sortedBy_sortedBy hkeys (by rwa [List.map_id])]
    · rw [hsort, sortCall, Eval.fail, eval_method_of_error hsort]
      rfl

/-! ### The zeros -/

/-- Zero, infinity and negative zero. -/
def levelZeros : List Dyn := [.double (.zero false), .double (.infinity false), .double (.zero true)]

/-- The variable `l` stands for them. -/
def levelScope : Activation := [(Text.lit "l", .list levelZeros)]

/-- The key `-v`, by which the greatest number goes first. -/
def negation : Expr := .unary 0 .neg (.ident 0 (Text.lit "v"))

/-- Infinity goes first, and the zeros, which are level, stay in their order. -/
theorem sorting_laws_zeros :
    eval levelScope (.walk 0 .sortBy (.ident 0 (Text.lit "l")) (Text.lit "v") negation) =
      .ok (.list [.double (.infinity false), .double (.zero false), .double (.zero true)]) := by
  have hlaws : SortLaws levelScope (.ident 0 (Text.lit "l")) levelZeros := sorting_laws rfl
  have hgiven : ∀ v ∈ levelZeros, ∃ u, eval ((Text.lit "v", v) :: levelScope) negation = .ok u ∧ u.IsKey := by
    refine List.forall_mem_cons.mpr ⟨⟨.double (.zero true), rfl, by decide, nofun⟩, ?_⟩
    exact List.forall_mem_cons.mpr ⟨⟨.double (.infinity true), rfl, by decide, nofun⟩,
      List.forall_mem_singleton.mpr ⟨.double (.zero false), rfl, by decide, nofun⟩⟩
  have hvalues : HasValues levelScope (Text.lit "v") levelZeros negation :=
    fun v hv => (hgiven v hv).imp fun _ h => h.1
  have hkeys : GivesKeys levelScope (Text.lit "v") levelZeros negation := by
    intro v hv u hu
    obtain ⟨w, hw, hkey⟩ := hgiven v hv
    obtain rfl := Except.ok.inj (hu.symm.trans hw)
    exact hkey
  obtain ⟨v, hv⟩ := (hlaws.succeeds_iff hkeys 0).mpr ⟨hvalues, .number, by decide⟩
  obtain ⟨ys, rfl, hys⟩ := hlaws.sorts hkeys 0 hv
  rw [hv, ← (hys [.double (.infinity false), .double (.zero false), .double (.zero true)]).mp]
  exact ⟨.swap _ _ _, by decide, List.forall_mem_cons.mpr
    ⟨rfl, List.forall_mem_cons.mpr ⟨rfl, List.forall_mem_singleton.mpr rfl⟩⟩⟩

end Filter

end LogStream
