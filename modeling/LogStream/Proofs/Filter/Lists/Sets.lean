import LogStream.Proofs.Filter.Application
import LogStream.Proofs.Filter.Equality
import LogStream.Proofs.Filter.Walks

/-! # Distinct elements and sets

Equality is an equivalence on the values of the language without a not-a-number (`Dyn.IsComparable`). The distinct
elements of a list are the first ones of its classes: each scanned element keeps that true (`IsDistinct.step`), and
so the whole scan does (`isDistinct_distinctOf`). The relations of lists as sets see nothing but what is among their
elements (`containsAll_iff`, `meets_iff`), which neither order nor repetition changes (`SameElements`). Together
these are the laws of `sets_are_lawful`. -/

namespace LogStream.Filter

namespace Dyn

variable {u v w x : Dyn} {xs ys zs front ds : List Dyn}

/-! ### Values that are compared -/

/-- A value of the language without a not-a-number in it. -/
structure IsComparable (v : Dyn) : Prop where
  proper : v.IsProper
  noNaN : v.holdsNaN = false

/-- All values are comparable. -/
abbrev AreComparable (xs : List Dyn) : Prop := ∀ x ∈ xs, x.IsComparable

theorem IsComparable.refl (hv : v.IsComparable) : v.equals v = true := equals_self hv.proper hv.noNaN

theorem IsComparable.equals_comm (hv : v.IsComparable) (hw : w.IsComparable) : v.equals w = w.equals v := by
  rw [Bool.eq_iff_iff]
  exact ⟨equals_symm hv.proper hw.proper, equals_symm hw.proper hv.proper⟩

/-- Equal values are equal to the same values. -/
theorem IsComparable.equals_congr (hu : u.IsComparable) (hv : v.IsComparable) (hw : w.IsComparable)
    (huv : u.equals v = true) : u.equals w = v.equals w := by
  have hvu := equals_symm hu.proper hv.proper huv
  rw [Bool.eq_iff_iff]
  exact ⟨equals_trans hv.proper hu.proper hw.proper hvu, equals_trans hu.proper hv.proper hw.proper huv⟩

theorem isAmong_iff : v.isAmong xs = true ↔ ∃ x ∈ xs, v.equals x = true := List.any_eq_true

theorem isAmong_eq_false_iff : v.isAmong xs = false ↔ ∀ x ∈ xs, v.equals x = false := by
  simp [isAmong]

/-! ### Distinct elements -/

/-- The first elements of the classes of equal elements of a list. -/
structure IsDistinct (xs ds : List Dyn) : Prop where
  sublist : ds.Sublist xs
  pairwise : ds.Pairwise fun d e => d.equals e = false
  /-- Each element is equal to one of them alone, which is the first one of the list that it is equal to. -/
  first : ∀ x ∈ xs, ∃ d, xs.find? x.equals = some d ∧ ds.filter x.equals = [d]

/-- What is equal to an element of the list is among its distinct elements. -/
theorem IsDistinct.isAmong (h : IsDistinct xs ds) (hxs : AreComparable xs) (hv : v.IsComparable)
    (hamong : v.isAmong xs = true) : v.isAmong ds = true := by
  obtain ⟨x, hx, hvx⟩ := isAmong_iff.mp hamong
  obtain ⟨d, -, hfilter⟩ := h.first x hx
  have hd : d ∈ ds.filter x.equals := by
    rw [hfilter]
    exact List.mem_singleton_self d
  obtain ⟨hmem, hxd⟩ := List.mem_filter.mp hd
  refine isAmong_iff.mpr ⟨d, hmem, ?_⟩
  rw [hv.equals_congr (hxs x hx) (hxs d (h.sublist.subset hmem)) hvx]
  exact hxd

/-- **One more element of a scan**: it is kept if nothing equal to it was kept. -/
theorem IsDistinct.step (h : IsDistinct front ds) (hfront : AreComparable front) (hx : x.IsComparable) :
    IsDistinct (front ++ [x]) (if x.isAmong ds then ds else ds ++ [x]) := by
  have hds : AreComparable ds := fun d hd => hfront d (h.sublist.subset hd)
  split
  · next hamong =>
    obtain ⟨d, hd, hxd⟩ := isAmong_iff.mp hamong
    refine ⟨h.sublist.trans (List.sublist_append_left _ _), h.pairwise, fun z hz => ?_⟩
    rcases List.mem_append.mp hz with hz | hz
    · obtain ⟨y, hy, hfilter⟩ := h.first z hz
      exact ⟨y, by rw [List.find?_append, hy]; rfl, hfilter⟩
    · obtain rfl := List.mem_singleton.mp hz
      -- The element has the same first one as the equal element that was kept.
      obtain ⟨y, hy, hfilter⟩ := h.first d (h.sublist.subset hd)
      refine ⟨y, ?_, ?_⟩
      · rw [List.find?_append, List.find?_congr fun e he => hx.equals_congr (hds d hd) (hfront e he) hxd, hy]
        rfl
      · rw [← hfilter]
        exact List.filter_congr fun e he => hx.equals_congr (hds d hd) (hds e he) hxd
  · next hnew =>
    have hnew : x.isAmong ds = false := Bool.eq_false_iff.mpr hnew
    have hother := isAmong_eq_false_iff.mp hnew
    refine ⟨h.sublist.append_right [x], ?_, fun z hz => ?_⟩
    · refine List.pairwise_append.mpr ⟨h.pairwise, List.pairwise_singleton _ _, fun d hd e he => ?_⟩
      obtain rfl := List.mem_singleton.mp he
      rw [(hds d hd).equals_comm hx]
      exact hother d hd
    · have hfresh : x.isAmong front = false := by
        rw [Bool.eq_false_iff]
        intro hamong
        rw [h.isAmong hfront hx hamong] at hnew
        cases hnew
      have hfresh := isAmong_eq_false_iff.mp hfresh
      rcases List.mem_append.mp hz with hz | hz
      · obtain ⟨y, hy, hfilter⟩ := h.first z hz
        refine ⟨y, by rw [List.find?_append, hy]; rfl, ?_⟩
        have hzx : z.equals x = false := by
          rw [(hfront z hz).equals_comm hx]
          exact hfresh z hz
        rw [List.filter_append, hfilter, List.filter_cons_of_neg (by simp [hzx])]
        rfl
      · obtain rfl := List.mem_singleton.mp hz
        refine ⟨z, ?_, ?_⟩
        · rw [List.find?_append, List.find?_eq_none.mpr (by simpa using hfresh), Option.none_or,
            List.find?_cons_of_pos hx.refl]
        · rw [List.filter_append, List.filter_eq_nil_iff.mpr (by simpa using hother), List.filter_cons_of_pos hx.refl]
          rfl

/-- **A scan keeps the first elements of all classes.** -/
theorem isDistinct_distinctOf (h : IsDistinct front ds) (hfront : AreComparable front) (hxs : AreComparable xs) :
    IsDistinct (front ++ xs) (distinctOf ds xs) := by
  induction xs generalizing front ds with
  | nil =>
    rw [List.append_nil]
    exact h
  | cons x xs ih =>
    obtain ⟨hx, hxs⟩ := List.forall_mem_cons.mp hxs
    have hscanned : AreComparable (front ++ [x]) :=
      List.forall_mem_append.mpr ⟨hfront, List.forall_mem_singleton.mpr hx⟩
    rw [distinctOf, List.append_cons]
    exact ih (h.step hfront hx) hscanned hxs

theorem isDistinct_distinct (hxs : AreComparable xs) : IsDistinct xs (distinctOf [] xs) :=
  isDistinct_distinctOf ⟨.refl _, .nil, nofun⟩ nofun hxs

/-- Of elements that are pairwise not equal all are kept. -/
theorem distinctOf_of_pairwise (h : (ds ++ xs).Pairwise fun d e => e.equals d = false) :
    distinctOf ds xs = ds ++ xs := by
  induction xs generalizing ds with
  | nil => rw [distinctOf, List.append_nil]
  | cons x xs ih =>
    have hnew : x.isAmong ds = false :=
      isAmong_eq_false_iff.mpr fun d hd => (List.pairwise_append.mp h).2.2 d hd x List.mem_cons_self
    rw [List.append_cons] at h ⊢
    rw [distinctOf, hnew]
    exact ih h

/-- **The distinct elements of distinct elements are all of them.** -/
theorem IsDistinct.distinctOf_eq (h : IsDistinct xs ds) (hxs : AreComparable xs) : distinctOf [] ds = ds := by
  have hds : AreComparable ds := fun d hd => hxs d (h.sublist.subset hd)
  refine distinctOf_of_pairwise (h.pairwise.imp_of_mem fun {d e} hd he hde => ?_)
  rw [(hds e he).equals_comm (hds d hd)]
  exact hde

/-! ### Lists as sets -/

/-- Every element of the second list is among those of the first just if all is that is among its own. -/
theorem containsAll_iff (hxs : AreComparable xs) (hys : AreComparable ys) : containsAll xs ys = true ↔
    ∀ v : Dyn, v.IsComparable → v.isAmong ys = true → v.isAmong xs = true := by
  unfold containsAll
  rw [List.all_eq_true]
  constructor
  · intro h v hv hamong
    obtain ⟨y, hy, hvy⟩ := isAmong_iff.mp hamong
    obtain ⟨x, hx, hyx⟩ := isAmong_iff.mp (h y hy)
    refine isAmong_iff.mpr ⟨x, hx, ?_⟩
    rw [hv.equals_congr (hys y hy) (hxs x hx) hvy]
    exact hyx
  · intro h y hy
    exact h y (hys y hy) (isAmong_iff.mpr ⟨y, hy, (hys y hy).refl⟩)

/-- Some element of the second list is among those of the first just if something is among those of both. -/
theorem meets_iff (hxs : AreComparable xs) (hys : AreComparable ys) : (ys.any fun y => y.isAmong xs) = true ↔
    ∃ v : Dyn, v.IsComparable ∧ v.isAmong xs = true ∧ v.isAmong ys = true := by
  rw [List.any_eq_true]
  constructor
  · rintro ⟨y, hy, hamong⟩
    exact ⟨y, hys y hy, hamong, isAmong_iff.mpr ⟨y, hy, (hys y hy).refl⟩⟩
  · rintro ⟨v, hv, hamong, hamong'⟩
    obtain ⟨x, hx, hvx⟩ := isAmong_iff.mp hamong
    obtain ⟨y, hy, hvy⟩ := isAmong_iff.mp hamong'
    refine ⟨y, hy, isAmong_iff.mpr ⟨x, hx, ?_⟩⟩
    rw [← hv.equals_congr (hys y hy) (hxs x hx) hvy]
    exact hvx

/-- The same values are among the elements of both lists. -/
def SameElements (xs ys : List Dyn) : Prop := ∀ v : Dyn, v.IsComparable → v.isAmong xs = v.isAmong ys

theorem sameElements_of_perm (h : xs.Perm ys) : SameElements xs ys := fun _ _ => h.any_eq

theorem IsDistinct.sameElements (h : IsDistinct xs ds) (hxs : AreComparable xs) : SameElements xs ds := by
  intro v hv
  rw [Bool.eq_iff_iff]
  constructor
  · exact h.isAmong hxs hv
  · intro hamong
    obtain ⟨d, hd, hvd⟩ := isAmong_iff.mp hamong
    exact isAmong_iff.mpr ⟨d, h.sublist.subset hd, hvd⟩

end Dyn

/-! ### Relations of sets -/

/-- A relation of lists as sets. -/
inductive SetRelation
  | contains
  | equivalent
  | intersects

namespace SetRelation

open Dyn (AreComparable SameElements containsAll)

variable {env : Activation} {a b c : Expr} {xs xs' ys ys' zs : List Dyn}

def name : SetRelation → String
  | contains => "sets.contains"
  | equivalent => "sets.equivalent"
  | intersects => "sets.intersects"

def function : SetRelation → Builtin
  | contains => .setContains
  | equivalent => .setEquivalent
  | intersects => .setIntersects

/-- The relation holds of two lists. -/
def holds : SetRelation → List Dyn → List Dyn → Bool
  | contains, xs, ys => containsAll xs ys
  | equivalent, xs, ys => containsAll xs ys && containsAll ys xs
  | intersects, xs, ys => ys.any fun y => y.isAmong xs

/-- The call of a relation. -/
def call (r : SetRelation) (pos : Nat) (a b : Expr) : Expr := .call pos (Text.lit r.name) [a, b]

theorem global?_name (r : SetRelation) : Builtin.global? (Text.lit r.name) = some r.function := by
  cases r <;> decide

/-- **A relation of two lists is decided.** -/
theorem eval_call (r : SetRelation) (ha : eval env a = .ok (.list xs)) (hb : eval env b = .ok (.list ys))
    (pos : Nat) : eval env (r.call pos a b) = .ok (.bool (r.holds xs ys)) := by
  have hargs : evalAll env [a, b] = .ok [.list xs, .list ys] := evalAll_cons ha (evalAll_cons hb evalAll_nil)
  rw [call, eval_global r.global?_name hargs]
  cases r <;> rfl

theorem eval_call_eq_true_iff (r : SetRelation) (ha : eval env a = .ok (.list xs))
    (hb : eval env b = .ok (.list ys)) (pos : Nat) :
    eval env (r.call pos a b) = .ok (.bool true) ↔ r.holds xs ys = true := by
  rw [r.eval_call ha hb]
  simp

/-- **A relation sees nothing but what is among the elements.** -/
theorem holds_congr (r : SetRelation) (hxs : AreComparable xs) (hxs' : AreComparable xs')
    (hys : AreComparable ys) (hys' : AreComparable ys') (hx : SameElements xs xs') (hy : SameElements ys ys') :
    r.holds xs ys = r.holds xs' ys' := by
  have hcontains {xs xs' ys ys' : List Dyn} (hxs : AreComparable xs) (hxs' : AreComparable xs')
      (hys : AreComparable ys) (hys' : AreComparable ys') (hx : SameElements xs xs') (hy : SameElements ys ys') :
      containsAll xs ys = containsAll xs' ys' := by
    rw [Bool.eq_iff_iff, Dyn.containsAll_iff hxs hys, Dyn.containsAll_iff hxs' hys']
    exact forall₂_congr fun v hv => by rw [hx v hv, hy v hv]
  cases r with
  | contains => exact hcontains hxs hxs' hys hys' hx hy
  | equivalent =>
    exact congrArg₂ and (hcontains hxs hxs' hys hys' hx hy) (hcontains hys hys' hxs hxs' hy hx)
  | intersects =>
    change (ys.any fun y => y.isAmong xs) = ys'.any fun y => y.isAmong xs'
    rw [Bool.eq_iff_iff, Dyn.meets_iff hxs hys, Dyn.meets_iff hxs' hys']
    exact exists_congr fun v => and_congr_right fun hv => by rw [hx v hv, hy v hv]

theorem contains_self (hxs : AreComparable xs) : contains.holds xs xs = true :=
  (Dyn.containsAll_iff hxs hxs).mpr fun _ _ hamong => hamong

theorem contains_trans (hxs : AreComparable xs) (hys : AreComparable ys) (hzs : AreComparable zs)
    (hxy : contains.holds xs ys = true) (hyz : contains.holds ys zs = true) : contains.holds xs zs = true :=
  (Dyn.containsAll_iff hxs hzs).mpr fun v hv hamong =>
    (Dyn.containsAll_iff hxs hys).mp hxy v hv ((Dyn.containsAll_iff hys hzs).mp hyz v hv hamong)

theorem intersects_comm (hxs : AreComparable xs) (hys : AreComparable ys) :
    intersects.holds xs ys = intersects.holds ys xs := by
  change (ys.any fun y => y.isAmong xs) = xs.any fun x => x.isAmong ys
  rw [Bool.eq_iff_iff, Dyn.meets_iff hxs hys, Dyn.meets_iff hys hxs]
  exact exists_congr fun v => and_congr_right fun _ => and_comm

theorem equivalent_iff : equivalent.holds xs ys = true ↔
    contains.holds xs ys = true ∧ contains.holds ys xs = true := Bool.and_eq_true_iff

end SetRelation

/-! ### Expressions -/

open Dyn (AreComparable IsDistinct SameElements)

section

variable {env : Activation} {e a a' b b' : Expr} {xs ys : List Dyn}

/-- The expression has a list of comparable values. -/
structure HasList (env : Activation) (e : Expr) (xs : List Dyn) : Prop where
  value : eval env e = .ok (.list xs)
  comparable : AreComparable xs

/-- The call of `distinct`. -/
def distinctCall (pos : Nat) (e : Expr) : Expr := .method pos (Text.lit "distinct") e []

theorem eval_distinct (he : eval env e = .ok (.list xs)) (pos : Nat) :
    eval env (distinctCall pos e) = .ok (.list (Dyn.distinctOf [] xs)) := by
  have hname : Builtin.member? (Text.lit "distinct") = some .distinct := by decide
  rw [distinctCall, eval_method hname he evalAll_nil]
  rfl

/-- The second expression has the elements of the first one in some order, or its distinct elements. -/
inductive Rearranges (env : Activation) : Expr → Expr → Prop
  | permuted {a b : Expr} {xs ys : List Dyn} (ha : HasList env a xs) (hb : eval env b = .ok (.list ys))
      (h : xs.Perm ys) : Rearranges env a b
  | distinct {a : Expr} {xs : List Dyn} (ha : HasList env a xs) (pos : Nat) : Rearranges env a (distinctCall pos a)

theorem HasList.distinct (he : HasList env e xs) (pos : Nat) :
    HasList env (distinctCall pos e) (Dyn.distinctOf [] xs) where
  value := eval_distinct he.value pos
  comparable d hd := he.comparable d ((Dyn.isDistinct_distinct he.comparable).sublist.subset hd)

/-- What is rearranged has the same elements. -/
theorem Rearranges.exists_lists (h : Rearranges env a b) :
    ∃ xs ys, HasList env a xs ∧ HasList env b ys ∧ SameElements xs ys := by
  cases h with
  | @permuted _ xs ys ha hb h =>
    refine ⟨xs, ys, ha, ⟨hb, fun y hy => ?_⟩, Dyn.sameElements_of_perm h⟩
    exact ha.comparable y (h.mem_iff.mpr hy)
  | @distinct xs ha pos =>
    exact ⟨xs, _, ha, ha.distinct pos, (Dyn.isDistinct_distinct ha.comparable).sameElements ha.comparable⟩

end

/-- The laws of distinct elements and of the relations of lists as sets. -/
structure SetLaws (env : Activation) : Prop where
  distinct {e : Expr} {xs : List Dyn} (he : HasList env e xs) : ∃ ds, IsDistinct xs ds ∧ ∀ i j,
    eval env (distinctCall i e) = .ok (.list ds) ∧ eval env (distinctCall i (distinctCall j e)) = .ok (.list ds)
  contains_self {a : Expr} {xs : List Dyn} (ha : HasList env a xs) (i : Nat) :
    eval env (SetRelation.contains.call i a a) = .ok (.bool true)
  contains_trans {a b c : Expr} {xs ys zs : List Dyn} (ha : HasList env a xs) (hb : HasList env b ys)
    (hc : HasList env c zs) (i j k : Nat) (hab : eval env (SetRelation.contains.call i a b) = .ok (.bool true))
    (hbc : eval env (SetRelation.contains.call j b c) = .ok (.bool true)) :
    eval env (SetRelation.contains.call k a c) = .ok (.bool true)
  equivalent_eq_and {a b : Expr} {xs ys : List Dyn} (ha : HasList env a xs) (hb : HasList env b ys)
    (i j k l : Nat) : SameValue env (SetRelation.equivalent.call i a b)
      (.binary j .and (SetRelation.contains.call k a b) (SetRelation.contains.call l b a))
  equivalent_self {a : Expr} {xs : List Dyn} (ha : HasList env a xs) (i : Nat) :
    eval env (SetRelation.equivalent.call i a a) = .ok (.bool true)
  equivalent_comm {a b : Expr} {xs ys : List Dyn} (ha : HasList env a xs) (hb : HasList env b ys) (i j : Nat) :
    SameValue env (SetRelation.equivalent.call i a b) (SetRelation.equivalent.call j b a)
  equivalent_trans {a b c : Expr} {xs ys zs : List Dyn} (ha : HasList env a xs) (hb : HasList env b ys)
    (hc : HasList env c zs) (i j k : Nat) (hab : eval env (SetRelation.equivalent.call i a b) = .ok (.bool true))
    (hbc : eval env (SetRelation.equivalent.call j b c) = .ok (.bool true)) :
    eval env (SetRelation.equivalent.call k a c) = .ok (.bool true)
  equivalent_distinct {a : Expr} {xs : List Dyn} (ha : HasList env a xs) (i j : Nat) :
    eval env (SetRelation.equivalent.call i a (distinctCall j a)) = .ok (.bool true)
  intersects_comm {a b : Expr} {xs ys : List Dyn} (ha : HasList env a xs) (hb : HasList env b ys) (i j : Nat) :
    SameValue env (SetRelation.intersects.call i a b) (SetRelation.intersects.call j b a)
  rearranged (r : SetRelation) {a a' b b' : Expr} (ha : Rearranges env a a') (hb : Rearranges env b b')
    (i j : Nat) : SameValue env (r.call i a b) (r.call j a' b')

/-- **Distinct elements and the relations of sets obey their laws** on all lists of comparable values. -/
theorem sets_are_lawful (env : Activation) : SetLaws env where
  distinct {e xs} he := by
    have hdistinct := Dyn.isDistinct_distinct he.comparable
    refine ⟨_, hdistinct, fun i j => ⟨eval_distinct he.value i, ?_⟩⟩
    rw [eval_distinct (eval_distinct he.value j), hdistinct.distinctOf_eq he.comparable]
  contains_self ha i := by
    rw [SetRelation.eval_call_eq_true_iff _ ha.value ha.value]
    exact SetRelation.contains_self ha.comparable
  contains_trans ha hb hc i j k hab hbc := by
    rw [SetRelation.eval_call_eq_true_iff _ ha.value hb.value] at hab
    rw [SetRelation.eval_call_eq_true_iff _ hb.value hc.value] at hbc
    rw [SetRelation.eval_call_eq_true_iff _ ha.value hc.value]
    exact SetRelation.contains_trans ha.comparable hb.comparable hc.comparable hab hbc
  equivalent_eq_and {a b xs ys} ha hb i j k l := by
    refine ⟨_, SetRelation.eval_call _ ha.value hb.value i, ?_⟩
    rw [eval, SetRelation.eval_call _ ha.value hb.value, SetRelation.eval_call _ hb.value ha.value]
    change logical .and (.ok (.bool (Dyn.containsAll xs ys))) (fun _ => .ok (.bool (Dyn.containsAll ys xs))) =
      .ok (.bool (Dyn.containsAll xs ys && Dyn.containsAll ys xs))
    cases Dyn.containsAll xs ys <;> rfl
  equivalent_self ha i := by
    have hself := SetRelation.contains_self ha.comparable
    rw [SetRelation.eval_call_eq_true_iff _ ha.value ha.value, SetRelation.equivalent_iff]
    exact ⟨hself, hself⟩
  equivalent_comm ha hb i j := by
    refine ⟨_, SetRelation.eval_call _ ha.value hb.value i, ?_⟩
    rw [SetRelation.eval_call _ hb.value ha.value]
    exact congrArg (fun h => Except.ok (Dyn.bool h)) (Bool.and_comm _ _)
  equivalent_trans ha hb hc i j k hab hbc := by
    rw [SetRelation.eval_call_eq_true_iff _ ha.value hb.value, SetRelation.equivalent_iff] at hab
    rw [SetRelation.eval_call_eq_true_iff _ hb.value hc.value, SetRelation.equivalent_iff] at hbc
    rw [SetRelation.eval_call_eq_true_iff _ ha.value hc.value, SetRelation.equivalent_iff]
    exact ⟨SetRelation.contains_trans ha.comparable hb.comparable hc.comparable hab.1 hbc.1,
      SetRelation.contains_trans hc.comparable hb.comparable ha.comparable hbc.2 hab.2⟩
  equivalent_distinct ha i j := by
    have hdistinct := ha.distinct j
    have hsame := (Dyn.isDistinct_distinct ha.comparable).sameElements ha.comparable
    have hself := SetRelation.contains_self ha.comparable
    rw [SetRelation.eval_call_eq_true_iff _ ha.value hdistinct.value,
      SetRelation.holds_congr .equivalent ha.comparable ha.comparable hdistinct.comparable ha.comparable
        (fun _ _ => rfl) fun v hv => (hsame v hv).symm, SetRelation.equivalent_iff]
    exact ⟨hself, hself⟩
  intersects_comm ha hb i j := by
    refine ⟨_, SetRelation.eval_call _ ha.value hb.value i, ?_⟩
    rw [SetRelation.eval_call _ hb.value ha.value, SetRelation.intersects_comm hb.comparable ha.comparable]
  rearranged r a a' b b' ha hb i j := by
    obtain ⟨xs, xs', hxs, hxs', hx⟩ := ha.exists_lists
    obtain ⟨ys, ys', hys, hys', hy⟩ := hb.exists_lists
    refine ⟨_, r.eval_call hxs.value hys.value i, ?_⟩
    rw [r.eval_call hxs'.value hys'.value, r.holds_congr hxs.comparable hxs'.comparable hys.comparable
      hys'.comparable hx hy]

/-- A string, a number and the string again. -/
def repeatedList : Expr := .list 0 [.literal 0 (.string (Text.lit "a")), .literal 0 (.int 1),
  .literal 0 (.string (Text.lit "a"))]

/-- It is equivalent to its distinct elements, which stay as they are. -/
theorem sets_are_lawful_repeated :
    eval [] (SetRelation.equivalent.call 0 repeatedList (distinctCall 0 repeatedList)) = .ok (.bool true) ∧
    SameValue [] (distinctCall 0 repeatedList) (distinctCall 0 (distinctCall 0 repeatedList)) := by
  have hstring : (Dyn.string (Text.lit "a")).IsComparable := ⟨.scalar rfl, rfl⟩
  have hint : (Dyn.int 1).IsComparable := ⟨.scalar rfl, rfl⟩
  have hlist : HasList [] repeatedList [.string (Text.lit "a"), .int 1, .string (Text.lit "a")] :=
    ⟨rfl, List.forall_mem_cons.mpr ⟨hstring, List.forall_mem_cons.mpr ⟨hint, List.forall_mem_singleton.mpr hstring⟩⟩⟩
  obtain ⟨ds, -, hdistinct⟩ := (sets_are_lawful []).distinct hlist
  exact ⟨(sets_are_lawful []).equivalent_distinct hlist 0 0, _, hdistinct 0 0⟩

/-- Of equal numbers the first one stays, whatever its type, and a truth value is equal to no number. -/
example : (Dyn.distinctOf [] [.double (Double.ofInt 1), .int 1, .bool true]).map Dyn.typeName = ["double", "bool"] := by
  decide +kernel

end LogStream.Filter
