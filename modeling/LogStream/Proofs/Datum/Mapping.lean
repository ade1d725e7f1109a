import LogStream.Datum.Basic

/-! # Laws of mappings

Bindings of different keys can be put in either order once the first of them has its place
(`put_put_comm`), of two bindings of one key the later one is left (`put_put_same`), and to put a
mapping that was put together before is to put its bindings one after the other (`putAll_putAll`).
A mapping with distinct keys is put together from its own bindings (`putAll_nil_left`). What is bound
after all is told by `lookup_putAll`, and in which order by `map_fst_putAll`. -/

namespace LogStream.Attrs

variable {α : Type}

/-- The key is bound. -/
def Binds (attrs : List (Text × α)) (key : Text) : Prop := key ∈ attrs.map Prod.fst

/-- The attributes with the content of a key replaced. -/
def rebind (attrs : List (Text × α)) (key : Text) (v : α) : List (Text × α) :=
  attrs.map fun a => if a.1 = key then (key, v) else a

theorem any_eq_true_iff {attrs : List (Text × α)} {key : Text} :
    (attrs.any fun a => a.1 == key) = true ↔ Binds attrs key := by
  unfold Binds
  simp only [List.any_eq_true, beq_iff_eq, List.mem_map]

theorem put_of_binds {attrs : List (Text × α)} {key : Text} (h : Binds attrs key) (v : α) :
    put attrs key v = rebind attrs key v := by
  unfold put rebind
  rw [if_pos (any_eq_true_iff.mpr h)]
  simp only [beq_iff_eq]

theorem put_of_not_binds {attrs : List (Text × α)} {key : Text} (h : ¬ Binds attrs key) (v : α) :
    put attrs key v = attrs ++ [(key, v)] := by
  unfold put
  rw [if_neg (fun ha => h (any_eq_true_iff.mp ha))]

/-! ### What is bound -/

theorem map_fst_rebind (attrs : List (Text × α)) (key : Text) (v : α) :
    (rebind attrs key v).map Prod.fst = attrs.map Prod.fst := by
  unfold rebind
  rw [List.map_map]
  refine List.map_congr_left fun a _ => ?_
  by_cases h : a.1 = key <;> simp [h]

theorem binds_rebind {attrs : List (Text × α)} {key k : Text} {v : α} :
    Binds (rebind attrs key v) k ↔ Binds attrs k := by
  unfold Binds; rw [map_fst_rebind]

theorem binds_append {attrs more : List (Text × α)} {k : Text} :
    Binds (attrs ++ more) k ↔ Binds attrs k ∨ Binds more k := by
  unfold Binds; rw [List.map_append, List.mem_append]

theorem binds_singleton {key k : Text} {v : α} : Binds [(key, v)] k ↔ k = key := by
  unfold Binds; simp

theorem binds_put {attrs : List (Text × α)} {key k : Text} {v : α} :
    Binds (put attrs key v) k ↔ k = key ∨ Binds attrs k := by
  by_cases h : Binds attrs key
  · rw [put_of_binds h, binds_rebind]
    constructor
    · exact Or.inr
    · rintro (rfl | hk)
      · exact h
      · exact hk
  · rw [put_of_not_binds h, binds_append, binds_singleton, or_comm]

theorem lookup_of_not_binds {attrs : List (Text × α)} {key : Text} (h : ¬ Binds attrs key) :
    attrs.lookup key = none := by
  rw [List.lookup_eq_none_iff]
  intro a ha
  exact bne_iff_ne.mpr fun he => h (he ▸ List.mem_map_of_mem ha)

/-- A mapping with distinct keys is looked up by its bindings. -/
theorem lookup_of_mem {attrs : List (Text × α)} (hn : (attrs.map Prod.fst).Nodup) {key : Text} {v : α}
    (h : (key, v) ∈ attrs) : attrs.lookup key = some v := by
  obtain ⟨front, back, rfl⟩ := List.append_of_mem h
  refine List.lookup_eq_some_iff.mpr ⟨front, back, rfl, fun a ha => ?_⟩
  rw [List.map_append, List.nodup_append] at hn
  exact bne_iff_ne.mpr
    (hn.2.2 a.1 (List.mem_map_of_mem ha) key (List.mem_map_of_mem List.mem_cons_self)).symm

theorem nodup_put {attrs : List (Text × α)} (h : (attrs.map Prod.fst).Nodup) (key : Text) (v : α) :
    ((put attrs key v).map Prod.fst).Nodup := by
  by_cases hb : Binds attrs key
  · rwa [put_of_binds hb, map_fst_rebind]
  · rw [put_of_not_binds hb, List.map_append, List.nodup_append]
    refine ⟨h, List.pairwise_singleton _ _, ?_⟩
    rintro k hk _ hk' rfl
    obtain rfl := List.mem_singleton.mp hk'
    exact hb hk

theorem mem_put {attrs : List (Text × α)} {key : Text} {v : α} {a : Text × α}
    (h : a ∈ put attrs key v) : a = (key, v) ∨ a ∈ attrs := by
  by_cases hb : Binds attrs key
  · rw [put_of_binds hb] at h
    obtain ⟨b, hb, rfl⟩ := List.mem_map.mp h
    by_cases hk : b.1 = key
    · exact Or.inl (if_pos hk)
    · exact Or.inr (by rwa [if_neg hk])
  · rw [put_of_not_binds hb, List.mem_append, List.mem_singleton] at h
    exact h.symm

theorem rebind_of_not_binds {attrs : List (Text × α)} {key : Text} (h : ¬ Binds attrs key) (v : α) :
    rebind attrs key v = attrs := by
  unfold rebind
  refine (List.map_congr_left fun a ha => ?_).trans (List.map_id attrs)
  have hne : a.1 ≠ key := by
    rintro rfl
    exact h (List.mem_map_of_mem ha)
  rw [if_neg hne, id]

theorem rebind_append (attrs more : List (Text × α)) (key : Text) (v : α) :
    rebind (attrs ++ more) key v = rebind attrs key v ++ rebind more key v := by
  unfold rebind; rw [List.map_append]

theorem rebind_rebind_same (attrs : List (Text × α)) (key : Text) (v w : α) :
    rebind (rebind attrs key w) key v = rebind attrs key v := by
  unfold rebind
  rw [List.map_map]
  refine List.map_congr_left fun a _ => ?_
  by_cases h : a.1 = key <;> simp [h]

theorem rebind_rebind_comm {j k : Text} (h : j ≠ k) (attrs : List (Text × α)) (v w : α) :
    rebind (rebind attrs j w) k v = rebind (rebind attrs k v) j w := by
  unfold rebind
  rw [List.map_map, List.map_map]
  refine List.map_congr_left fun a _ => ?_
  by_cases hj : a.1 = j
  · have hk : a.1 ≠ k := fun hk => h (hj.symm.trans hk)
    simp [hj, h]
  · by_cases hk : a.1 = k
    · simp [hk, Ne.symm h]
    · simp [hj, hk]

/-! ### Two bindings -/

/-- **Of two bindings of one key the later one is left.** -/
theorem put_put_same (attrs : List (Text × α)) (key : Text) (v w : α) :
    put (put attrs key w) key v = put attrs key v := by
  have hb : Binds (put attrs key w) key := binds_put.mpr (Or.inl rfl)
  rw [put_of_binds hb]
  by_cases h : Binds attrs key
  · rw [put_of_binds h, put_of_binds h, rebind_rebind_same]
  · rw [put_of_not_binds h, put_of_not_binds h, rebind_append, rebind_of_not_binds h]
    simp [rebind]

/-- **Another key can be bound before or after a key that has its place.** -/
theorem put_put_comm {attrs : List (Text × α)} {j k : Text} (h : j ≠ k) (hk : Binds attrs k)
    (v w : α) : put (put attrs j w) k v = put (put attrs k v) j w := by
  rw [put_of_binds (binds_put.mpr (Or.inr hk)), put_of_binds hk]
  by_cases hj : Binds attrs j
  · rw [put_of_binds hj, put_of_binds (binds_rebind.mpr hj), rebind_rebind_comm h]
  · have hj' : ¬ Binds (rebind attrs k v) j := fun hb => hj (binds_rebind.mp hb)
    rw [put_of_not_binds hj, put_of_not_binds hj', rebind_append]
    simp [rebind, h]

/-! ### Many bindings -/

@[simp] theorem putAll_nil (attrs : List (Text × α)) : putAll attrs [] = attrs := rfl

theorem putAll_cons (attrs more : List (Text × α)) (a : Text × α) :
    putAll attrs (a :: more) = putAll (put attrs a.1 a.2) more := rfl

/-- A key that has its place can be bound before or after further bindings, if these agree. -/
theorem putAll_rebind {key : Text} (v : α) : ∀ {attrs : List (Text × α)}
    (more : List (Text × α)), Binds attrs key →
      putAll (put attrs key v) (rebind more key v) = put (putAll attrs more) key v
  | attrs, [], _ => rfl
  | attrs, (k, w) :: more, hb => by
    have hb' : Binds (put attrs k w) key := binds_put.mpr (Or.inr hb)
    have ih := putAll_rebind v more hb'
    rw [putAll_cons, ← ih]
    by_cases hk : k = key
    · subst hk
      have hr : rebind ((k, w) :: more) k v = (k, v) :: rebind more k v := by simp [rebind]
      rw [hr, putAll_cons, put_put_same, put_put_same]
    · have hr : rebind ((k, w) :: more) key v = (k, w) :: rebind more key v := by simp [rebind, hk]
      rw [hr, putAll_cons, put_put_comm hk hb]

/-- Bindings of which the last one was put in its place can be put one after the other. -/
theorem putAll_put (attrs : List (Text × α)) (key : Text) (v : α) : ∀ more : List (Text × α),
    putAll attrs (put more key v) = put (putAll attrs more) key v := by
  intro more
  induction more generalizing attrs with
  | nil => rfl
  | cons a more ih =>
    obtain ⟨k, w⟩ := a
    by_cases hk : k = key
    · subst hk
      have hb : Binds ((k, w) :: more) k := by simp [Binds]
      have hr : rebind ((k, w) :: more) k v = (k, v) :: rebind more k v := by simp [rebind]
      rw [put_of_binds hb, hr, putAll_cons, putAll_cons]
      rw [← put_put_same attrs k v w]
      exact putAll_rebind v more (binds_put.mpr (Or.inl rfl))
    · have hr : put ((k, w) :: more) key v = (k, w) :: put more key v := by
        by_cases hb : Binds more key
        · have hb' : Binds ((k, w) :: more) key := by
            unfold Binds at hb ⊢; exact List.mem_cons_of_mem _ hb
          rw [put_of_binds hb', put_of_binds hb]
          simp [rebind, hk]
        · have hb' : ¬ Binds ((k, w) :: more) key := by
            unfold Binds at hb ⊢
            simpa [Ne.symm hk] using hb
          rw [put_of_not_binds hb', put_of_not_binds hb, List.cons_append]
      rw [hr, putAll_cons, putAll_cons]
      exact ih (put attrs k w)

/-- **Bindings put into a mapping that is put into another one can be put there directly.** -/
theorem putAll_putAll (attrs more further : List (Text × α)) :
    putAll attrs (putAll more further) = putAll (putAll attrs more) further := by
  induction further generalizing more with
  | nil => rfl
  | cons a further ih => rw [putAll_cons, putAll_cons, ih, putAll_put]

theorem nodup_putAll {attrs : List (Text × α)} (h : (attrs.map Prod.fst).Nodup)
    (more : List (Text × α)) : ((putAll attrs more).map Prod.fst).Nodup := by
  induction more generalizing attrs with
  | nil => exact h
  | cons a more ih => exact ih (nodup_put h a.1 a.2)

theorem mem_putAll {attrs more : List (Text × α)} {a : Text × α} (h : a ∈ putAll attrs more) :
    a ∈ attrs ∨ a ∈ more := by
  induction more generalizing attrs with
  | nil => exact .inl h
  | cons b more ih =>
    have hput : a ∈ putAll (put attrs b.1 b.2) more := h
    rcases ih hput with h | h
    · rcases mem_put h with rfl | h
      · exact .inr List.mem_cons_self
      · exact .inl h
    · exact .inr (List.mem_cons_of_mem b h)

/-- A mapping with distinct keys put behind one that binds none of them. -/
theorem putAll_of_nodup : ∀ (attrs more : List (Text × α)),
    ((attrs ++ more).map Prod.fst).Nodup → putAll attrs more = attrs ++ more
  | attrs, [], _ => by rw [putAll_nil, List.append_nil]
  | attrs, (k, v) :: more, hn => by
    have hk : ¬ Binds attrs k := by
      rw [List.map_append, List.map_cons, List.nodup_append] at hn
      exact fun hb => hn.2.2 k hb k (List.mem_cons_self ..) rfl
    rw [putAll_cons, put_of_not_binds hk, putAll_of_nodup _ more (by simpa using hn)]
    rw [List.append_assoc, List.singleton_append]

/-- **A mapping with distinct keys is put together from its bindings.** -/
theorem putAll_nil_left {attrs : List (Text × α)} (hn : (attrs.map Prod.fst).Nodup) :
    putAll [] attrs = attrs := by
  rw [putAll_of_nodup [] attrs (by simpa using hn), List.nil_append]

/-! ### What is bound after all -/

/-- **A key has the content that was bound to it last**, or what it had. -/
theorem lookup_putAll (attrs more : List (Text × α)) (key : Text) :
    (putAll attrs more).lookup key = (more.reverse.lookup key).or (attrs.lookup key) := by
  induction more generalizing attrs with
  | nil => rfl
  | cons a more ih =>
    obtain ⟨k, v⟩ := a
    have hfirst : (put attrs k v).lookup key = ([(k, v)].lookup key).or (attrs.lookup key) := by
      rw [lookup_put]
      by_cases h : key = k
      · simp [h]
      · simp [List.lookup_cons, h, beq_false_of_ne h]
    rw [putAll_cons, ih, hfirst, List.reverse_cons, List.lookup_append, Option.or_assoc]

/-- The keys of further bindings that are not bound yet, in the order in which they are first bound. -/
def newKeys (attrs more : List (Text × α)) : List Text :=
  ((more.map Prod.fst).filter fun k => !(attrs.map Prod.fst).contains k).eraseDups

/-- **The keys that were there keep their places, and new ones follow in the order in which they
were first bound.** -/
theorem map_fst_putAll (attrs more : List (Text × α)) :
    (putAll attrs more).map Prod.fst = attrs.map Prod.fst ++ newKeys attrs more := by
  unfold newKeys
  induction more generalizing attrs with
  | nil => simp
  | cons a more ih =>
    have hkeys := map_fst_put attrs a.1 a.2
    rw [putAll_cons, ih, List.map_cons]
    by_cases h : Binds attrs a.1
    · have hold : (attrs.map Prod.fst).contains a.1 = true := List.contains_iff_mem.mpr h
      rw [if_pos (any_eq_true_iff.mpr h)] at hkeys
      rw [hkeys, List.filter_cons_of_neg (by simpa using hold)]
    · have hnew : (attrs.map Prod.fst).contains a.1 = false :=
        Bool.eq_false_iff.mpr fun hold => h (List.contains_iff_mem.mp hold)
      have hrest : (more.map Prod.fst).filter (fun k => !(attrs.map Prod.fst ++ [a.1]).contains k) =
          ((more.map Prod.fst).filter fun k => !(attrs.map Prod.fst).contains k).filter
            (!· == a.1) := by
        rw [List.filter_filter]
        refine List.filter_congr fun k _ => ?_
        rw [Bool.eq_iff_iff]
        simp only [Bool.not_eq_true', List.contains_eq_mem, decide_eq_false_iff_not, List.mem_append,
          List.mem_singleton, not_or, Bool.and_eq_true, beq_eq_false_iff_ne]
        exact and_comm
      rw [if_neg fun hb => h (any_eq_true_iff.mp hb)] at hkeys
      rw [hkeys, hrest, List.filter_cons_of_pos (by rw [hnew]; rfl), List.eraseDups_cons,
        List.append_assoc, List.singleton_append]

end LogStream.Attrs
