import LogStream.Proofs.Filter.Typing.Strings

/-! # Functions on typed lists and optional values

The functions on lists give lists of elements of the same type, since every element of the result is
one of the argument (`mem_distinctOf`, `mem_sortItems`). -/

namespace LogStream.Filter

open Eval (Sound sound_failShowing)

variable {textless : String → Prop} {v w x : Dyn} {a e t : Ty}

/-! ### Parts -/

theorem sound_elements (hv : v.HasType (.list e)) (name : String) (args : List Dyn) :
    Sound textless (fun xs => ∀ x ∈ xs, x.HasType e) (Dyn.elements name args v) := by
  cases hv with
  | list hxs => exact hxs

theorem sound_reverse_string (hv : v.HasType .string) :
    Sound textless (Dyn.HasType · .string) v.reverse := by
  cases hv
  exact .string _

theorem sound_reverse_list (hv : v.HasType (.list e)) :
    Sound textless (Dyn.HasType · (.list e)) v.reverse := by
  cases hv with
  | list hxs => exact .list fun x hx => hxs x (List.mem_reverse.mp hx)

theorem sound_slice (hv : v.HasType (.list e)) (hw : w.HasType .int) (hx : x.HasType .int) :
    Sound textless (Dyn.HasType · (.list e)) (v.slice w x) := by
  refine (sound_elements hv "slice" [v]).bind fun xs hxs => ?_
  refine (sound_integer hw "slice").bind fun i _ => (sound_integer hx "slice").bind fun j _ => ?_
  split
  · exact .list fun y hy => hxs y (List.mem_of_mem_take (List.mem_of_mem_drop hy))
  · exact sound_failShowing _ trivial

theorem sound_first (hv : v.HasType (.list e)) :
    Sound textless (Dyn.HasType · (.optional e)) v.first :=
  (sound_elements hv "first" [v]).bind fun _ hxs =>
    .optional fun y hy => hxs y (List.mem_of_mem_head? hy)

theorem sound_last (hv : v.HasType (.list e)) :
    Sound textless (Dyn.HasType · (.optional e)) v.last :=
  (sound_elements hv "last" [v]).bind fun _ hxs =>
    .optional fun y hy => hxs y (List.mem_of_getLast? hy)

/-- Nothing is opened below depth zero. -/
theorem flatAll_zero (xs : List Dyn) : Dyn.flatAll 0 xs = xs := by
  induction xs with
  | nil => rfl
  | cons x xs ih =>
    have hflat : Dyn.flat 0 x = [x] := by cases x <;> rfl
    rw [Dyn.flatAll, hflat, ih]
    rfl

theorem mem_flatAll_one : ∀ {xs : List Dyn}, (∀ x ∈ xs, x.HasType (.list e)) →
    ∀ y ∈ Dyn.flatAll 1 xs, y.HasType e
  | [], _, y, hy => absurd hy List.not_mem_nil
  | x :: xs, h, y, hy => by
    obtain ⟨hx, hxs⟩ := List.forall_mem_cons.mp h
    rw [Dyn.flatAll] at hy
    rcases List.mem_append.mp hy with hy | hy
    · cases hx with
      | @list ys _ hys =>
        have hflat : Dyn.flat 1 (.list ys) = ys := flatAll_zero ys
        exact hys y (hflat ▸ hy)
    · exact mem_flatAll_one hxs y hy

theorem sound_flatten (hv : v.HasType (.list (.list e))) :
    Sound textless (Dyn.HasType · (.list e)) (v.flatten (.int 1)) :=
  (sound_elements hv "flatten" [v]).bind fun _ hxs => .list (mem_flatAll_one hxs)

theorem sound_range (hv : v.HasType .int) :
    Sound textless (Dyn.HasType · (.list .int)) v.range := by
  refine (sound_integer hv "lists.range").bind fun n _ => ?_
  split
  · exact trivial
  split
  · exact trivial
  · refine .list fun x hx => ?_
    obtain ⟨i, -, rfl⟩ := List.mem_map.mp hx
    exact .int i

theorem sound_size (hv : v.HasType t)
    (ht : t = .string ∨ t = .bytes ∨ (∃ e, t = .list e) ∨ ∃ k c, t = .map k c) :
    Sound textless (Dyn.HasType · .int) v.size := by
  cases hv with
  | string => exact .int _
  | bytes => exact .int _
  | list => exact .int _
  | map => exact .int _
  | _ => simp at ht

/-! ### Sets -/

theorem mem_distinctOf : ∀ {xs seen : List Dyn}, ∀ x ∈ Dyn.distinctOf seen xs, x ∈ seen ∨ x ∈ xs
  | [], seen, x, hx => .inl hx
  | y :: ys, seen, x, hx => by
    rw [Dyn.distinctOf] at hx
    rcases mem_distinctOf x hx with hx | hx
    · split at hx
      · exact .inl hx
      · rcases List.mem_append.mp hx with hx | hx
        · exact .inl hx
        · exact .inr (List.mem_singleton.mp hx ▸ List.mem_cons_self)
    · exact .inr (List.mem_cons_of_mem y hx)

theorem sound_distinct (hv : v.HasType (.list e)) :
    Sound textless (Dyn.HasType · (.list e)) v.distinct := by
  refine (sound_elements hv "distinct" [v]).bind fun xs hxs => .list fun x hx => ?_
  rcases mem_distinctOf x hx with hx | hx
  · exact absurd hx List.not_mem_nil
  · exact hxs x hx

theorem sound_relation {b : Ty} (hv : v.HasType (.list a)) (hw : w.HasType (.list b))
    (name : String) (holds : List Dyn → List Dyn → Bool) :
    Sound textless (Dyn.HasType · .bool) (Dyn.relation name holds v w) :=
  (sound_elements hv name [v, w]).bind fun _ _ =>
    (sound_elements hw name [v, w]).bind fun _ _ => .bool _

/-! ### Sorting -/

section Sorting

variable {α : Type}

theorem mem_insertAll : ∀ {items sorted : List (Dyn × α)},
    ∀ x ∈ Dyn.insertAll sorted items, x ∈ sorted ∨ x ∈ items
  | [], sorted, x, hx => .inl hx
  | y :: ys, sorted, x, hx => by
    rw [Dyn.insertAll] at hx
    rcases mem_insertAll x hx with hx | hx
    · rcases List.mem_append.mp hx with hx | hx
      · exact .inl (List.mem_of_mem_take hx)
      · rcases List.mem_cons.mp hx with rfl | hx
        · exact .inr List.mem_cons_self
        · exact .inl (List.mem_of_mem_drop hx)
    · exact .inr (List.mem_cons_of_mem y hx)

theorem mem_sortPartly {items : List (Dyn × α)} : ∀ x ∈ Dyn.sortPartly items, x ∈ items := by
  intro x hx
  rcases mem_insertAll x hx with hx | hx
  · split at hx
    · exact List.mem_of_mem_take (List.mem_reverse.mp hx)
    · exact List.mem_of_mem_take hx
  · exact List.mem_of_mem_drop hx

theorem mem_sortItems {items : List (Dyn × α)} : ∀ x ∈ Dyn.sortItems items, x ∈ items := by
  intro x hx
  unfold Dyn.sortItems at hx
  split at hx
  · exact mem_sortPartly x hx
  · exact List.mem_mergeSort.mp hx

/-- Sorting by keys gives items that were given, or tells that the keys have no order. -/
theorem sound_sortBy (name : String) (items : List (Dyn × α)) :
    Sound textless (fun xs => ∀ x ∈ xs, x ∈ items.map Prod.snd) (Dyn.sortBy name items) := by
  unfold Dyn.sortBy
  dsimp only
  split
  · intro x hx
    obtain ⟨p, hp, rfl⟩ := List.mem_map.mp hx
    exact List.mem_map_of_mem (mem_sortItems p hp)
  · exact trivial

end Sorting

theorem sound_sort (hv : v.HasType (.list e)) :
    Sound textless (Dyn.HasType · (.list e)) v.sort := by
  refine (sound_elements hv "sort" [v]).bind fun xs hxs => ?_
  refine (sound_sortBy "sort" _).bind fun ys hys => .list fun x hx => ?_
  have hmem := hys x hx
  rw [List.map_map] at hmem
  obtain ⟨y, hy, rfl⟩ := List.mem_map.mp hmem
  exact hxs y hy

/-! ### Optional values -/

theorem sound_orValue (hv : v.HasType (.optional e)) (hw : w.HasType e) :
    Sound textless (Dyn.HasType · e) (v.orValue w) := by
  cases hv with
  | none => exact hw
  | some hc => exact hc

theorem sound_hasValue (hv : v.HasType (.optional e)) :
    Sound textless (Dyn.HasType · .bool) v.hasValue := by
  cases hv <;> exact .bool _

theorem sound_value (hv : v.HasType (.optional e)) : Sound textless (Dyn.HasType · e) v.value := by
  cases hv with
  | none => exact trivial
  | some hc => exact hc

theorem sound_orElse (hv : v.HasType (.optional e)) (hw : w.HasType (.optional e)) :
    Sound textless (Dyn.HasType · (.optional e)) (v.orElse w) := by
  cases hv with
  | none => exact hw
  | some hc => exact .some hc

end LogStream.Filter
