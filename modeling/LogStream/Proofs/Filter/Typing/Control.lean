import LogStream.Filter.Checker
import LogStream.Filter.Evaluator
import LogStream.Proofs.Filter.Typing.Calls

/-! # Logical operators, walks and entries over typed values

What an evaluation does with the outcomes of its parts: it is sound if the parts are. A walk
evaluates its body for item after item, so its lemmas go along the items. -/

namespace LogStream.Filter

open Eval (Sound sound_failShowing)

variable {textless : String → Prop} {v : Dyn} {a b t k c : Ty}

/-! ### Calls and logical operators -/

/-- A sound call has no fault about types, so none becomes an error of the call. -/
theorem sound_called {x : Eval Dyn} (function : Text) (hx : Sound textless (Dyn.HasType · t) x) :
    Sound textless (Dyn.HasType · t) (called function x) := by
  unfold called
  split
  · exact absurd hx id
  · exact hx

theorem sound_logical {op : BinaryOp} {left right : Eval Dyn}
    (hleft : Sound textless (Dyn.HasType · .bool) left)
    (hright : Sound textless (Dyn.HasType · .bool) right) :
    Sound textless (Dyn.HasType · .bool) (logical op left fun _ => right) := by
  have hfirst : Sound textless (fun _ => True) (left >>= Dyn.truth s!"_{op.symbol}_") :=
    hleft.bind fun v hv => sound_truth hv _
  have hsecond : ∀ g : Bool → Eval Dyn, (∀ b, Sound textless (Dyn.HasType · .bool) (g b)) →
      Sound textless (Dyn.HasType · .bool)
        (right >>= fun v => Dyn.truth s!"_{op.symbol}_" v >>= g) :=
    fun g hg => hright.bind fun v hv => (sound_truth hv _).bind fun b _ => hg b
  unfold logical
  dsimp only
  split
  · next hf => exact hfirst.excused hf
  · next e he =>
    refine hsecond _ fun b => ?_
    split
    · exact .bool _
    · exact hfirst.excused he
  · split
    · exact .bool _
    · exact hsecond _ fun b => .bool b

/-! ### Walks -/

/-- What a walk over a value of a type goes through has the type of its variable. -/
theorem sound_iterated {pos : Nat} (hv : v.HasType t) (h : rangeElem pos t = .ok a) :
    Sound textless (fun items => ∀ x ∈ items, x.HasType a) (iterated v) := by
  cases hv with
  | list hxs =>
    cases h
    exact hxs
  | map _ hkeys =>
    cases h
    intro x hx
    obtain ⟨e, he, rfl⟩ := List.mem_map.mp hx
    exact hkeys e he
  | _ => cases h

section Walks

variable {body : Dyn → Eval Dyn}

theorem sound_keyed : ∀ {items : List Dyn},
    (∀ x ∈ items, Sound textless (Dyn.HasType · b) (body x)) →
    Sound textless (fun r => ∀ p ∈ r, p.1.HasType b ∧ p.2 ∈ items) (keyed body items)
  | [], _ => List.forall_mem_nil _
  | x :: xs, h => by
    obtain ⟨hx, hxs⟩ := List.forall_mem_cons.mp h
    refine hx.bind fun key hkey => (sound_keyed hxs).bind fun r hr => ?_
    refine List.forall_mem_cons.mpr ⟨⟨hkey, List.mem_cons_self⟩, fun p hp => ?_⟩
    exact ⟨(hr p hp).1, List.mem_cons_of_mem x (hr p hp).2⟩

theorem sound_filtered (name : String) : ∀ {items : List Dyn},
    (∀ x ∈ items, Sound textless (Dyn.HasType · .bool) (body x)) →
    Sound textless (fun r => ∀ x ∈ r, x ∈ items) (filtered name body items)
  | [], _ => List.forall_mem_nil _
  | x :: xs, h => by
    obtain ⟨hx, hxs⟩ := List.forall_mem_cons.mp h
    refine hx.bind fun v hv => (sound_truth hv name).bind fun b _ => ?_
    refine (sound_filtered name hxs).bind fun r hr => ?_
    have htail : ∀ y ∈ r, y ∈ x :: xs := fun y hy => List.mem_cons_of_mem x (hr y hy)
    split
    · exact List.forall_mem_cons.mpr ⟨List.mem_cons_self, htail⟩
    · exact htail

theorem sound_reaches (name : String) (sought : Bool) : ∀ {items : List Dyn},
    (∀ x ∈ items, Sound textless (Dyn.HasType · .bool) (body x)) →
    Sound textless (fun _ => True) (reaches name sought body items)
  | [], _ => trivial
  | x :: xs, h => by
    obtain ⟨hx, hxs⟩ := List.forall_mem_cons.mp h
    refine hx.bind fun v hv => (sound_truth hv name).bind fun b _ => ?_
    split
    · exact trivial
    · exact sound_reaches name sought hxs

/-- A predicate of static type has the truth type. -/
theorem eq_bool_of_predicate {pos : Nat} {kind : Walk} {r : Ty} (hb : b.isStatic = true)
    (h : (if b.assignable .bool then Except.ok r
      else .error (CompileError.at pos (.badPredicate kind.name b))) = .ok t) :
    b = .bool ∧ t = r := by
  split at h
  · next hassign =>
    cases h
    exact ⟨Ty.eq_of_assignable hb rfl hassign, rfl⟩
  · cases h

/-- **A walk gives a value of the type that its rule gives.** -/
theorem sound_walk {pos : Nat} {kind : Walk} {items : List Dyn} (hitems : ∀ x ∈ items, x.HasType a)
    (hb : b.isStatic = true) (hbody : ∀ x ∈ items, Sound textless (Dyn.HasType · b) (body x))
    (h : walkType pos kind a b = .ok t) :
    Sound textless (Dyn.HasType · t) (walk kind body items) := by
  cases kind with
  | map =>
    cases h
    refine (sound_keyed hbody).bind fun r hr => .list fun x hx => ?_
    obtain ⟨p, hp, rfl⟩ := List.mem_map.mp hx
    exact (hr p hp).1
  | sortBy =>
    unfold walkType at h
    dsimp only at h
    split at h
    · cases h
      refine (sound_keyed hbody).bind fun r hr => ?_
      refine (sound_sortBy "sortBy" r).bind fun xs hxs => .list fun x hx => ?_
      obtain ⟨p, hp, rfl⟩ := List.mem_map.mp (hxs x hx)
      exact hitems p.2 (hr p hp).2
    · cases h
  | filter =>
    obtain ⟨rfl, rfl⟩ := eq_bool_of_predicate hb h
    exact (sound_filtered "filter" hbody).bind fun r hr => .list fun x hx => hitems x (hr x hx)
  | all =>
    obtain ⟨rfl, rfl⟩ := eq_bool_of_predicate hb h
    exact (sound_reaches "all" false hbody).bind fun _ _ => .bool _
  | any =>
    obtain ⟨rfl, rfl⟩ := eq_bool_of_predicate hb h
    exact (sound_reaches "exists" true hbody).bind fun _ _ => .bool _
  | one =>
    obtain ⟨rfl, rfl⟩ := eq_bool_of_predicate hb h
    exact (sound_filtered "exists_one" hbody).bind fun _ _ => .bool _

end Walks

/-! ### Entries -/

/-- The entries have keys of one type and contents of another. -/
def EntriesHaveTypes (k c : Ty) (es : List (Dyn × Dyn)) : Prop :=
  ∀ e ∈ es, e.1.HasType k ∧ e.2.HasType c

theorem sound_addEntry {done : List (Dyn × Dyn)} {content : Eval Dyn}
    (hdone : EntriesHaveTypes k c done) (hk : k.isKey = true) (hv : v.HasType k)
    (hcontent : Sound textless (Dyn.HasType · c) content) :
    Sound textless (EntriesHaveTypes k c) (addEntry done v content) := by
  unfold addEntry
  rw [isHashable_of_hasType hk hv, Bool.not_true, if_neg Bool.false_ne_true]
  split
  · exact sound_failShowing v trivial
  · refine hcontent.bind fun x hx => ?_
    intro e he
    rcases List.mem_append.mp he with he | he
    · exact hdone e he
    · obtain rfl := List.mem_singleton.mp he
      exact ⟨hv, hx⟩

end LogStream.Filter
