import LogStream.Proofs.Filter.Typing.Basic

/-! # Operators on typed values

Each operator gives a value of the type that its rule gives, or fails as its operands may make it:
selection and indexing (`sound_select`, `sound_index`), prefix operators (`sound_negate`) and
operators between two operands (`sound_operate`). -/

namespace LogStream.Filter

open Eval (Sound sound_failShowing)

variable {textless : String → Prop} {v w : Dyn} {a b t : Ty}

/-! ### Keys -/

/-- A value of a type that keys may have can be a key. -/
theorem isHashable_of_hasType (hk : t.isKey = true) (hv : v.HasType t) : v.isHashable = true := by
  cases hv with
  | bool => rfl
  | int => rfl
  | uint => rfl
  | string => rfl
  | _ => cases hk

theorem mem_of_lookup? {key : Dyn} {es : List (Dyn × Dyn)} (h : Dyn.lookup? key es = some w) :
    ∃ e ∈ es, e.2 = w := by
  obtain ⟨e, he, hw⟩ := Option.map_eq_some_iff.mp h
  exact ⟨e, List.mem_of_find?_eq_some he, hw⟩

theorem mem_of_contentAt? {key : Dyn} {es : List (Dyn × Dyn)}
    (h : Dyn.contentAt? key es = some w) : ∃ e ∈ es, e.2 = w := by
  unfold Dyn.contentAt? at h
  split at h
  · obtain ⟨e, he, hw⟩ := Option.map_eq_some_iff.mp h
    exact ⟨e, List.mem_of_find?_eq_some he, hw⟩
  · exact mem_of_lookup? h

/-! ### Fields and elements -/

/-- What a field or an index leads to has the type that its rule gives, if it is there. -/
theorem sound_field? {pos : Nat} (hv : v.HasType t) (h : fieldType pos t = .ok a) (field : Text) :
    Sound textless (fun c => ∀ x ∈ c, x.HasType a) (v.field? field) := by
  cases hv with
  | map hk hkeys hcontents =>
    rw [fieldType] at h
    split at h
    · cases h
      intro x hx
      obtain ⟨e, he, rfl⟩ := mem_of_lookup? hx
      exact hcontents e he
    · cases h
  | _ => cases h

theorem sound_element? {pos : Nat} {key : Dyn} {k : Ty} (ht : t.isStatic = true)
    (hk : k.isStatic = true) (hv : v.HasType t) (hkey : key.HasType k)
    (h : elementType pos t k = .ok a) :
    Sound textless (fun c => ∀ x ∈ c, x.HasType a) (v.element? key) := by
  cases hv with
  | @list xs e hxs =>
    have hitem : ∀ i : Int, ∀ x ∈ (if 0 ≤ i then xs[i.toNat]? else none), x.HasType e := by
      intro i x hx
      split at hx
      · exact hxs x (List.mem_of_getElem? hx)
      · cases hx
    unfold elementType at h
    dsimp only at h
    split at h
    · next hint =>
      cases h
      rcases hint with rfl | rfl | rfl
      · cases hkey
        exact hitem _
      · cases hkey
        exact hitem _
      · cases hk
    · cases h
  | @map es l c hl hkeys hcontents =>
    unfold elementType at h
    dsimp only at h
    split at h
    · next hassign =>
      cases h
      cases Ty.eq_of_assignable hk (Bool.and_eq_true_iff.mp ht).1 hassign
      unfold Dyn.element?
      dsimp only
      rw [if_pos (isHashable_of_hasType hl hkey)]
      intro x hx
      obtain ⟨e, he, rfl⟩ := mem_of_contentAt? hx
      exact hcontents e he
    · cases h
  | _ => cases h

/-- What is looked up in a value, or in the content of an optional one, as an optional value. -/
def lenient (get : Dyn → Eval (Option Dyn)) (v : Dyn) : Eval Dyn :=
  match v.unwrapped? with
  | none => .ok (.optional none)
  | some w => (get w).map .optional

theorem isOptional_eq_false (ht : ∀ e, t ≠ .optional e) (hv : v.HasType t) :
    v.isOptional = false := by
  cases hv with
  | none e => exact absurd rfl (ht e)
  | some => exact absurd rfl (ht _)
  | _ => rfl

theorem lenient_of_not_optional (get : Dyn → Eval (Option Dyn)) (h : v.isOptional = false) :
    lenient get v = (get v).map .optional := by
  cases v with
  | optional => cases h
  | _ => rfl

theorem selectionType_of_ne {access : Ty → Except CompileError Ty} {l : Bool}
    (ht : ∀ e, t ≠ .optional e) :
    selectionType access l t = (access t).map fun r => if l then .optional r else r := by
  cases t with
  | optional e => exact absurd rfl (ht e)
  | _ => rfl

section Selection

variable {get : Dyn → Eval (Option Dyn)} {access : Ty → Except CompileError Ty}
  (hget : ∀ {w : Dyn} {t a : Ty}, t.isStatic = true → w.HasType t → access t = .ok a →
    Sound textless (fun c => ∀ x ∈ c, x.HasType a) (get w))

include hget

theorem sound_lenient_optional {e : Ty} (he : e.isStatic = true) (hv : v.HasType (.optional e))
    (h : (access e).map .optional = .ok a) : Sound textless (Dyn.HasType · a) (lenient get v) := by
  obtain ⟨r, hr, rfl⟩ := exists_of_map_eq_ok h
  cases hv with
  | none => exact .none r
  | some hw => exact (hget he hw hr).map fun _ hc => .optional hc

/-- A lenient access gives an optional value of the type that its rule gives. -/
theorem sound_lenient (ht : t.isStatic = true) (hv : v.HasType t)
    (h : selectionType access true t = .ok a) :
    Sound textless (Dyn.HasType · a) (lenient get v) := by
  by_cases hopt : ∃ e, t = .optional e
  · obtain ⟨e, rfl⟩ := hopt
    exact sound_lenient_optional (e := e) hget ht hv h
  · have hne : ∀ e, t ≠ .optional e := fun e he => hopt ⟨e, he⟩
    rw [selectionType_of_ne hne] at h
    obtain ⟨r, hr, rfl⟩ := exists_of_map_eq_ok h
    rw [lenient_of_not_optional get (isOptional_eq_false hne hv)]
    exact (hget ht hv hr).map fun _ hc => .optional hc

/-- An access that is not lenient gives a value of the type that its rule gives; it fails where
there is nothing. -/
theorem sound_plain {missing : Eval Dyn} (hmissing : Sound textless (Dyn.HasType · a) missing)
    (ht : t.isStatic = true) (hv : v.HasType t) (h : selectionType access false t = .ok a) :
    Sound textless (Dyn.HasType · a)
      (if v.isOptional then lenient get v else (get v).bind (·.elim missing .ok)) := by
  by_cases hopt : ∃ e, t = .optional e
  · obtain ⟨e, rfl⟩ := hopt
    have hv' : v.isOptional = true := by cases hv <;> rfl
    rw [if_pos hv']
    exact sound_lenient_optional (e := e) hget ht hv h
  · have hne : ∀ e, t ≠ .optional e := fun e he => hopt ⟨e, he⟩
    rw [selectionType_of_ne hne] at h
    obtain ⟨r, hr, rfl⟩ := exists_of_map_eq_ok h
    rw [isOptional_eq_false hne hv, if_neg Bool.false_ne_true]
    exact (hget ht hv hr).bind fun c hc => Sound.elim hmissing fun x hx => hc x hx

end Selection

theorem select_eq (v : Dyn) (field : Text) : v.select field =
    if v.isOptional then lenient (·.field? field) v
    else (v.field? field).bind (·.elim (Eval.fail (.noSuchKey field)) .ok) := by
  unfold Dyn.select
  refine congrArg (ite _ _) (congrArg (Except.bind _) (funext fun c => ?_))
  cases c <;> rfl

/-- **A selection gives a value of the type of the field.** -/
theorem sound_select {pos : Nat} {l : Bool} (ht : t.isStatic = true) (hv : v.HasType t)
    (h : selectionType (fieldType pos) l t = .ok a) (field : Text) :
    Sound textless (Dyn.HasType · a) (if l then v.selectLenient field else v.select field) := by
  have hget : ∀ {w : Dyn} {t a : Ty}, t.isStatic = true → w.HasType t → fieldType pos t = .ok a →
      Sound textless (fun c => ∀ x ∈ c, x.HasType a) (w.field? field) :=
    fun _ hw hr => sound_field? hw hr field
  cases l with
  | true => exact sound_lenient hget ht hv h
  | false =>
    rw [if_neg Bool.false_ne_true, select_eq]
    exact sound_plain hget trivial ht hv h

/-- The error of an index that leads to nothing. -/
def missingAt (v key : Dyn) : Eval Dyn :=
  match v with
  | .list _ => Eval.failShowing key (.indexOutOfBounds key.display)
  | _ => Eval.failShowing key (.noSuchKey key.display)

theorem index_eq (v key : Dyn) : v.index key =
    if v.isOptional then lenient (·.element? key) v
    else (v.element? key).bind (·.elim (missingAt v key) .ok) := by
  unfold Dyn.index
  refine congrArg (ite _ _) (congrArg (Except.bind _) (funext fun c => ?_))
  cases c with
  | none => cases v <;> rfl
  | some w => rfl

/-- **An index leads to a value of the type of the elements.** -/
theorem sound_index {pos : Nat} {l : Bool} {key : Dyn} {k : Ty} (ht : t.isStatic = true)
    (hk : k.isStatic = true) (hv : v.HasType t) (hkey : key.HasType k)
    (h : selectionType (fun t => elementType pos t k) l t = .ok a) :
    Sound textless (Dyn.HasType · a) (if l then v.indexLenient key else v.index key) := by
  have hget : ∀ {w : Dyn} {t a : Ty}, t.isStatic = true → w.HasType t →
      elementType pos t k = .ok a →
      Sound textless (fun c => ∀ x ∈ c, x.HasType a) (w.element? key) :=
    fun ht hw hr => sound_element? ht hk hw hkey hr
  have hmissing : Sound textless (Dyn.HasType · a) (missingAt v key) := by
    unfold missingAt
    split
    · exact sound_failShowing key trivial
    · exact sound_failShowing key trivial
  cases l with
  | true => exact sound_lenient hget ht hv h
  | false =>
    rw [if_neg Bool.false_ne_true, index_eq]
    exact sound_plain hget hmissing ht hv h

/-- Whether a map has a field. -/
theorem sound_hasField {k c : Ty} (hv : v.HasType (.map k c)) (field : Text) :
    Sound textless (Dyn.HasType · .bool) (v.hasField field) := by
  cases hv
  exact .bool _

/-! ### Arithmetic -/

theorem sound_checked (n : Int) (ht : (Dyn.int n).HasType t) :
    Sound textless (Dyn.HasType · t) (Dyn.checked n) := by
  unfold Dyn.checked
  split
  · exact ht
  · exact trivial

theorem sound_orOverflow {α : Type} {name : String} {make : α → Dyn} {o : Option α}
    (h : ∀ x, o = some x → (make x).HasType t) :
    Sound textless (Dyn.HasType · t) (Dyn.orOverflow name make o) := by
  cases o with
  | none => exact trivial
  | some x => exact h x rfl

theorem offset_of_ofWall? {n : Int} {o : Option Int} {u : Time} (h : Time.ofWall? n o = some u) :
    u.offset = o := by
  unfold Time.ofWall? at h
  split at h
  · split at h
    · cases h
      rfl
    · cases h
  · cases h

/-- A time moved by a duration keeps its offset. -/
theorem hasType_of_ofWall? {n : Int} {o : Option Int} (ho : o.isSome = true) {u : Time}
    (h : Time.ofWall? n o = some u) : (Dyn.timestamp u).HasType .timestamp :=
  .timestamp (by rw [offset_of_ofWall? h, ho])

theorem sound_quotient {m n : Int} {e : EvalError}
    (he : EvalFailure.Excused textless (.error e)) (ht : (Dyn.int n).HasType t) :
    Sound textless (Dyn.HasType · t) (if m = 0 then Eval.fail e else Dyn.checked n) := by
  split
  · exact he
  · exact sound_checked n ht

/-- Two lists joined have elements of the type that both have. -/
theorem hasType_append {xs ys : List Dyn} (ht : (Ty.join [a, b]).isStatic = true)
    (hx : ∀ x ∈ xs, x.HasType a) (hy : ∀ y ∈ ys, y.HasType b) :
    (Dyn.list (xs ++ ys)).HasType (.list (.join [a, b])) := by
  have hjoin := Ty.eq_join ht
  have ha : a = .join [a, b] := hjoin a (by simp)
  have hb : b = .join [a, b] := hjoin b (by simp)
  refine .list fun x hmem => ?_
  rcases List.mem_append.mp hmem with hmem | hmem
  · exact ha ▸ hx x hmem
  · exact hb ▸ hy x hmem

/-- **An arithmetic operator gives a value of the type that its rule gives.** -/
theorem sound_arithmetic {op : BinaryOp} (hv : v.HasType a) (hw : w.HasType b)
    (ht : t.isStatic = true) (h : arithmeticType? op a b = some t) :
    Sound textless (Dyn.HasType · t) (Dyn.arithmetic op v w) := by
  unfold arithmeticType? at h
  split at h <;> cases h <;> cases hv <;> cases hw
  -- Sums.
  · exact sound_checked _ (.int _)
  · exact sound_checked _ (.uint _)
  · exact .double _
  · exact .string _
  · exact .bytes _
  · next hx _ hy => exact hasType_append ht hx hy
  · next hu _ => exact sound_orOverflow fun _ => hasType_of_ofWall? hu
  · next hu => exact sound_orOverflow fun _ => hasType_of_ofWall? hu
  · exact sound_orOverflow fun _ _ => .duration _
  -- Differences.
  · exact sound_checked _ (.int _)
  · exact sound_checked _ (.uint _)
  · exact .double _
  · exact sound_orOverflow fun _ _ => .duration _
  · next hu _ => exact sound_orOverflow fun _ => hasType_of_ofWall? hu
  · exact sound_orOverflow fun _ _ => .duration _
  -- Products.
  · exact sound_checked _ (.int _)
  · exact sound_checked _ (.uint _)
  · exact .double _
  -- Quotients and remainders.
  · exact sound_quotient trivial (.int _)
  · exact sound_quotient trivial (.uint _)
  · exact .double _
  · exact sound_quotient trivial (.int _)
  · exact sound_quotient trivial (.uint _)

/-- The negation of a number or of a duration. -/
theorem sound_negate (hv : v.HasType a) (ha : a.isStatic = true) (h : unaryType? .neg a = some t) :
    Sound textless (Dyn.HasType · t) v.negate := by
  cases hv with
  | int n =>
    cases h
    exact sound_checked _ (.int _)
  | double x =>
    cases h
    exact .double _
  | duration d =>
    cases h
    exact Sound.elim trivial fun _ _ => .duration _
  | _ => cases h

/-! ### Comparison and membership -/

theorem sound_truth (hv : v.HasType .bool) (name : String) :
    Sound textless (fun _ => True) (Dyn.truth name v) := by
  cases hv
  exact trivial

/-- Values of one ordered type are compared. -/
theorem exists_compare? (hv : v.HasType t) (hw : w.HasType t) (ht : t.isOrdered = true) :
    ∃ o, Dyn.compare? v w = some o := by
  cases hv <;> cases hw <;> first | exact ⟨_, rfl⟩ | cases ht

theorem eq_of_mutuallyOrdered (ha : a.isStatic = true) (hb : b.isStatic = true)
    (h : mutuallyOrdered a b = true) : a = b ∧ a.isOrdered = true := by
  simp only [mutuallyOrdered, Bool.or_eq_true, decide_eq_true_eq, Ty.ne_dyn ha, Ty.ne_dyn hb,
    false_or, Bool.and_eq_true] at h
  exact h

theorem sound_compare {op : BinaryOp} (hv : v.HasType a) (hw : w.HasType b)
    (ha : a.isStatic = true) (hb : b.isStatic = true) (h : mutuallyOrdered a b = true) :
    Sound textless (Dyn.HasType · .bool) (Dyn.compare op v w) := by
  obtain ⟨rfl, hordered⟩ := eq_of_mutuallyOrdered ha hb h
  obtain ⟨o, ho⟩ := exists_compare? hv hw hordered
  unfold Dyn.compare
  rw [ho]
  exact .bool _

theorem sound_isIn (hw : w.HasType b) (h : mayContain a b = true) (v : Dyn) :
    Sound textless (Dyn.HasType · .bool) (v.isIn w) := by
  cases hw with
  | list => exact .bool _
  | map => exact .bool _
  | _ => cases h

/-- The rule of a relation gives the truth type. -/
theorem eq_bool_of_truth {holds : Bool} (h : (if holds then some Ty.bool else none) = some t) :
    holds = true ∧ t = .bool := by
  split at h
  · next hh =>
    cases h
    exact ⟨hh, rfl⟩
  · cases h

theorem arithmeticType?_of_static {op : BinaryOp} (ha : a.isStatic = true) (hb : b.isStatic = true)
    (h : (if a = .dyn ∨ b = .dyn then some .dyn else arithmeticType? op a b) = some t) :
    arithmeticType? op a b = some t := by
  rwa [if_neg (by simp [Ty.ne_dyn ha, Ty.ne_dyn hb])] at h

/-- **An operator that takes both operands gives a value of the type that its rule gives.** -/
theorem sound_operate {op : BinaryOp} (hor : op ≠ .or) (hand : op ≠ .and) (hv : v.HasType a)
    (hw : w.HasType b) (ha : a.isStatic = true) (hb : b.isStatic = true) (ht : t.isStatic = true)
    (h : binaryType? op a b = some t) : Sound textless (Dyn.HasType · t) (Dyn.operate op v w) := by
  cases op with
  | or => exact absurd rfl hor
  | and => exact absurd rfl hand
  | eq | ne =>
    obtain ⟨-, rfl⟩ := eq_bool_of_truth h
    exact .bool _
  | lt | le | gt | ge =>
    obtain ⟨hordered, rfl⟩ := eq_bool_of_truth h
    exact sound_compare hv hw ha hb hordered
  | mem =>
    obtain ⟨hmember, rfl⟩ := eq_bool_of_truth h
    exact sound_isIn hw hmember v
  | add | sub | mul | div | mod =>
    exact sound_arithmetic hv hw ht (arithmeticType?_of_static ha hb h)

end LogStream.Filter
