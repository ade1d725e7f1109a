import Mathlib
import LogStream.Proofs.Filter.Application
import LogStream.Proofs.Filter.Scoping.Replacement
import LogStream.Proofs.Filter.Visits

/-! # The laws of walks

Where a predicate has a truth value for each item, each walk is what the functions on lists of its name make of
the items (`filtered_eq`, `reaches_eq`, `keyed_eq`). So the walks are related like these functions: by negation,
by the size of what is filtered, and by composition (`walk_laws`). Where a predicate has no truth value for some
items, a quantifier fails with the first of them unless an item in front decides (`reaches_of_failing`). -/

namespace LogStream.Filter

/-! ### Walks over lists -/

section Lists

variable {body : Dyn → Eval Dyn} {judge : Dyn → Bool} {items : List Dyn}

theorem filtered_eq (name : String) (h : ∀ v ∈ items, body v = .ok (.bool (judge v))) :
    filtered name body items = .ok (items.filter judge) := by
  induction items with
  | nil => rfl
  | cons v items ih =>
    obtain ⟨hv, hitems⟩ := List.forall_mem_cons.mp h
    rw [filtered, hv, ok_bind, Dyn.truth, ok_bind, ih hitems, List.filter_cons]
    cases judge v <;> rfl

theorem reaches_eq (name : String) (sought : Bool) (h : ∀ v ∈ items, body v = .ok (.bool (judge v))) :
    reaches name sought body items = .ok (items.any fun v => judge v == sought) := by
  induction items with
  | nil => rfl
  | cons v items ih =>
    obtain ⟨hv, hitems⟩ := List.forall_mem_cons.mp h
    rw [reaches, hv, ok_bind, Dyn.truth, ok_bind, ih hitems, List.any_cons]
    cases judge v <;> cases sought <;> rfl

theorem keyed_eq {give : Dyn → Dyn} (h : ∀ v ∈ items, body v = .ok (give v)) :
    keyed body items = .ok (items.map fun v => (give v, v)) := by
  induction items with
  | nil => rfl
  | cons v items ih =>
    obtain ⟨hv, hitems⟩ := List.forall_mem_cons.mp h
    rw [keyed, hv, ok_bind, ih hitems]
    rfl

/-- **The first item without a truth value fails**, unless an item in front of it is what is sought. -/
theorem reaches_of_failing (name : String) (sought : Bool) {front back : List Dyn} {v : Dyn}
    {f : EvalFailure} (h : ∀ u ∈ front, body u = .ok (.bool (judge u)))
    (hv : (body v >>= Dyn.truth name) = .error f) : reaches name sought body (front ++ v :: back) =
      if (front.any fun u => judge u == sought) then .ok true else .error f := by
  induction front with
  | nil =>
    have hfirst : reaches name sought body (v :: back) =
        (body v >>= Dyn.truth name) >>= fun b =>
          if b = sought then .ok true else reaches name sought body back := by
      rw [reaches]
      cases body v <;> rfl
    rw [List.nil_append, hfirst, hv]
    rfl
  | cons u front ih =>
    obtain ⟨hu, hfront⟩ := List.forall_mem_cons.mp h
    rw [List.cons_append, reaches, hu, ok_bind, Dyn.truth, ok_bind, ih hfront, List.any_cons]
    cases judge u <;> cases sought <;> rfl

end Lists

/-! ### Ranges and predicates -/

/-- What is walked over: the elements of a list, or the keys of a map. -/
inductive IsRange : Dyn → List Dyn → Prop
  | list (xs : List Dyn) : IsRange (.list xs) xs
  | map (es : List (Dyn × Dyn)) : IsRange (.map es) (es.map Prod.fst)

theorem IsRange.iterated {range : Dyn} {items : List Dyn} (h : IsRange range items) :
    iterated range = .ok items := by
  cases h <;> rfl

theorem IsRange.size {range : Dyn} {items : List Dyn} (h : IsRange range items) :
    range.size = .ok (.int items.length) := by
  cases h <;> simp [Dyn.size]

/-- The expression has a truth value for each item. -/
def IsPredicate (env : Activation) (x : Text) (items : List Dyn) (p : Expr) : Prop :=
  ∀ v ∈ items, ∃ b, eval ((x, v) :: env) p = .ok (.bool b)

/-- The truth value of an expression for an item. -/
def satisfies (env : Activation) (x : Text) (p : Expr) (v : Dyn) : Bool :=
  match eval ((x, v) :: env) p with
  | .ok (.bool b) => b
  | _ => false

/-- The expression has a value for each item. -/
def HasValues (env : Activation) (x : Text) (items : List Dyn) (f : Expr) : Prop :=
  ∀ v ∈ items, ∃ u, eval ((x, v) :: env) f = .ok u

/-- The value of an expression for an item. -/
def valueAt (env : Activation) (x : Text) (f : Expr) (v : Dyn) : Dyn :=
  match eval ((x, v) :: env) f with
  | .ok u => u
  | .error _ => .null

/-- What a walk takes from an expression for an item: a truth value, or else a failure. -/
def verdict (env : Activation) (kind : Walk) (x : Text) (p : Expr) (v : Dyn) : Eval Bool := do
  (← eval ((x, v) :: env) p).truth kind.name

/-- Both expressions have one value. -/
def SameValue (env : Activation) (a b : Expr) : Prop := ∃ v, eval env a = .ok v ∧ eval env b = .ok v

/-- The call of the size of a list or map. -/
def sizeCall (pos : Nat) (e : Expr) : Expr := .method pos (Text.lit "size") e []

section Evaluation

variable {env : Activation} {r p q f g : Expr} {x y : Text} {range : Dyn} {items : List Dyn}

theorem IsPredicate.eval_eq (h : IsPredicate env x items p) :
    ∀ v ∈ items, eval ((x, v) :: env) p = .ok (.bool (satisfies env x p v)) := by
  intro v hv
  obtain ⟨b, hb⟩ := h v hv
  rw [satisfies, hb]

theorem HasValues.eval_eq (h : HasValues env x items f) :
    ∀ v ∈ items, eval ((x, v) :: env) f = .ok (valueAt env x f v) := by
  intro v hv
  obtain ⟨u, hu⟩ := h v hv
  rw [valueAt, hu]

theorem satisfies_not (h : IsPredicate env x items p) (pos : Nat) : ∀ v ∈ items,
    eval ((x, v) :: env) (.unary pos .not p) = .ok (.bool (!satisfies env x p v)) := by
  intro v hv
  rw [eval, h.eval_eq v hv]
  rfl

theorem satisfies_and (hp : IsPredicate env x items p) (hq : IsPredicate env x items q) (pos : Nat) :
    ∀ v ∈ items, eval ((x, v) :: env) (.binary pos .and p q) =
      .ok (.bool (satisfies env x p v && satisfies env x q v)) := by
  intro v hv
  rw [eval, hp.eval_eq v hv, hq.eval_eq v hv]
  cases satisfies env x p v <;> rfl

/-- The value of a `bind` whose body does not know of the variable around it. -/
theorem eval_bind_of_not_mem (hx : x ∉ g.free) {u v : Dyn} (hf : eval ((x, v) :: env) f = .ok u)
    (pos : Nat) : eval ((x, v) :: env) (.bind pos y f g) = eval ((y, u) :: env) g := by
  rw [eval, hf, ok_bind]
  refine isLexical_eval.eq_of_free fun n hn => ?_
  have hne : n ≠ x := by
    rintro rfl
    exact hx hn
  rw [List.lookup_cons, List.lookup_cons, List.lookup_cons, beq_false_of_ne hne]

theorem eval_size {e : Expr} (h : eval env e = .ok range) (hrange : IsRange range items) (pos : Nat) :
    eval env (sizeCall pos e) = .ok (.int items.length) := by
  have hname : Builtin.member? (Text.lit "size") = some .size := by decide
  have happly : Builtin.apply .size [range] = .ok (.int items.length) := hrange.size
  rw [sizeCall, eval_method hname h evalAll_nil, happly]
  rfl

section Range

variable (hr : eval env r = .ok range) (hrange : IsRange range items)

include hr hrange

theorem eval_walk (pos : Nat) (kind : Walk) (x : Text) (p : Expr) :
    eval env (.walk pos kind r x p) = walk kind (fun v => eval ((x, v) :: env) p) items := by
  rw [eval, hr, ok_bind, hrange.iterated, ok_bind]

theorem eval_map {give : Dyn → Dyn} (hf : ∀ v ∈ items, eval ((x, v) :: env) f = .ok (give v))
    (pos : Nat) : eval env (.walk pos .map r x f) = .ok (.list (items.map give)) := by
  rw [eval_walk hr hrange, walk, keyed_eq hf, ok_bind, List.map_map]
  rfl

variable {judge : Dyn → Bool} (hp : ∀ v ∈ items, eval ((x, v) :: env) p = .ok (.bool (judge v)))

include hp

theorem eval_filter (pos : Nat) :
    eval env (.walk pos .filter r x p) = .ok (.list (items.filter judge)) := by
  rw [eval_walk hr hrange, walk, filtered_eq _ hp]
  rfl

theorem eval_all (pos : Nat) : eval env (.walk pos .all r x p) = .ok (.bool (items.all judge)) := by
  rw [eval_walk hr hrange, walk, reaches_eq _ _ hp, List.all_eq_not_any_not]
  simp

theorem eval_any (pos : Nat) : eval env (.walk pos .any r x p) = .ok (.bool (items.any judge)) := by
  rw [eval_walk hr hrange, walk, reaches_eq _ _ hp]
  simp

theorem eval_one (pos : Nat) :
    eval env (.walk pos .one r x p) = .ok (.bool ((items.filter judge).length == 1)) := by
  rw [eval_walk hr hrange, walk, filtered_eq _ hp]
  rfl

theorem eval_size_filter (pos pos' : Nat) :
    eval env (sizeCall pos (.walk pos' .filter r x p)) = .ok (.int (items.filter judge).length) :=
  eval_size (eval_filter hr hrange hp pos') (.list _) pos

end Range

theorem operate_eq_length (m n : Nat) :
    Dyn.operate .eq (.int m) (.int n) = .ok (.bool (m == n)) := by
  have hcompare : (some (Ord.compare (m : Int) n) == some .eq) = (m == n) := by
    rw [Bool.eq_iff_iff]
    simp
  exact congrArg (Except.ok ∘ Dyn.bool) hcompare

/-- Something is filtered just if the predicate holds of some item. -/
theorem operate_gt_zero (judge : Dyn → Bool) (items : List Dyn) :
    Dyn.operate .gt (.int (items.filter judge).length) (.int 0) = .ok (.bool (items.any judge)) := by
  have hcompare : (Ord.compare ((items.filter judge).length : Int) 0 == .gt) = items.any judge := by
    rw [Bool.eq_iff_iff, beq_iff_eq, compare_gt_iff_gt, Int.natCast_pos,
      List.length_filter_pos_iff, List.any_eq_true]
  exact congrArg (Except.ok ∘ Dyn.bool) hcompare

/-- All items are filtered just if the predicate holds of each. -/
theorem operate_eq_all (judge : Dyn → Bool) (items : List Dyn) :
    Dyn.operate .eq (.int (items.filter judge).length) (.int items.length) =
      .ok (.bool (items.all judge)) := by
  have hall : ((items.filter judge).length == items.length) = items.all judge := by
    rw [Bool.eq_iff_iff, beq_iff_eq, List.length_filter_eq_length_iff, List.all_eq_true]
  rw [operate_eq_length, hall]

/-! ### The laws -/

/-- **The laws of walks** over some items: quantifiers and what is filtered by predicates that have truth values
for all items, filtering and mapping twice, and quantifiers whose predicate fails. -/
structure WalkLaws (env : Activation) (r : Expr) (items : List Dyn) : Prop where
  all_eq_not_any {x : Text} {p : Expr} (hp : IsPredicate env x items p) (i j k l : Nat) :
    SameValue env (.walk i .all r x p) (.unary j .not (.walk k .any r x (.unary l .not p)))
  any_eq_filter {x : Text} {p : Expr} (hp : IsPredicate env x items p) (i j k l m : Nat) :
    SameValue env (.walk i .any r x p)
      (.binary j .gt (sizeCall k (.walk l .filter r x p)) (.literal m (.int 0)))
  one_eq_filter {x : Text} {p : Expr} (hp : IsPredicate env x items p) (i j k l m : Nat) :
    SameValue env (.walk i .one r x p)
      (.binary j .eq (sizeCall k (.walk l .filter r x p)) (.literal m (.int 1)))
  all_eq_filter {x : Text} {p : Expr} (hp : IsPredicate env x items p) (i j k l m : Nat) :
    SameValue env (.walk i .all r x p)
      (.binary j .eq (sizeCall k (.walk l .filter r x p)) (sizeCall m r))
  filter_filter {x : Text} {p q : Expr} (hp : IsPredicate env x items p)
    (hq : IsPredicate env x items q) (i j k l : Nat) :
    SameValue env (.walk i .filter (.walk j .filter r x p) x q) (.walk k .filter r x (.binary l .and p q))
  map_map {x y : Text} {f g : Expr} (hx : x ∉ g.free)
    (hf : HasValues env x items f) (hg : HasValues env y (items.map (valueAt env x f)) g)
    (i j k l : Nat) :
    SameValue env (.walk i .map (.walk j .map r x f) y g) (.walk k .map r x (.bind l y f g))
  all_of_failing {x : Text} {p : Expr} {front back : List Dyn} {v : Dyn} {e : EvalFailure}
    (hitems : items = front ++ v :: back) (hfront : IsPredicate env x front p)
    (hv : verdict env .all x p v = .error e) (i : Nat) : eval env (.walk i .all r x p) =
      if front.all (satisfies env x p) then .error e else .ok (.bool false)
  any_of_failing {x : Text} {p : Expr} {front back : List Dyn} {v : Dyn} {e : EvalFailure}
    (hitems : items = front ++ v :: back) (hfront : IsPredicate env x front p)
    (hv : verdict env .any x p v = .error e) (i : Nat) : eval env (.walk i .any r x p) =
      if front.any (satisfies env x p) then .ok (.bool true) else .error e

/-- **Walks obey their laws**, over every list and every map, whatever stands in their bodies. -/
theorem walk_laws (hr : eval env r = .ok range) (hrange : IsRange range items) : WalkLaws env r items where
  all_eq_not_any {x p} hp i j k l := by
    refine ⟨_, eval_all hr hrange hp.eval_eq i, ?_⟩
    rw [eval, eval_any hr hrange (satisfies_not hp l) k, List.all_eq_not_any_not]
    rfl
  any_eq_filter {x p} hp i j k l m := by
    refine ⟨_, eval_any hr hrange hp.eval_eq i, ?_⟩
    have hsize := eval_size_filter hr hrange hp.eval_eq k l
    have hzero : eval env (.literal m (.int 0)) = .ok (.int 0) := rfl
    rw [eval_operate (by decide) hsize hzero]
    exact operate_gt_zero _ items
  one_eq_filter {x p} hp i j k l m := by
    refine ⟨_, eval_one hr hrange hp.eval_eq i, ?_⟩
    have hsize := eval_size_filter hr hrange hp.eval_eq k l
    have hone : eval env (.literal m (.int 1)) = .ok (.int 1) := rfl
    rw [eval_operate (by decide) hsize hone]
    exact operate_eq_length _ 1
  all_eq_filter {x p} hp i j k l m := by
    refine ⟨_, eval_all hr hrange hp.eval_eq i, ?_⟩
    have hsize := eval_size_filter hr hrange hp.eval_eq k l
    rw [eval_operate (by decide) hsize (eval_size hr hrange m)]
    exact operate_eq_all _ items
  filter_filter {x p q} hp hq i j k l := by
    refine ⟨_, ?_, eval_filter hr hrange (satisfies_and hp hq l) k⟩
    have hq' : ∀ v ∈ items.filter (satisfies env x p),
        eval ((x, v) :: env) q = .ok (.bool (satisfies env x q v)) :=
      fun v hv => hq.eval_eq v (List.mem_of_mem_filter hv)
    rw [eval_filter (eval_filter hr hrange hp.eval_eq j) (.list _) hq', List.filter_filter]
    simp only [Bool.and_comm]
  map_map {x y f g} hx hf hg i j k l := by
    refine ⟨_, eval_map (eval_map hr hrange hf.eval_eq j) (.list _) hg.eval_eq i, ?_⟩
    have hbody : ∀ v ∈ items, eval ((x, v) :: env) (.bind l y f g) =
        .ok (valueAt env y g (valueAt env x f v)) := by
      intro v hv
      rw [eval_bind_of_not_mem hx (hf.eval_eq v hv), hg.eval_eq _ (List.mem_map_of_mem hv)]
    rw [eval_map hr hrange hbody, List.map_map]
    rfl
  all_of_failing {x p front back v e} hitems hfront hv i := by
    have hv' : (eval ((x, v) :: env) p >>= Dyn.truth "all") = .error e := hv
    rw [eval_walk hr hrange, hitems, walk, reaches_of_failing "all" false hfront.eval_eq hv',
      List.all_eq_not_any_not]
    simp only [beq_false]
    cases front.any fun u => !satisfies env x p u <;> rfl
  any_of_failing {x p front back v e} hitems hfront hv i := by
    have hv' : (eval ((x, v) :: env) p >>= Dyn.truth "exists") = .error e := hv
    rw [eval_walk hr hrange, hitems, walk, reaches_of_failing "exists" true hfront.eval_eq hv']
    simp only [beq_true]
    cases front.any fun u => satisfies env x p u <;> rfl

end Evaluation

/-! ### A list of mixed types -/

/-- The list `[1, 'a']`. -/
def mixedList : Expr := .list 0 [.literal 1 (.int 1), .literal 4 (.string (Text.lit "a"))]

/-- `v > 0`, which has no truth value for a string. -/
def isPositive : Expr := .binary 0 .gt (.ident 0 (Text.lit "v")) (.literal 0 (.int 0))

/-- `v == 1`, which has a truth value for each value. -/
def isOne : Expr := .binary 0 .eq (.ident 0 (Text.lit "v")) (.literal 0 (.int 1))

theorem walk_laws_mixedList :
    SameValue [] (.walk 0 .all mixedList (Text.lit "v") isOne)
        (.unary 0 .not (.walk 0 .any mixedList (Text.lit "v") (.unary 0 .not isOne))) ∧
      eval [] (.walk 0 .any mixedList (Text.lit "v") isPositive) = .ok (.bool true) ∧
      (eval [] (.walk 0 .all mixedList (Text.lit "v") isPositive)).isOk = false := by
  have hlaws : WalkLaws [] mixedList [.int 1, .string (Text.lit "a")] := walk_laws rfl (.list _)
  have hone : IsPredicate [] (Text.lit "v") [.int 1, .string (Text.lit "a")] isOne :=
    List.forall_mem_cons.mpr ⟨⟨true, rfl⟩, List.forall_mem_singleton.mpr ⟨false, rfl⟩⟩
  have hfront : IsPredicate [] (Text.lit "v") [.int 1] isPositive :=
    List.forall_mem_singleton.mpr ⟨true, rfl⟩
  refine ⟨hlaws.all_eq_not_any hone 0 0 0 0, ?_, ?_⟩
  · rw [hlaws.any_of_failing rfl hfront rfl]
    rfl
  · rw [hlaws.all_of_failing rfl hfront rfl]
    rfl

end LogStream.Filter
