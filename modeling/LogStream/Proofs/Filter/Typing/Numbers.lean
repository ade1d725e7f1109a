import LogStream.Filter.Math
import LogStream.Proofs.Filter.Typing.Operators
import LogStream.Proofs.Filter.Typing.Strings

/-! # Functions on typed numbers

The functions on numbers give numbers of the type of their arguments or of a fixed one. The greatest
and the least of some numbers are among them (`bestOf_mem`). -/

namespace LogStream.Filter

open Eval (Sound sound_failShowing)

variable {textless : String → Prop} {v w : Dyn} {a b t : Ty}

/-! ### Any numbers -/

theorem isNumber_of_hasType (hv : v.HasType t) (ht : t.isNumeric = true) : v.isNumber = true := by
  cases hv with
  | int => rfl
  | uint => rfl
  | double => rfl
  | _ => cases ht

theorem numbers_eq (name : String) {args : List Dyn} (h : ∀ xs, args ≠ [.list xs]) :
    Dyn.numbers name args =
      if args = [] then Eval.fail (.noArguments name)
      else if args.all Dyn.isNumber then .ok args
      else Eval.noOverload name args := by
  match args, h with
  | [], _ => rfl
  | [v], h =>
    cases v with
    | list xs => exact absurd rfl (h xs)
    | _ => rfl
  | v :: _ :: _, _ => cases v <;> rfl

/-- Numbers of one type are taken as they are. -/
theorem sound_numbers {vs : List Dyn} (hvs : ∀ v ∈ vs, v.HasType t) (ht : t.isNumeric = true)
    (name : String) : Sound textless (fun xs => xs = vs ∧ xs ≠ []) (Dyn.numbers name vs) := by
  have hlist : ∀ xs, vs ≠ [.list xs] := by
    rintro xs rfl
    have hxs := isNumber_of_hasType (hvs _ List.mem_cons_self) ht
    cases hxs
  have hall : vs.all Dyn.isNumber = true :=
    List.all_eq_true.mpr fun v hv => isNumber_of_hasType (hvs v hv) ht
  rw [numbers_eq name hlist]
  split
  · exact trivial
  · next hne => exact ⟨rfl, hne⟩

/-- The elements of a list of numbers are taken. -/
theorem sound_numbers_list {xs : List Dyn} (hxs : ∀ x ∈ xs, x.HasType t) (ht : t.isNumeric = true)
    (name : String) :
    Sound textless (fun ys => ys = xs ∧ ys ≠ []) (Dyn.numbers name [.list xs]) := by
  have hall : xs.all Dyn.isNumber = true :=
    List.all_eq_true.mpr fun x hx => isNumber_of_hasType (hxs x hx) ht
  unfold Dyn.numbers
  dsimp only
  split
  · exact trivial
  · next hne => exact ⟨rfl, hne⟩

theorem foldl_mem {f : Dyn → Dyn → Dyn} (hf : ∀ x y, f x y = x ∨ f x y = y) :
    ∀ (vs : List Dyn) (x : Dyn), vs.foldl f x = x ∨ vs.foldl f x ∈ vs
  | [], x => .inl rfl
  | v :: vs, x => by
    rw [List.foldl_cons]
    rcases foldl_mem hf vs (f x v) with h | h
    · rw [h]
      rcases hf x v with hx | hx
      · exact .inl hx
      · exact .inr (hx.symm ▸ List.mem_cons_self)
    · exact .inr (List.mem_cons_of_mem v h)

/-- The best of some values is one of them. -/
theorem bestOf_mem (better : Dyn → Dyn → Bool) {vs : List Dyn} (h : vs ≠ []) :
    Dyn.bestOf better vs ∈ vs := by
  cases vs with
  | nil => exact absurd rfl h
  | cons v vs =>
    have hstep : ∀ x y : Dyn,
        (if better y x then y else x) = x ∨ (if better y x then y else x) = y :=
      fun x y => by split <;> simp
    rcases foldl_mem hstep vs v with hbest | hbest
    · rw [Dyn.bestOf, hbest]
      exact List.mem_cons_self
    · exact List.mem_cons_of_mem v hbest

/-- A type that may be compared and says all is one of numbers. -/
theorem isNumeric_of_static (ha : a.isStatic = true) (h : (a.isNumeric || a = .dyn) = true) :
    a.isNumeric = true := by
  simpa [Ty.ne_dyn ha] using h

theorem extremum_list {e : Ty} (h : Builtin.extremum [.list e] = some t) (ht : t.isStatic = true) :
    t = e ∧ e.isNumeric = true := by
  unfold Builtin.extremum at h
  dsimp only at h
  split at h
  · next hall =>
    cases h
    have hnum : (e.isNumeric || e = .dyn) = true := by simpa using hall
    exact ⟨rfl, isNumeric_of_static ht hnum⟩
  · cases h

theorem extremum_eq {ts : List Ty} (h : ∀ e, ts ≠ [.list e]) :
    Builtin.extremum ts =
      if ts ≠ [] ∧ ts.all (fun a => a.isNumeric || a = .dyn) then some (.join ts) else none := by
  match ts, h with
  | [], _ => rfl
  | [a], h =>
    cases a with
    | list e => exact absurd rfl (h e)
    | _ => rfl
  | a :: _ :: _, _ => cases a <;> rfl

theorem extremum_of_ne {ts : List Ty} (hne : ∀ e, ts ≠ [.list e])
    (h : Builtin.extremum ts = some t) (ht : t.isStatic = true) :
    (∀ a ∈ ts, a = t) ∧ t.isNumeric = true := by
  rw [extremum_eq hne] at h
  split at h
  · next hall =>
    cases h
    have hjoin := Ty.eq_join ht
    obtain ⟨a, ha⟩ := List.exists_mem_of_ne_nil ts hall.1
    have hnum := List.all_eq_true.mp hall.2 a ha
    rw [hjoin a ha] at hnum
    exact ⟨hjoin, isNumeric_of_static ht hnum⟩
  · cases h

/-- **The best of some numbers, or of the elements of a list, is a number of their type.** -/
theorem sound_extremum {vs : List Dyn} {ts : List Ty} (hvs : HasTypes vs ts)
    (h : Builtin.extremum ts = some t) (ht : t.isStatic = true) (name : String)
    (better : Dyn → Dyn → Bool) :
    Sound textless (Dyn.HasType · t)
      (Dyn.numbers name vs >>= fun xs => .ok (Dyn.bestOf better xs)) := by
  by_cases hlist : ∃ e, ts = [.list e]
  · obtain ⟨e, rfl⟩ := hlist
    obtain ⟨rfl, hnum⟩ := extremum_list h ht
    obtain ⟨v, rfl, hv⟩ := hvs.one
    cases hv with
    | list hxs =>
      refine (sound_numbers_list hxs hnum name).bind fun ys hys => ?_
      exact hxs _ (hys.1 ▸ bestOf_mem better hys.2)
  · obtain ⟨hall, hnum⟩ := extremum_of_ne (fun e he => hlist ⟨e, he⟩) h ht
    have htyped : ∀ v ∈ vs, v.HasType t := by
      intro v hv
      obtain ⟨a, ha, hva⟩ := hvs.exists_of_mem v hv
      exact hall a ha ▸ hva
    refine (sound_numbers htyped hnum name).bind fun ys hys => ?_
    exact htyped _ (hys.1 ▸ bestOf_mem better hys.2)

/-- One number is taken as it is. -/
theorem sound_number (hv : v.HasType t) (ht : t.isNumeric = true) (name : String) :
    Sound textless (· = v) (Dyn.number name v) := by
  have hvs : ∀ w ∈ [v], w.HasType t := List.forall_mem_singleton.mpr hv
  refine (sound_numbers hvs ht name).bind fun ys hys => ?_
  rw [hys.1]
  exact rfl

theorem sound_abs (hv : v.HasType t) (ht : t.isNumeric = true) :
    Sound textless (Dyn.HasType · t) v.abs := by
  refine (sound_number hv ht "math.abs").bind fun x hx => ?_
  subst hx
  cases hv with
  | int => exact sound_checked _ (.int _)
  | uint => exact sound_checked _ (.uint _)
  | double => exact .double _
  | _ => cases ht

theorem sound_sign (hv : v.HasType t) (ht : t.isNumeric = true) :
    Sound textless (Dyn.HasType · t) v.sign := by
  refine (sound_number hv ht "math.sign").bind fun x hx => ?_
  subst hx
  cases hv with
  | int => exact .int _
  | uint => exact .uint _
  | double x =>
    dsimp only
    split
    · exact .double _
    · exact .double _
  | _ => cases ht

theorem sound_sqrtOf (x : Number) : Sound textless (fun _ => True) (Dyn.sqrtOf x) := by
  cases x with
  | int n =>
    unfold Dyn.sqrtOf
    dsimp only
    split
    · exact trivial
    · have hwhole : Sound textless (fun _ => True) (Dyn.sqrtOf.ofWhole n) :=
        Sound.elim trivial fun _ _ => trivial
      exact hwhole.map fun _ _ => trivial
  | double x =>
    unfold Dyn.sqrtOf
    dsimp only
    split <;> exact trivial

theorem sound_sqrt (hv : v.HasType t) (ht : t.isNumeric = true) :
    Sound textless (Dyn.HasType · .double) v.sqrt := by
  refine (sound_number hv ht "math.sqrt").bind fun x hx => ?_
  obtain ⟨n, hn⟩ := Option.isSome_iff_exists.mp (isNumber_of_hasType hv ht)
  subst hx
  rw [hn]
  exact (sound_sqrtOf n).bind fun y _ => .double y

/-! ### Doubles -/

theorem sound_doubleArg (hv : v.HasType .double) (name : String) :
    Sound textless (fun _ => True) (Dyn.doubleArg name v) := by
  cases hv
  exact trivial

theorem sound_rounding (hv : v.HasType .double) (name : String) (round : Double → Double) :
    Sound textless (Dyn.HasType · .double) (Dyn.rounding name round v) :=
  (sound_doubleArg hv name).bind fun _ _ => .double _

theorem sound_doubleTest (hv : v.HasType .double) (name : String) (test : Double → Bool) :
    Sound textless (Dyn.HasType · .bool) (Dyn.doubleTest name test v) :=
  (sound_doubleArg hv name).bind fun _ _ => .bool _

/-! ### Bits -/

theorem exists_int (hv : v.HasType t) (ht : t = .int ∨ t = .uint) : ∃ n, v = .int n := by
  cases hv with
  | int n => exact ⟨n, rfl⟩
  | uint n => exact ⟨n, rfl⟩
  | _ => simp at ht

theorem hasType_int (ht : t = .int ∨ t = .uint) (n : Int) : (Dyn.int n).HasType t := by
  rcases ht with rfl | rfl
  · exact .int n
  · exact .uint n

theorem sound_bitwise (hv : v.HasType t) (hw : w.HasType t) (ht : t = .int ∨ t = .uint)
    (name : String) (f : Int → Int → Int) :
    Sound textless (Dyn.HasType · t) (Dyn.bitwise name f v w) := by
  obtain ⟨m, rfl⟩ := exists_int hv ht
  obtain ⟨n, rfl⟩ := exists_int hw ht
  exact hasType_int ht _

theorem sound_bitNot (hv : v.HasType .int) : Sound textless (Dyn.HasType · .int) v.bitNot :=
  (sound_integer hv "math.bitNot").bind fun _ _ => .int _

theorem sound_shift (hv : v.HasType .int) (hw : w.HasType .int) (name : String)
    (f : Int → Nat → Int) : Sound textless (Dyn.HasType · .int) (Dyn.shift name f v w) := by
  refine (sound_integer hv name).bind fun n _ => (sound_integer hw name).bind fun k _ => ?_
  split
  · exact sound_failShowing _ trivial
  split
  · exact .int _
  · exact .int _

end LogStream.Filter
