import LogStream.Proofs.Filter.Typing.Conversions
import LogStream.Proofs.Filter.Typing.Lists
import LogStream.Proofs.Filter.Typing.Numbers

/-! # Calls with typed arguments

A function gives a value of the type that its signature gives for the types of its arguments
(`sound_apply`). Arguments of static types that may be used for parameters are of the types of the
parameters (`eq_of_takes`), so a function with fixed parameters is sound if it is so for each list
of them. -/

namespace LogStream.Filter

open Eval (Sound)

namespace Builtin

variable {textless : String → Prop} {f : List Dyn → Eval Dyn} {vs : List Dyn} {ts : List Ty}
  {a b c r t : Ty}

/-! ### Fixed parameters -/

/-- Arguments of static types are of the types of their parameters. -/
theorem eq_of_takes : ∀ {ts ps : List Ty}, (∀ a ∈ ts, a.isStatic = true) →
    (∀ p ∈ ps, p.isStatic = true) → takes ts ps = true → ts = ps
  | [], [], _, _, _ => rfl
  | [], _ :: _, _, _, h => by cases h
  | _ :: _, [], _, _, h => by cases h
  | a :: ts, p :: ps, hts, hps, h => by
    obtain ⟨ha, hts⟩ := List.forall_mem_cons.mp hts
    obtain ⟨hp, hps⟩ := List.forall_mem_cons.mp hps
    obtain ⟨hassign, htakes⟩ := Bool.and_eq_true_iff.mp h
    rw [Ty.eq_of_assignable ha hp hassign, eq_of_takes hts hps htakes]

section Fixed

variable (hvs : HasTypes vs ts) (hts : ∀ a ∈ ts, a.isStatic = true)

include hvs hts

/-- A function with fixed parameters is sound if it is so for each list of them. -/
theorem sound_fixed {pss : List (List Ty)} (h : fixed r pss ts = some t)
    (hpss : ∀ ps ∈ pss, ∀ p ∈ ps, p.isStatic = true)
    (hf : ∀ ps ∈ pss, ∀ vs, HasTypes vs ps → Sound textless (Dyn.HasType · r) (f vs)) :
    Sound textless (Dyn.HasType · t) (f vs) := by
  unfold fixed at h
  split at h
  · next hany =>
    cases h
    obtain ⟨ps, hps, htakes⟩ := List.any_eq_true.mp hany
    obtain rfl := eq_of_takes hts (hpss ps hps) htakes
    exact hf ts hps vs hvs
  · cases h

/-- One argument of one of some types. -/
theorem sound_one_of (as : List Ty) (h : fixed r (as.map fun a => [a]) ts = some t)
    (has : ∀ a ∈ as, a.isStatic = true)
    (hf : ∀ a ∈ as, ∀ v, v.HasType a → Sound textless (Dyn.HasType · r) (f [v])) :
    Sound textless (Dyn.HasType · t) (f vs) := by
  refine sound_fixed hvs hts h ?_ ?_
  · intro ps hps
    obtain ⟨a, ha, rfl⟩ := List.mem_map.mp hps
    exact List.forall_mem_singleton.mpr (has a ha)
  · intro ps hps vs hvs
    obtain ⟨a, ha, rfl⟩ := List.mem_map.mp hps
    obtain ⟨v, rfl, hv⟩ := hvs.one
    exact hf a ha v hv

/-- One argument. -/
theorem sound_one (h : fixed r [[a]] ts = some t) (ha : a.isStatic = true)
    (hf : ∀ v, v.HasType a → Sound textless (Dyn.HasType · r) (f [v])) :
    Sound textless (Dyn.HasType · t) (f vs) :=
  sound_one_of hvs hts [a] h (List.forall_mem_singleton.mpr ha) (List.forall_mem_singleton.mpr hf)

/-- Two arguments. -/
theorem sound_two (h : fixed r [[a, b]] ts = some t) (hab : ∀ p ∈ [a, b], p.isStatic = true)
    (hf : ∀ v w, v.HasType a → w.HasType b → Sound textless (Dyn.HasType · r) (f [v, w])) :
    Sound textless (Dyn.HasType · t) (f vs) := by
  refine sound_fixed hvs hts h (List.forall_mem_singleton.mpr hab) ?_
  refine List.forall_mem_singleton.mpr fun vs hvs => ?_
  obtain ⟨v, w, rfl, hv, hw⟩ := hvs.two
  exact hf v w hv hw

/-- One list of parameters or another. -/
theorem sound_either {ps qs : List Ty} (h : fixed r [ps, qs] ts = some t)
    (hps : ∀ p ∈ ps, p.isStatic = true) (hqs : ∀ q ∈ qs, q.isStatic = true)
    (hfp : ∀ vs, HasTypes vs ps → Sound textless (Dyn.HasType · r) (f vs))
    (hfq : ∀ vs, HasTypes vs qs → Sound textless (Dyn.HasType · r) (f vs)) :
    Sound textless (Dyn.HasType · t) (f vs) := by
  refine sound_fixed hvs hts h ?_ ?_
  · exact List.forall_mem_cons.mpr ⟨hps, List.forall_mem_singleton.mpr hqs⟩
  · exact List.forall_mem_cons.mpr ⟨hfp, List.forall_mem_singleton.mpr hfq⟩

/-- One argument and one that may be left out. -/
theorem sound_one_two (h : fixed r [[a], [a, b]] ts = some t)
    (hab : ∀ p ∈ [a, b], p.isStatic = true)
    (hone : ∀ v, v.HasType a → Sound textless (Dyn.HasType · r) (f [v]))
    (htwo : ∀ v w, v.HasType a → w.HasType b → Sound textless (Dyn.HasType · r) (f [v, w])) :
    Sound textless (Dyn.HasType · t) (f vs) := by
  have ha : ∀ p ∈ [a], p.isStatic = true := fun p hp => hab p (List.mem_append_left [b] hp)
  refine sound_either hvs hts h ha hab (fun vs hvs => ?_) fun vs hvs => ?_
  · obtain ⟨v, rfl, hv⟩ := hvs.one
    exact hone v hv
  · obtain ⟨v, w, rfl, hv, hw⟩ := hvs.two
    exact htwo v w hv hw

/-- Two arguments and one that may be left out. -/
theorem sound_two_three (h : fixed r [[a, b], [a, b, c]] ts = some t)
    (habc : ∀ p ∈ [a, b, c], p.isStatic = true)
    (htwo : ∀ v w, v.HasType a → w.HasType b → Sound textless (Dyn.HasType · r) (f [v, w]))
    (hthree : ∀ v w x, v.HasType a → w.HasType b → x.HasType c →
      Sound textless (Dyn.HasType · r) (f [v, w, x])) :
    Sound textless (Dyn.HasType · t) (f vs) := by
  have hab : ∀ p ∈ [a, b], p.isStatic = true := fun p hp => habc p (List.mem_append_left [c] hp)
  refine sound_either hvs hts h hab habc (fun vs hvs => ?_) fun vs hvs => ?_
  · obtain ⟨v, w, rfl, hv, hw⟩ := hvs.two
    exact htwo v w hv hw
  · obtain ⟨v, w, x, rfl, hv, hw, hx⟩ := hvs.three
    exact hthree v w x hv hw hx

/-- A part of a timestamp. -/
theorem sound_applyPart (part : Time → Nat) (h : timePart ts = some t) :
    Sound textless (Dyn.HasType · t) (applyPart part vs) :=
  sound_one_two hvs hts h (by decide) (fun _ hv => sound_timePart part hv (.inl rfl))
    fun _ _ hv hw => sound_timePart part hv (.inr hw)

theorem sound_replace_apply (h : signature replace ts = some t) :
    Sound textless (Dyn.HasType · t) (apply replace vs) := by
  refine sound_either hvs hts h (by decide) (by decide) (fun vs hvs => ?_) fun vs hvs => ?_
  · obtain ⟨s, v, w, rfl, hs, hv, hw⟩ := hvs.three
    exact sound_replace hs hv hw (.int (-1))
  · cases hvs with
    | cons hs hvs =>
      obtain ⟨v, w, x, rfl, hv, hw, hx⟩ := HasTypes.three hvs
      exact sound_replace hs hv hw hx

end Fixed

/-! ### Other signatures -/

theorem exists_list (ha : a.isStatic = true) (h : a.isList = true) : ∃ e, a = .list e := by
  cases a with
  | list e => exact ⟨e, rfl⟩
  | dyn => cases ha
  | _ => cases h

theorem eq_optional {e : Ty} (ha : a.isStatic = true) (h : a.content? = some e) :
    a = .optional e := by
  cases a with
  | optional e => cases h; rfl
  | dyn => cases ha
  | _ => cases h

/-- A signature of one parameter. -/
def unary (g : Ty → Option Ty) : List Ty → Option Ty
  | [a] => g a
  | _ => none

/-- A signature of two parameters. -/
def binary (g : Ty → Ty → Option Ty) : List Ty → Option Ty
  | [a, b] => g a b
  | _ => none

theorem of_unary {g : Ty → Option Ty} (h : unary g ts = some t) :
    ∃ a, ts = [a] ∧ g a = some t := by
  unfold unary at h
  split at h
  · exact ⟨_, rfl, h⟩
  · cases h

theorem of_binary {g : Ty → Ty → Option Ty} (h : binary g ts = some t) :
    ∃ a b, ts = [a, b] ∧ g a b = some t := by
  unfold binary at h
  split at h
  · exact ⟨_, _, rfl, h⟩
  · cases h

theorem static_pair (h : ∀ x ∈ [a, b], x.isStatic = true) :
    a.isStatic = true ∧ b.isStatic = true :=
  ⟨h a List.mem_cons_self, h b (List.mem_cons_of_mem a List.mem_cons_self)⟩

/-- The names of the types of values that a function may be unable to print if its arguments have
given types. -/
def unprintable : Builtin → List Ty → List String
  | toString, [a] => a.textless?.toList
  | format, [_, .list e] => if e.hasOptional then ["optional"] else []
  | _, _ => []

section Other

variable (hvs : HasTypes vs ts) (hts : ∀ a ∈ ts, a.isStatic = true)

include hvs hts

/-- One list. -/
theorem sound_one_list {g : Ty → Ty}
    (h : unary (fun a => if a.isList then some (g a) else none) ts = some t)
    (hf : ∀ v e, v.HasType (.list e) → Sound textless (Dyn.HasType · (g (.list e))) (f [v])) :
    Sound textless (Dyn.HasType · t) (f vs) := by
  obtain ⟨a, rfl, hg⟩ := of_unary h
  obtain ⟨v, rfl, hv⟩ := hvs.one
  split at hg
  · next hlist =>
    obtain ⟨e, rfl⟩ := exists_list (hts a List.mem_cons_self) hlist
    cases hg
    exact hf v e hv
  · cases hg

/-- One optional value. -/
theorem sound_one_optional {g : Ty → Ty}
    (h : unary (fun a => a.content?.map g) ts = some t)
    (hf : ∀ v e, v.HasType (.optional e) → Sound textless (Dyn.HasType · (g e)) (f [v])) :
    Sound textless (Dyn.HasType · t) (f vs) := by
  obtain ⟨a, rfl, hg⟩ := of_unary h
  obtain ⟨v, rfl, hv⟩ := hvs.one
  obtain ⟨e, he, rfl⟩ := Option.map_eq_some_iff.mp hg
  obtain rfl := eq_optional (hts a List.mem_cons_self) he
  exact hf v e hv

/-- One number, whose type the result has. -/
theorem sound_one_number
    (h : unary (fun a => if a.isNumeric || a = .dyn then some a else none) ts = some t)
    (hf : ∀ v a, v.HasType a → a.isNumeric = true → Sound textless (Dyn.HasType · a) (f [v])) :
    Sound textless (Dyn.HasType · t) (f vs) := by
  obtain ⟨a, rfl, hg⟩ := of_unary h
  obtain ⟨v, rfl, hv⟩ := hvs.one
  split at hg
  · next hnum =>
    have hstatic := hts a List.mem_cons_self
    cases hg
    exact hf v _ hv (isNumeric_of_static hstatic hnum)
  · cases hg

/-- Two integers of one type, which the result has. -/
theorem sound_two_integers (h : bitwise ts = some t)
    (hf : ∀ v w a, a = .int ∨ a = .uint → v.HasType a → w.HasType a →
      Sound textless (Dyn.HasType · a) (f [v, w])) :
    Sound textless (Dyn.HasType · t) (f vs) := by
  obtain ⟨a, b, rfl, hg⟩ := of_binary h
  obtain ⟨v, w, rfl, hv, hw⟩ := hvs.two
  split at hg
  · next hany =>
    obtain ⟨i, hi, htakes⟩ := List.any_eq_true.mp hany
    have hint : i = .int ∨ i = .uint := by simpa using hi
    have hii : ∀ p ∈ [i, i], p.isStatic = true := by
      rcases hint with rfl | rfl
      · decide
      · decide
    obtain ⟨ha, hb⟩ : a = i ∧ b = i := by simpa using eq_of_takes hts hii htakes
    rw [ha] at hv
    rw [hb] at hw
    have hresult : i = t := by simpa [ha, hb] using hg
    exact hresult ▸ hf v w i hint hv hw
  · cases hg

/-- Two lists that are compared. -/
theorem sound_two_lists (h : setRelation ts = some t)
    (hf : ∀ v w a b, v.HasType (.list a) → w.HasType (.list b) →
      Sound textless (Dyn.HasType · .bool) (f [v, w])) :
    Sound textless (Dyn.HasType · t) (f vs) := by
  obtain ⟨a, b, rfl, hg⟩ := of_binary h
  obtain ⟨v, w, rfl, hv, hw⟩ := hvs.two
  obtain ⟨ha, hb⟩ := static_pair hts
  split at hg
  · next hlists =>
    cases hg
    obtain ⟨hlists, -⟩ := Bool.and_eq_true_iff.mp hlists
    obtain ⟨ha', hb'⟩ := Bool.and_eq_true_iff.mp hlists
    obtain ⟨a, rfl⟩ := exists_list ha ha'
    obtain ⟨b, rfl⟩ := exists_list hb hb'
    exact hf v w a b hv hw
  · cases hg

theorem sound_size_apply (h : signature size ts = some t) :
    Sound textless (Dyn.HasType · t) (apply size vs) := by
  unfold signature at h
  dsimp only at h
  split at h
  case h_5 => exact absurd (hts _ List.mem_cons_self) Bool.false_ne_true
  case h_6 => cases h
  all_goals
    cases h
    obtain ⟨v, rfl, hv⟩ := hvs.one
    exact sound_size hv (by simp)

theorem sound_reverse_apply (h : signature reverse ts = some t) :
    Sound textless (Dyn.HasType · t) (apply reverse vs) := by
  unfold signature at h
  dsimp only at h
  split at h
  · cases h
    obtain ⟨v, rfl, hv⟩ := hvs.one
    exact sound_reverse_string hv
  · exact absurd (hts _ List.mem_cons_self) Bool.false_ne_true
  · next a _ _ =>
    obtain ⟨v, rfl, hv⟩ := hvs.one
    unfold sameList at h
    split at h
    · next hlist =>
      obtain ⟨e, rfl⟩ := exists_list (hts a List.mem_cons_self) hlist
      cases h
      exact sound_reverse_list hv
    · cases h
  · cases h

theorem sound_slice_apply (h : signature slice ts = some t) :
    Sound textless (Dyn.HasType · t) (apply slice vs) := by
  unfold signature at h
  dsimp only at h
  split at h
  · next l a b =>
    obtain ⟨hl, hab⟩ := List.forall_mem_cons.mp hts
    obtain ⟨v, w, x, rfl, hv, hw, hx⟩ := hvs.three
    split at h
    · next htakes =>
      cases eq_of_takes hab (by decide) htakes
      unfold sameList at h
      split at h
      · next hlist =>
        obtain ⟨e, rfl⟩ := exists_list hl hlist
        cases h
        exact sound_slice hv hw hx
      · cases h
    · cases h
  · cases h

/-- A list of lists; one with lists to any depth has no static type. -/
theorem sound_flatten_apply (h : signature flatten ts = some t) (ht : t.isStatic = true) :
    Sound textless (Dyn.HasType · t) (apply flatten vs) := by
  unfold signature at h
  dsimp only at h
  split at h
  · next l =>
    obtain ⟨v, rfl, hv⟩ := hvs.one
    split at h
    · next hlist =>
      obtain ⟨e, rfl⟩ := exists_list (hts l List.mem_cons_self) hlist
      cases h
      cases e with
      | list e => exact sound_flatten hv
      | _ => cases ht
    · cases h
  · split at h
    · cases h
      cases ht
    · cases h
  · cases h

theorem sound_format_apply (h : signature format ts = some t)
    (hprint : ∀ n ∈ unprintable format ts, textless n) :
    Sound textless (Dyn.HasType · t) (apply format vs) := by
  obtain ⟨a, l, rfl, hg⟩ := of_binary h
  obtain ⟨v, w, rfl, hv, hw⟩ := hvs.two
  obtain ⟨ha, hl⟩ := static_pair hts
  split at hg
  · next htakes =>
    cases hg
    obtain ⟨hassign, hlist⟩ := Bool.and_eq_true_iff.mp htakes
    obtain rfl := Ty.eq_of_assignable ha rfl hassign
    obtain ⟨e, rfl⟩ := exists_list hl hlist
    refine sound_format hv hw fun hoptional => hprint "optional" ?_
    unfold unprintable
    dsimp only
    rw [if_pos hoptional]
    exact List.mem_cons_self
  · cases hg

theorem sound_orValue_apply (h : signature orValue ts = some t) :
    Sound textless (Dyn.HasType · t) (apply orValue vs) := by
  obtain ⟨o, d, rfl, hg⟩ := of_binary h
  obtain ⟨v, w, rfl, hv, hw⟩ := hvs.two
  obtain ⟨ho, hd⟩ := static_pair hts
  obtain ⟨e, he, hresult⟩ := Option.bind_eq_some_iff.mp hg
  obtain rfl := eq_optional ho he
  have hcontent : e.isStatic = true := ho
  rw [if_neg (Ty.ne_dyn hcontent)] at hresult
  split at hresult
  · next hassign =>
    cases hresult
    obtain rfl := Ty.eq_of_assignable hd hcontent hassign
    exact sound_orValue hv hw
  · cases hresult

theorem sound_or_apply (h : signature or ts = some t) (ht : t.isStatic = true) :
    Sound textless (Dyn.HasType · t) (apply or vs) := by
  obtain ⟨a, b, rfl, hg⟩ := of_binary h
  obtain ⟨v, w, rfl, hv, hw⟩ := hvs.two
  obtain ⟨ha, hb⟩ := static_pair hts
  split at hg
  · next hboth =>
    cases hg
    obtain ⟨ha', -⟩ := Bool.and_eq_true_iff.mp hboth
    obtain ⟨e, he⟩ := Option.isSome_iff_exists.mp ha'
    obtain rfl := eq_optional ha he
    by_cases hab : .optional e = b
    · subst hab
      rw [if_pos rfl]
      exact sound_orElse hv hw
    · rw [if_neg hab] at ht
      cases ht
  · cases hg

end Other

/-! ### All functions -/

/-- **A function gives a value of the type that its signature gives.** -/
theorem sound_apply (f : Builtin) (hvs : HasTypes vs ts)
    (hts : ∀ a ∈ ts, a.isStatic = true) (ht : t.isStatic = true) (h : f.signature ts = some t)
    (hprint : ∀ n ∈ f.unprintable ts, textless n) :
    Sound textless (Dyn.HasType · t) (f.apply vs) := by
  cases f with
  -- Strings.
  | contains | startsWith | endsWith =>
    exact sound_two hvs hts h (by decide) fun _ _ => sound_strings2 fun _ _ => .bool _
  | isMatch => exact sound_two hvs hts h (by decide) fun _ _ => sound_isMatch
  | lowerAscii | upperAscii | trim | quote =>
    exact sound_one hvs hts h rfl fun _ => sound_strings1 fun _ => .string _
  | split =>
    exact sound_two_three hvs hts h (by decide) (fun _ _ hv hw => sound_split hv hw (.int _))
      fun _ _ _ => sound_split
  | replace => exact sound_replace_apply hvs hts h
  | charAt => exact sound_two hvs hts h (by decide) fun _ _ => sound_charAt
  | indexOf =>
    exact sound_two_three hvs hts h (by decide) (fun _ _ hv hw => sound_indexOf hv hw (.int _))
      fun _ _ _ => sound_indexOf
  | lastIndexOf =>
    exact sound_two_three hvs hts h (by decide)
      (fun _ _ hv hw => sound_lastIndexOf hv hw (.inl rfl))
      fun _ _ _ hv hw hx => sound_lastIndexOf hv hw (.inr hx)
  | substring =>
    exact sound_two_three hvs hts h (by decide)
      (fun _ _ hv hw => sound_substring hv hw (.inl rfl))
      fun _ _ _ hv hw hx => sound_substring hv hw (.inr hx)
  | join =>
    exact sound_one_two hvs hts h (by decide) (fun _ hv => sound_join hv (.string _))
      fun _ _ => sound_join
  | format => exact sound_format_apply hvs hts h hprint
  -- Strings and lists.
  | size => exact sound_size_apply hvs hts h
  | reverse => exact sound_reverse_apply hvs hts h
  -- Lists.
  | slice => exact sound_slice_apply hvs hts h
  | flatten => exact sound_flatten_apply hvs hts h ht
  | sort => exact sound_one_list hvs hts h fun _ _ => sound_sort
  | distinct => exact sound_one_list hvs hts h fun _ _ => sound_distinct
  | first => exact sound_one_list hvs hts h fun _ _ => sound_first
  | last => exact sound_one_list hvs hts h fun _ _ => sound_last
  | range => exact sound_one hvs hts h rfl fun _ => sound_range
  | setContains | setEquivalent | setIntersects =>
    exact sound_two_lists hvs hts h fun _ _ _ _ hv hw => sound_relation hv hw _ _
  -- Optional values.
  | orValue => exact sound_orValue_apply hvs hts h
  | hasValue => exact sound_one_optional hvs hts h fun _ _ => sound_hasValue
  | value =>
    obtain ⟨o, rfl, ho⟩ := of_unary h
    obtain ⟨v, rfl, hv⟩ := hvs.one
    obtain rfl := eq_optional (hts o List.mem_cons_self) ho
    exact sound_value hv
  | or => exact sound_or_apply hvs hts h ht
  | optionalOf =>
    obtain ⟨a, rfl, ha⟩ := of_unary h
    obtain ⟨v, rfl, hv⟩ := hvs.one
    cases ha
    exact .some hv
  | optionalNone =>
    cases hvs with
    | nil => cases h; cases ht
    | cons => cases h
  -- Parts of a timestamp.
  | fullYear | month | date | dayOfMonth | dayOfWeek | dayOfYear | hours | minutes | seconds =>
    exact sound_applyPart hvs hts _ h
  -- Conversions.
  | toInt =>
    exact sound_one_of hvs hts [.int, .uint, .double, .string, .timestamp] h (by decide)
      fun a ha v hv => sound_toInt hv (by simpa [isWhole] using ha)
  | toUint =>
    refine sound_one_of hvs hts [.int, .uint, .double, .string] h (by decide) fun a ha v hv => ?_
    have hcases : a = .int ∨ a = .uint ∨ a = .double ∨ a = .string := by simpa using ha
    have hwhole : isWhole a := by unfold isWhole; tauto
    refine sound_toUint hv hwhole ?_
    rintro rfl
    simp at hcases
  | toDouble =>
    exact sound_one_of hvs hts [.int, .uint, .double, .string] h (by decide)
      fun a ha v hv => sound_toDouble hv (by simpa using ha)
  | toString =>
    obtain ⟨a, rfl, ha⟩ := of_unary h
    obtain ⟨v, rfl, hv⟩ := hvs.one
    cases ha
    exact sound_toText hv fun n hn => hprint n (Option.mem_toList.mpr hn)
  | toBytes =>
    exact sound_one_of hvs hts [.string, .bytes] h (by decide)
      fun a ha v hv => sound_toBytes hv (by simpa using ha)
  | toBool =>
    exact sound_one_of hvs hts [.bool, .string] h (by decide) fun a _ v hv => sound_toBool hv
  | toTimestamp =>
    exact sound_one_of hvs hts [.string, .timestamp, .int] h (by decide)
      fun a ha v hv => sound_toTimestamp hv (by simpa using ha)
  | toDuration =>
    exact sound_one_of hvs hts [.string, .duration] h (by decide)
      fun a ha v hv => sound_toDuration hv (by simpa using ha)
  | toDyn =>
    obtain ⟨a, rfl, ha⟩ := of_unary h
    cases ha
    cases ht
  | encodeBase64 => exact sound_one hvs hts h rfl fun _ => sound_encodeBase64
  | decodeBase64 => exact sound_one hvs hts h rfl fun _ => sound_decodeBase64
  -- Numbers.
  | greatest | least => exact sound_extremum hvs h ht _ _
  | abs => exact sound_one_number hvs hts h fun _ _ => sound_abs
  | sign => exact sound_one_number hvs hts h fun _ _ => sound_sign
  | sqrt =>
    have hnum : ∀ a ∈ [Ty.int, .uint, .double], a.isNumeric = true := by decide
    exact sound_one_of hvs hts [.int, .uint, .double] h (by decide)
      fun a ha v hv => sound_sqrt hv (hnum a ha)
  | ceil | floor | round | trunc =>
    exact sound_one hvs hts h rfl fun _ hv => sound_rounding hv _ _
  | isNaN | isInf | isFinite =>
    exact sound_one hvs hts h rfl fun _ hv => sound_doubleTest hv _ _
  | bitAnd | bitOr | bitXor =>
    exact sound_two_integers hvs hts h fun _ _ _ ha hv hw => sound_bitwise hv hw ha _ _
  | bitNot => exact sound_one hvs hts h rfl fun _ => sound_bitNot
  | bitShiftLeft =>
    refine sound_two hvs hts h (by decide) fun v w hv hw => ?_
    exact (sound_shift hv hw _ _ : Sound textless _ (Dyn.bitShiftLeft v w))
  | bitShiftRight =>
    refine sound_two hvs hts h (by decide) fun v w hv hw => ?_
    exact (sound_shift hv hw _ _ : Sound textless _ (Dyn.bitShiftRight v w))

end Builtin

end LogStream.Filter
