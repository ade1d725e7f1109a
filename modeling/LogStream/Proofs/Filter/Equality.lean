import LogStream.Proofs.Filter.Maps.Keys

/-! # Equality of values

Equality is stated for the values of the language (`Dyn.IsProper`): foreign data are none of them, timestamps
name their zone, and the keys of a map are hashable and distinct. Keys are the same, and scalars are equal,
just if they have the same content (`Dyn.sameKey_iff`, `Dyn.equals_iff_of_isScalar`), where a not-a-number has
none. Equality is symmetric (`Dyn.equals_symm`) and transitive (`Dyn.equals_trans`), and reflexive where no
not-a-number is met (`Dyn.equals_self`). -/

namespace LogStream

/-! ### The same content -/

/-- Both have a content by `f`, and the same one. -/
def AgreeOn {α κ : Type} (f : α → Option κ) (a b : α) : Prop := ∃ k, f a = some k ∧ f b = some k

section

variable {α κ : Type} {f : α → Option κ} {a b c : α} {k : κ}

theorem agreeOn_iff (h : f a = some k) : AgreeOn f a b ↔ f b = some k := by
  simp [AgreeOn, h]

theorem AgreeOn.symm (h : AgreeOn f a b) : AgreeOn f b a := by
  obtain ⟨k, ha, hb⟩ := h
  exact ⟨k, hb, ha⟩

theorem AgreeOn.trans (h : AgreeOn f a b) (h' : AgreeOn f b c) : AgreeOn f a c := by
  obtain ⟨k, ha, hb⟩ := h
  exact ⟨k, ha, (agreeOn_iff hb).mp h'⟩

end

namespace Filter

namespace Dyn

variable {u v w : Dyn} {es fs gs : List (Dyn × Dyn)} {xs ys zs : List Dyn}

/-! ### The values of the language -/

/-- A value without parts; a timestamp with its zone. -/
def isScalar : Dyn → Bool
  | timestamp t => t.offset.isSome
  | list _ => false
  | map _ => false
  | optional _ => false
  | members _ => false
  | foreign _ => false
  | _ => true

/-- A value of the language: the keys of maps are hashable and pairwise not the same. -/
inductive IsProper : Dyn → Prop
  | scalar {v : Dyn} (h : v.isScalar = true) : IsProper v
  | list {xs : List Dyn} (h : ∀ x ∈ xs, IsProper x) : IsProper (.list xs)
  | map {es : List (Dyn × Dyn)} (hdistinct : HasDistinctKeys es)
      (hhashable : ∀ e ∈ es, e.1.isHashable = true) (hkeys : ∀ e ∈ es, IsProper e.1)
      (hcontents : ∀ e ∈ es, IsProper e.2) : IsProper (.map es)
  | optional {c : Option Dyn} (h : ∀ v ∈ c, IsProper v) : IsProper (.optional c)

theorem IsProper.isSome_offset {t : Time} (h : (timestamp t).IsProper) : t.offset.isSome = true := by
  cases h
  assumption

mutual

/-- There is a not-a-number in the value. -/
def holdsNaN : Dyn → Bool
  | .double x => x.isNaN
  | .list xs => anyHoldsNaN xs
  | .map es => entriesHoldNaN es
  | .optional (some v) => holdsNaN v
  | _ => false
termination_by structural v => v

def anyHoldsNaN : List Dyn → Bool
  | [] => false
  | x :: xs => holdsNaN x || anyHoldsNaN xs
termination_by structural xs => xs

def entriesHoldNaN : List (Dyn × Dyn) → Bool
  | [] => false
  | (k, v) :: es => holdsNaN k || holdsNaN v || entriesHoldNaN es
termination_by structural es => es

end

theorem anyHoldsNaN_eq_false_iff : ∀ {xs : List Dyn},
    anyHoldsNaN xs = false ↔ ∀ x ∈ xs, x.holdsNaN = false
  | [] => by simp [anyHoldsNaN]
  | x :: xs => by simp [anyHoldsNaN, @anyHoldsNaN_eq_false_iff xs]

theorem entriesHoldNaN_eq_false_iff : ∀ {es : List (Dyn × Dyn)},
    entriesHoldNaN es = false ↔ ∀ e ∈ es, e.1.holdsNaN = false ∧ e.2.holdsNaN = false
  | [] => by simp [entriesHoldNaN]
  | (k, v) :: es => by simp [entriesHoldNaN, @entriesHoldNaN_eq_false_iff es, and_assoc]

/-! ### Contents -/

end Dyn

/-- What is told apart in keys and scalars: numbers by exact value, timestamps by instant. -/
inductive Content
  | null
  | bool (b : Bool)
  | number (u : ExactValue)
  | string (t : Text)
  | bytes (bs : Bytes)
  | instant (micros : Int)
  | duration (d : Duration)
  | optional (content : Option Content)

namespace Dyn

variable {u v w : Dyn} {es fs gs : List (Dyn × Dyn)} {xs ys zs : List Dyn}

/-- The content of a key, where truth values count as numbers. -/
def keyContent? : Dyn → Option Content
  | .null => some .null
  | .string t => some (.string t)
  | .bytes bs => some (.bytes bs)
  | .timestamp t => some (.instant t.instant)
  | .duration d => some (.duration d)
  | .optional none => some (.optional none)
  | .optional (some v) => (keyContent? v).map fun k => .optional (some k)
  | .bool b => (Number.exactValue? (.int (if b then 1 else 0))).map .number
  | .int n => (Number.exactValue? (.int n)).map .number
  | .double x => (Number.exactValue? (.double x)).map .number
  | _ => none

/-- The content of a scalar. -/
def scalarContent? : Dyn → Option Content
  | bool b => some (.bool b)
  | optional _ => none
  | v => v.keyContent?

theorem keyContent?_optional (c : Option Dyn) : (optional c).keyContent? =
    (c.elim (some none) fun v => v.keyContent?.map some).map .optional := by
  cases c with
  | none => rfl
  | some v => simp [keyContent?, Function.comp_def]

/-- A number is equal to what a value is or counts as just if both have the same content. -/
theorem any_equal_iff_agreeOn {f : Dyn → Option Content} {a : Number} {n : Option Number}
    (hv : f v = a.exactValue?.map .number) (hw : ∀ b ∈ n, f w = b.exactValue?.map .number)
    (hnone : n = none → ∀ x, f w ≠ some (.number x)) :
    n.any (Number.equal a) = true ↔ AgreeOn f v w := by
  cases n with
  | none =>
    refine iff_of_false Bool.false_ne_true fun ⟨k, hk, hwk⟩ => ?_
    obtain ⟨x, -, rfl⟩ := Option.map_eq_some_iff.mp (hv.symm.trans hk)
    exact hnone rfl x hwk
  | some b =>
    rw [Option.any_some, Number.equal_iff, AgreeOn, hv, hw b rfl]
    constructor
    · rintro ⟨x, ha, hb⟩
      exact ⟨.number x, by simp [ha], by simp [hb]⟩
    · rintro ⟨k, ha, hb⟩
      obtain ⟨x, hx, rfl⟩ := Option.map_eq_some_iff.mp ha
      obtain ⟨y, hy, hyx⟩ := Option.map_eq_some_iff.mp hb
      cases hyx
      exact ⟨x, hx, hy⟩

theorem sameKey_iff_of_isScalar (hv : v.isScalar = true) (hw : w.IsProper) :
    v.sameKey w = true ↔ AgreeOn keyContent? v w := by
  have hnumber {a : Number} (hv : v.keyContent? = a.exactValue?.map .number) :
      w.keyNumber?.any (Number.equal a) = true ↔ AgreeOn keyContent? v w := by
    refine any_equal_iff_agreeOn hv (fun b hb => ?_) fun hnone x => ?_
    · cases w <;> cases hb <;> rfl
    · cases w <;> first | cases hnone; done | simp [keyContent?, keyContent?_optional]
  cases v with
  | null => cases w <;> simp [sameKey, agreeOn_iff, keyContent?, keyContent?_optional]
  | bool b => exact hnumber rfl
  | int n => exact hnumber rfl
  | double x => exact hnumber rfl
  | string t =>
    cases w <;> simp [sameKey, agreeOn_iff, keyContent?, keyContent?_optional, eq_comm (a := t)]
  | bytes bs =>
    cases w <;> simp [sameKey, agreeOn_iff, keyContent?, keyContent?_optional, eq_comm (a := bs)]
  | timestamp t =>
    cases w with
    | timestamp u =>
      have ht : t.offset.isSome = true := hv
      simp [sameKey, agreeOn_iff, keyContent?, Time.same, ht, hw.isSome_offset, eq_comm (a := t.instant)]
    | _ => simp [sameKey, agreeOn_iff, keyContent?, keyContent?_optional]
  | duration d =>
    cases w <;> simp [sameKey, agreeOn_iff, keyContent?, keyContent?_optional, eq_comm (a := d)]
  | _ => cases hv

/-- **Keys are the same just if they have the same content.** -/
theorem sameKey_iff_agreeOn (hv : v.IsProper) (hw : w.IsProper) (hhash : v.isHashable = true) :
    v.sameKey w = true ↔ AgreeOn keyContent? v w := by
  induction hv generalizing w with
  | scalar hv => exact sameKey_iff_of_isScalar hv hw
  | list h => cases hhash
  | map => cases hhash
  | @optional c h ih =>
    cases w with
    | optional c' =>
      cases c with
      | none => cases c' <;> simp [sameKey, agreeOn_iff, keyContent?]
      | some v =>
        cases c' with
        | none => simp [sameKey, AgreeOn, keyContent?]
        | some w =>
          have hw : w.IsProper := by
            cases hw with
            | scalar hw => cases hw
            | optional hw => exact hw w rfl
          rw [sameKey, ih v rfl hw hhash]
          constructor
          · rintro ⟨k, hv, hw⟩
            exact ⟨.optional (some k), by simp [keyContent?, hv], by simp [keyContent?, hw]⟩
          · rintro ⟨k, hv, hw⟩
            obtain ⟨a, ha, rfl⟩ := Option.map_eq_some_iff.mp hv
            obtain ⟨b, hb, hba⟩ := Option.map_eq_some_iff.mp hw
            cases hba
            exact ⟨a, ha, hb⟩
    | _ => cases c <;> simp [sameKey, AgreeOn, keyContent?]

/-- **Scalars are equal to what has the same content.** -/
theorem equals_iff_of_isScalar (hv : v.isScalar = true) (hw : w.IsProper) :
    v.equals w = true ↔ AgreeOn scalarContent? v w := by
  have hnumber {a : Number} (hv : v.scalarContent? = a.exactValue?.map .number) :
      w.number?.any (Number.equal a) = true ↔ AgreeOn scalarContent? v w := by
    refine any_equal_iff_agreeOn hv (fun b hb => ?_) fun hnone x => ?_
    · cases w <;> cases hb <;> rfl
    · cases w <;> first | cases hnone; done | simp [scalarContent?, keyContent?]
  have hsame (hequals : v.equals w = v.sameKey w) (hcontent : v.scalarContent? = v.keyContent?)
      (hother : ∀ k, v.keyContent? = some k → (w.keyContent? = some k ↔ w.scalarContent? = some k)) :
      v.equals w = true ↔ AgreeOn scalarContent? v w := by
    rw [hequals, sameKey_iff_of_isScalar hv hw, AgreeOn, AgreeOn, hcontent]
    exact exists_congr fun k => and_congr_right (hother k)
  cases v with
  | bool b => cases w <;> simp [equals, agreeOn_iff, scalarContent?, keyContent?, eq_comm (a := b)]
  | int n => exact hnumber rfl
  | double x => exact hnumber rfl
  | list => cases hv
  | map => cases hv
  | optional => cases hv
  | members => cases hv
  | foreign => cases hv
  | _ =>
    refine hsame rfl rfl fun k hk => ?_
    cases hk
    cases w <;> simp [scalarContent?, keyContent?, keyContent?_optional]

/-! ### Equal lists and maps -/

theorem equalLists_iff_forall₂ : ∀ {xs ys : List Dyn},
    equalLists xs ys = true ↔ List.Forall₂ (fun x y => x.equals y = true) xs ys
  | [], [] => by simp [equalLists]
  | [], y :: ys => by simp [equalLists]
  | x :: xs, [] => by simp [equalLists]
  | x :: xs, y :: ys => by simp [equalLists, @equalLists_iff_forall₂ xs]

/-- Entries of a map of the language. -/
structure AreProper (es : List (Dyn × Dyn)) : Prop where
  distinct : HasDistinctKeys es
  hashable : ∀ e ∈ es, e.1.isHashable = true
  keys : ∀ e ∈ es, e.1.IsProper
  contents : ∀ e ∈ es, e.2.IsProper

theorem IsProper.entries (h : (Dyn.map es).IsProper) : AreProper es := by
  cases h with
  | scalar h => cases h
  | map hdistinct hhashable hkeys hcontents => exact ⟨hdistinct, hhashable, hkeys, hcontents⟩

/-- The keys of two entries have the same content. -/
abbrev KeysAgree (e f : Dyn × Dyn) : Prop := AgreeOn keyContent? e.1 f.1

theorem AreProper.sameKey_iff (hes : AreProper es) {e f : Dyn × Dyn} (he : e ∈ es) (hf : f.1.IsProper) :
    e.1.sameKey f.1 = true ↔ KeysAgree e f :=
  sameKey_iff_agreeOn (hes.keys e he) hf (hes.hashable e he)

theorem AreProper.pairwise (hes : AreProper es) : es.Pairwise fun e f => ¬ KeysAgree e f := by
  refine hes.distinct.imp_of_mem fun {e f} he hf hsame hagree => ?_
  rw [(hes.sameKey_iff hf (hes.keys e he)).mpr hagree.symm] at hsame
  cases hsame

/-- Entries whose keys have the same content are one. -/
theorem AreProper.eq_of_keysAgree (hes : AreProper es) {e f : Dyn × Dyn} (he : e ∈ es) (hf : f ∈ es)
    (h : KeysAgree e f) : e = f := by
  by_contra hne
  have : Std.Symm fun e f => ¬ KeysAgree e f := ⟨fun _ _ h h' => h h'.symm⟩
  exact hes.pairwise.forall he hf hne h

/-- The entry with an equal content under the same key. -/
def IsCounterpart (e f : Dyn × Dyn) : Prop := KeysAgree e f ∧ e.2.equals f.2 = true

/-- Maps are equal if they are of the same length and each entry has a counterpart. -/
theorem equals_map_iff_counterparts (hes : AreProper es) (hfs : AreProper fs) :
    (map es).equals (map fs) = true ↔
      es.length = fs.length ∧ ∀ e ∈ es, ∃ f ∈ fs, IsCounterpart e f := by
  change (es.length == fs.length && equalEntries es fs) = true ↔ _
  rw [Bool.and_eq_true, beq_iff_eq, equalEntries_iff]
  refine and_congr_right fun _ => forall₂_congr fun e he => ?_
  unfold lookup? binding?
  constructor
  · rintro ⟨w, hw, hequal⟩
    obtain ⟨f, hfound, rfl⟩ := Option.map_eq_some_iff.mp hw
    have hf := List.mem_of_find?_eq_some hfound
    have hsame : e.1.sameKey f.1 = true := by simpa using List.find?_some hfound
    exact ⟨f, hf, (hes.sameKey_iff he (hfs.keys f hf)).mp hsame, hequal⟩
  · rintro ⟨f, hf, hkeys, hequal⟩
    have hsome : (fs.find? fun g => e.1.sameKey g.1).isSome = true :=
      List.find?_isSome.mpr ⟨f, hf, (hes.sameKey_iff he (hfs.keys f hf)).mpr hkeys⟩
    obtain ⟨g, hfound⟩ := Option.isSome_iff_exists.mp hsome
    have hg := List.mem_of_find?_eq_some hfound
    have hsame : e.1.sameKey g.1 = true := by simpa using List.find?_some hfound
    have hagree := (hes.sameKey_iff he (hfs.keys g hg)).mp hsame
    obtain rfl := hfs.eq_of_keysAgree hf hg (hkeys.symm.trans hagree)
    exact ⟨f.2, by rw [hfound]; rfl, hequal⟩

/-- If each entry has a counterpart in a list of the same length, and no two the same one, then so it is the
other way round. -/
theorem exists_isCounterpart (hes : AreProper es) (hlength : es.length = fs.length)
    (h : ∀ e ∈ es, ∃ f ∈ fs, IsCounterpart e f) : ∀ f ∈ fs, ∃ e ∈ es, IsCounterpart e f := by
  have hindex (i : Fin es.length) : ∃ j : Fin fs.length, IsCounterpart es[i] fs[j] := by
    obtain ⟨f, hf, hef⟩ := h es[i] (List.getElem_mem _)
    obtain ⟨j, hj, rfl⟩ := List.mem_iff_getElem.mp hf
    exact ⟨⟨j, hj⟩, hef⟩
  choose g hg using hindex
  have hinjective : Function.Injective g := by
    intro i j hij
    have hagree : KeysAgree es[i] es[j] := (hg i).1.trans (hij ▸ (hg j).1.symm)
    by_contra hne
    rcases lt_or_gt_of_ne hne with hlt | hlt
    · exact List.pairwise_iff_getElem.mp hes.pairwise _ _ _ _ hlt hagree
    · exact List.pairwise_iff_getElem.mp hes.pairwise _ _ _ _ hlt hagree.symm
  have hsurjective : Function.Surjective g :=
    ((Fintype.bijective_iff_injective_and_card g).mpr ⟨hinjective, by simp [hlength]⟩).surjective
  intro f hf
  obtain ⟨j, hj, rfl⟩ := List.mem_iff_getElem.mp hf
  obtain ⟨i, hi⟩ := hsurjective ⟨j, hj⟩
  have hcounterpart := hg i
  rw [hi] at hcounterpart
  exact ⟨es[i], List.getElem_mem _, hcounterpart⟩

/-! ### Laws of equality -/

theorem IsProper.items (h : (Dyn.list xs).IsProper) : ∀ x ∈ xs, x.IsProper := by
  cases h with
  | scalar h => cases h
  | list h => exact h

theorem IsProper.content {c : Option Dyn} (h : (Dyn.optional c).IsProper) : ∀ v ∈ c, v.IsProper := by
  cases h with
  | scalar h => cases h
  | optional h => exact h

theorem IsProper.isScalar_of_scalarContent? {k : Content} (h : v.IsProper)
    (hk : v.scalarContent? = some k) : v.isScalar = true := by
  cases h with
  | scalar h => exact h
  | list => cases hk
  | map => cases hk
  | optional => cases hk

/-- What is equal to a scalar is one. -/
theorem isScalar_of_equals (hv : v.isScalar = true) (hw : w.IsProper) (h : v.equals w = true) :
    w.isScalar = true := by
  obtain ⟨k, -, hk⟩ := (equals_iff_of_isScalar hv hw).mp h
  exact hw.isScalar_of_scalarContent? hk

/-- **Equality is symmetric.** -/
theorem equals_symm (hv : v.IsProper) (hw : w.IsProper) (h : v.equals w = true) :
    w.equals v = true := by
  induction hv generalizing w with
  | @scalar v hv =>
    have hagree := (equals_iff_of_isScalar hv hw).mp h
    exact (equals_iff_of_isScalar (isScalar_of_equals hv hw h) (.scalar hv)).mpr hagree.symm
  | @list xs hxs ih =>
    cases w with
    | list ys =>
      have hforall := equalLists_iff_forall₂.mp h
      have hflip : List.Forall₂ (fun y x => y.equals x = true) ys xs := by
        refine List.Forall₂.flip ?_
        rw [List.forall₂_iff_get] at hforall ⊢
        refine ⟨hforall.1, fun i hx hy => ?_⟩
        exact ih _ (List.get_mem _ _) (hw.items _ (List.get_mem _ _)) (hforall.2 i hx hy)
      exact equalLists_iff_forall₂.mpr hflip
    | _ => cases h
  | @map es hdistinct hhashable hkeys hcontents _ ih =>
    cases w with
    | map fs =>
      have hes : AreProper es := ⟨hdistinct, hhashable, hkeys, hcontents⟩
      have hfs := hw.entries
      obtain ⟨hlength, hleft⟩ := (equals_map_iff_counterparts hes hfs).mp h
      refine (equals_map_iff_counterparts hfs hes).mpr ⟨hlength.symm, fun f hf => ?_⟩
      obtain ⟨e, he, hkeys, hequal⟩ := exists_isCounterpart hes hlength hleft f hf
      exact ⟨e, he, hkeys.symm, ih e he (hfs.contents f hf) hequal⟩
    | _ => cases h
  | @optional c _ ih =>
    cases w with
    | optional c' =>
      cases c with
      | none => cases c' <;> first | rfl | cases h
      | some v =>
        cases c' with
        | none => cases h
        | some w => exact ih v rfl (hw.content w rfl) h
    | _ => cases c <;> cases h

/-- **Equality is transitive.** -/
theorem equals_trans (hu : u.IsProper) (hv : v.IsProper) (hw : w.IsProper) (huv : u.equals v = true)
    (hvw : v.equals w = true) : u.equals w = true := by
  induction hu generalizing v w with
  | @scalar u hu =>
    have hagree := (equals_iff_of_isScalar hu hv).mp huv
    have hagree' := (equals_iff_of_isScalar (isScalar_of_equals hu hv huv) hw).mp hvw
    exact (equals_iff_of_isScalar hu hw).mpr (hagree.trans hagree')
  | @list xs hxs ih =>
    cases v with
    | list ys =>
      cases w with
      | list zs =>
        have hxy := List.forall₂_iff_get.mp (equalLists_iff_forall₂.mp huv)
        have hyz := List.forall₂_iff_get.mp (equalLists_iff_forall₂.mp hvw)
        refine equalLists_iff_forall₂.mpr (List.forall₂_iff_get.mpr
          ⟨hxy.1.trans hyz.1, fun i hx hz => ?_⟩)
        have hy : i < ys.length := hxy.1 ▸ hx
        exact ih _ (List.get_mem _ _) (hv.items _ (List.get_mem _ _)) (hw.items _ (List.get_mem _ _))
          (hxy.2 i hx hy) (hyz.2 i hy hz)
      | _ => cases hvw
    | _ => cases huv
  | @map es hdistinct hhashable hkeys hcontents _ ih =>
    cases v with
    | map fs =>
      cases w with
      | map gs =>
        have hes : AreProper es := ⟨hdistinct, hhashable, hkeys, hcontents⟩
        obtain ⟨hlength, hleft⟩ := (equals_map_iff_counterparts hes hv.entries).mp huv
        obtain ⟨hlength', hleft'⟩ := (equals_map_iff_counterparts hv.entries hw.entries).mp hvw
        refine (equals_map_iff_counterparts hes hw.entries).mpr
          ⟨hlength.trans hlength', fun e he => ?_⟩
        obtain ⟨f, hf, hef, hequal⟩ := hleft e he
        obtain ⟨g, hg, hfg, hequal'⟩ := hleft' f hf
        exact ⟨g, hg, hef.trans hfg,
          ih e he (hv.entries.contents f hf) (hw.entries.contents g hg) hequal hequal'⟩
      | _ => cases hvw
    | _ => cases huv
  | @optional c _ ih =>
    cases v with
    | optional c' =>
      cases w with
      | optional c'' =>
        cases c with
        | none => cases c' <;> first | exact hvw | cases huv
        | some u =>
          cases c' with
          | none => cases huv
          | some v =>
            cases c'' with
            | none => cases hvw
            | some w => exact ih u rfl (hv.content v rfl) (hw.content w rfl) huv hvw
      | _ => cases c' <;> cases hvw
    | _ => cases c <;> cases huv

/-- A key without a not-a-number has a content. -/
theorem exists_keyContent? (hv : v.IsProper) (hhash : v.isHashable = true)
    (hnan : v.holdsNaN = false) : ∃ k, v.keyContent? = some k := by
  induction hv with
  | @scalar v hv =>
    cases v with
    | double x =>
      obtain ⟨u, hu⟩ := Double.exists_exactValue? hnan
      exact ⟨.number u, by simp [keyContent?, Number.exactValue?, hu]⟩
    | list => cases hv
    | map => cases hv
    | optional => cases hv
    | members => cases hv
    | foreign => cases hv
    | _ => exact ⟨_, rfl⟩
  | list => cases hhash
  | map => cases hhash
  | @optional c _ ih =>
    cases c with
    | none => exact ⟨_, rfl⟩
    | some v =>
      obtain ⟨k, hk⟩ := ih v rfl hhash hnan
      exact ⟨.optional (some k), by simp [keyContent?, hk]⟩

theorem isHashable_of_isScalar (hv : v.isScalar = true) : v.isHashable = true := by
  cases v <;> first | rfl | cases hv

/-- A scalar but a not-a-number has a content. -/
theorem exists_scalarContent? (hv : v.isScalar = true) (hnan : v.holdsNaN = false) :
    ∃ k, v.scalarContent? = some k := by
  obtain ⟨k, hk⟩ := exists_keyContent? (.scalar hv) (isHashable_of_isScalar hv) hnan
  cases v with
  | bool b => exact ⟨_, rfl⟩
  | optional => cases hv
  | _ => exact ⟨k, hk⟩

/-- **A value without a not-a-number is equal to itself.** -/
theorem equals_self (hv : v.IsProper) (hnan : v.holdsNaN = false) : v.equals v = true := by
  induction hv with
  | @scalar v hv =>
    obtain ⟨k, hk⟩ := exists_scalarContent? hv hnan
    exact (equals_iff_of_isScalar hv (.scalar hv)).mpr ⟨k, hk, hk⟩
  | @list xs hxs ih =>
    have hitems := anyHoldsNaN_eq_false_iff.mp hnan
    exact equalLists_iff_forall₂.mpr (List.forall₂_same.mpr fun x hx => ih x hx (hitems x hx))
  | @map es hdistinct hhashable hkeys hcontents _ ih =>
    have hes : AreProper es := ⟨hdistinct, hhashable, hkeys, hcontents⟩
    have hentries := entriesHoldNaN_eq_false_iff.mp hnan
    refine (equals_map_iff_counterparts hes hes).mpr ⟨rfl, fun e he => ⟨e, he, ?_, ?_⟩⟩
    · obtain ⟨k, hk⟩ := exists_keyContent? (hkeys e he) (hhashable e he) (hentries e he).1
      exact ⟨k, hk, hk⟩
    · exact ih e he (hentries e he).2
  | @optional c _ ih =>
    cases c with
    | none => rfl
    | some v => exact ih v rfl hnan

end Dyn

end Filter

end LogStream
