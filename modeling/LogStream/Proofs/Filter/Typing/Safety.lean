import LogStream.Proofs.Filter.Typing.Parts

/-! # Type safety

If all parts of an expression have static types, its value has the type that the checker gives, and
it fails only as typed operands may make it (`isSound`): the induction is on the expression, with
one lemma for each node and a body in the scope of its variable. A program over the variables of a
record therefore selects or fails, but its value is always a truth value (`eval_typed`). -/

namespace LogStream.Filter

open Eval (Sound sound_failShowing)

variable {textless : String → Prop} {scope : Scope} {env : Activation} {a b c t : Ty}

/-! ### Rules -/

theorem hasType_literal {pos : Nat} {k : Constant} (h : constantType pos k = .ok t) :
    k.value.HasType t := by
  cases k with
  | null => cases h; exact .null
  | bool b => cases h; exact .bool b
  | int n =>
    unfold constantType at h
    dsimp only at h
    split at h
    · cases h
    · cases h
      exact .int n
  | uint n => cases h; exact .uint n
  | double x => cases h; exact .double x
  | string u => cases h; exact .string u
  | bytes bs => cases h; exact .bytes bs

theorem sound_applyNamed {pos : Nat} {function? : Option Builtin} {name : Text} {vs : List Dyn}
    {ts : List Ty} (hvs : HasTypes vs ts) (hts : ∀ a ∈ ts, a.isStatic = true)
    (ht : t.isStatic = true) (h : callType pos function? name ts = .ok t)
    (hprint : ∀ n ∈ unprintable function? (.ok ts), textless n) :
    Sound textless (Dyn.HasType · t) (applyNamed function? vs) := by
  cases function? with
  | none => cases h
  | some f =>
    unfold callType at h
    dsimp only at h
    split at h
    · cases h
    · next r hr =>
      cases h
      exact Builtin.sound_apply f hvs hts ht hr hprint

/-- Elements of one static type make a list of this type. -/
theorem hasType_list {vs : List Dyn} {ts : List Ty} (hvs : HasTypes vs ts)
    (h : (Ty.join ts).isStatic = true) : (Dyn.list vs).HasType (.list (.join ts)) := by
  refine .list fun v hv => ?_
  obtain ⟨a, ha, hva⟩ := hvs.exists_of_mem v hv
  exact Ty.eq_join h a ha ▸ hva

theorem eq_bool_of_logical (ha : a.isStatic = true) (hb : b.isStatic = true)
    (h : (if a.assignable .bool && b.assignable .bool then some Ty.bool else none) = some t) :
    a = .bool ∧ b = .bool ∧ t = .bool := by
  obtain ⟨hassign, rfl⟩ := eq_bool_of_truth h
  obtain ⟨ha', hb'⟩ := Bool.and_eq_true_iff.mp hassign
  exact ⟨Ty.eq_of_assignable ha rfl ha', Ty.eq_of_assignable hb rfl hb', rfl⟩

/-- Both outcomes of a conditional of static type have its type. -/
theorem eq_of_conditionalType {pos : Nat} (ht : t.isStatic = true)
    (h : conditionalType pos c a b = .ok t) : a = t ∧ b = t := by
  unfold conditionalType at h
  split at h
  · next hab =>
    cases h
    exact ⟨rfl, hab.symm⟩
  · split at h
    · cases h
      cases ht
    · cases h

theorem isKey_of_checkEntries : ∀ {es : List (Expr × Expr)} {ks cs : List Ty},
    checkEntries scope es = .ok (ks, cs) → ∀ k ∈ ks, k.isKey = true
  | [], _, _, h => by
    cases h
    exact List.forall_mem_nil _
  | (key, content) :: es, _, _, h => by
    obtain ⟨k, hk, h⟩ := exists_of_bind_eq_ok h
    split at h
    · next hkey =>
      obtain ⟨c, hc, h⟩ := exists_of_bind_eq_ok h
      obtain ⟨⟨ks, cs⟩, hes, h⟩ := exists_of_bind_eq_ok h
      cases h
      exact List.forall_mem_cons.mpr ⟨hkey, isKey_of_checkEntries hes⟩
    · cases h

/-- Entries of one type of keys and one of contents make a map of these types. -/
theorem hasType_map {es : List (Dyn × Dyn)} (hk : a.isKey = true)
    (hes : EntriesHaveTypes a b es) : (Dyn.map es).HasType (.map a b) :=
  .map hk (fun e he => (hes e he).1) fun e he => (hes e he).2

theorem isKey_join {ts : List Ty} (h : (Ty.join ts).isStatic = true)
    (hts : ∀ a ∈ ts, a.isKey = true) : (Ty.join ts).isKey = true := by
  cases ts with
  | nil => cases h
  | cons a ts => exact Ty.eq_join h a List.mem_cons_self ▸ hts a List.mem_cons_self

/-! ### Expressions -/

/-- If all parts of the expression are safe, its evaluation is sound. -/
def IsSound (textless : String → Prop) (e : Expr) : Prop :=
  ∀ {scope : Scope} {env : Activation} {t : Ty}, Binds scope env →
    (∀ p ∈ e.parts scope, Safe textless p) → check scope e = .ok t →
    Sound textless (Dyn.HasType · t) (eval env e)

/-- If all parts of the expressions are safe, the evaluation of them is sound. -/
def AllSound (textless : String → Prop) (es : List Expr) : Prop :=
  ∀ {scope : Scope} {env : Activation} {ts : List Ty}, Binds scope env →
    (∀ p ∈ Expr.partsAll scope es, Safe textless p) → checkAll scope es = .ok ts →
    Sound textless (HasTypes · ts) (evalAll env es)

/-- If all parts of the entries are safe, all keys have one type and all contents have one type, the
evaluation of them behind others like them is sound. -/
def EntriesSound (textless : String → Prop) (es : List (Expr × Expr)) : Prop :=
  ∀ {scope : Scope} {env : Activation} {ks cs : List Ty} {k c : Ty} {done : List (Dyn × Dyn)},
    Binds scope env → (∀ p ∈ Expr.partsEntries scope es, Safe textless p) →
    checkEntries scope es = .ok (ks, cs) → (∀ a ∈ ks, a = k) → (∀ a ∈ cs, a = c) →
    EntriesHaveTypes k c done → Sound textless (EntriesHaveTypes k c) (evalEntries env done es)

namespace IsSound

variable {pos : Nat} {operand key left right body : Expr} {args : List Expr} {var : Text}

theorem literal {k : Constant} : IsSound textless (.literal pos k) :=
  fun _ _ hcheck => hasType_literal hcheck

theorem ident {name : Text} : IsSound textless (.ident pos name) := by
  intro scope env t henv hparts hcheck
  have ht := isStatic_of_parts hparts hcheck
  rw [check] at hcheck
  split at hcheck
  · next hname =>
    cases hcheck
    obtain ⟨v, hv, hvt⟩ := henv name t hname ht
    rw [eval, hv]
    exact hvt
  · cases hcheck

theorem select {field : Text} {lenient : Bool} (ih : IsSound textless operand) :
    IsSound textless (.select pos operand field lenient) := by
  intro scope env t henv hparts hcheck
  obtain ⟨-, hoperand⟩ := List.forall_mem_cons.mp hparts
  obtain ⟨a, ha, hfield⟩ := exists_of_bind_eq_ok hcheck
  exact (ih henv hoperand ha).bind fun v hv =>
    sound_select (isStatic_of_parts hoperand ha) hv hfield field

theorem index {lenient : Bool} (ih : IsSound textless operand) (ihkey : IsSound textless key) :
    IsSound textless (.index pos operand key lenient) := by
  intro scope env t henv hparts hcheck
  obtain ⟨-, hparts⟩ := List.forall_mem_cons.mp hparts
  obtain ⟨hoperand, hkey⟩ := List.forall_mem_append.mp hparts
  obtain ⟨a, ha, hcheck⟩ := exists_of_bind_eq_ok hcheck
  obtain ⟨k, hk, helement⟩ := exists_of_bind_eq_ok hcheck
  exact (ih henv hoperand ha).bind fun v hv => (ihkey henv hkey hk).bind fun w hw =>
    sound_index (isStatic_of_parts hoperand ha) (isStatic_of_parts hkey hk) hv hw helement

theorem call {f : Text} (ih : AllSound textless args) : IsSound textless (.call pos f args) := by
  intro scope env t henv hparts hcheck
  have ht := isStatic_of_parts hparts hcheck
  obtain ⟨hself, hargs⟩ := List.forall_mem_cons.mp hparts
  obtain ⟨ts, hts, hresult⟩ := exists_of_bind_eq_ok hcheck
  have hprint : ∀ n ∈ unprintable (Builtin.global? f) (.ok ts), textless n := hts ▸ hself.prints
  refine sound_called f ((ih henv hargs hts).bind fun vs hvs => ?_)
  exact sound_applyNamed hvs (isStatic_of_partsAll hargs hts) ht hresult hprint

theorem method {f : Text} (ih : IsSound textless operand) (ihargs : AllSound textless args) :
    IsSound textless (.method pos f operand args) := by
  intro scope env t henv hparts hcheck
  have ht := isStatic_of_parts hparts hcheck
  obtain ⟨hself, hparts⟩ := List.forall_mem_cons.mp hparts
  obtain ⟨hoperand, hargs⟩ := List.forall_mem_append.mp hparts
  obtain ⟨ts, hts, hcheck⟩ := exists_of_bind_eq_ok hcheck
  obtain ⟨r, hr, hresult⟩ := exists_of_bind_eq_ok hcheck
  have hprint : ∀ n ∈ unprintable (Builtin.member? f) (.ok (r :: ts)), textless n := by
    have hself := hself.prints
    rw [Expr.unprintable, hr, hts] at hself
    exact hself
  have hstatic : ∀ a ∈ r :: ts, a.isStatic = true :=
    List.forall_mem_cons.mpr ⟨isStatic_of_parts hoperand hr, isStatic_of_partsAll hargs hts⟩
  refine sound_called f ((ih henv hoperand hr).bind fun v hv => ?_)
  refine (ihargs henv hargs hts).bind fun vs hvs => ?_
  exact sound_applyNamed (.cons hv hvs) hstatic ht hresult hprint

theorem list (ih : AllSound textless args) : IsSound textless (.list pos args) := by
  intro scope env t henv hparts hcheck
  have ht := isStatic_of_parts hparts hcheck
  obtain ⟨-, hargs⟩ := List.forall_mem_cons.mp hparts
  obtain ⟨ts, hts, hresult⟩ := exists_of_bind_eq_ok hcheck
  cases hresult
  exact (ih henv hargs hts).bind fun vs hvs => hasType_list hvs ht

theorem map {entries : List (Expr × Expr)} (ih : EntriesSound textless entries) :
    IsSound textless (.map pos entries) := by
  intro scope env t henv hparts hcheck
  have ht := isStatic_of_parts hparts hcheck
  obtain ⟨-, hentries⟩ := List.forall_mem_cons.mp hparts
  obtain ⟨⟨ks, cs⟩, hes, hresult⟩ := exists_of_bind_eq_ok hcheck
  cases hresult
  obtain ⟨hks, hcs⟩ := Bool.and_eq_true_iff.mp ht
  have hkey := isKey_join hks (isKey_of_checkEntries hes)
  have hsound := ih henv hentries hes (Ty.eq_join hks) (Ty.eq_join hcs) (List.forall_mem_nil _)
  exact hsound.bind fun es hes => hasType_map hkey hes

theorem unary {op : UnaryOp} (ih : IsSound textless operand) :
    IsSound textless (.unary pos op operand) := by
  intro scope env t henv hparts hcheck
  obtain ⟨-, hoperand⟩ := List.forall_mem_cons.mp hparts
  obtain ⟨a, ha, hresult⟩ := exists_of_bind_eq_ok hcheck
  have hstatic := isStatic_of_parts hoperand ha
  have hvalue := ih henv hoperand ha
  split at hresult
  · next r hr =>
    cases hresult
    cases op with
    | not =>
      obtain ⟨hassign, rfl⟩ := eq_bool_of_truth hr
      obtain rfl := Ty.eq_of_assignable hstatic rfl hassign
      exact hvalue.bind fun v hv => (sound_truth hv "!_").bind fun b _ => .bool _
    | neg => exact hvalue.bind fun v hv => sound_negate hv hstatic hr
  · cases hresult

theorem binary {op : BinaryOp} (ihleft : IsSound textless left) (ihright : IsSound textless right) :
    IsSound textless (.binary pos op left right) := by
  intro scope env t henv hparts hcheck
  have ht := isStatic_of_parts hparts hcheck
  obtain ⟨-, hparts⟩ := List.forall_mem_cons.mp hparts
  obtain ⟨hleft, hright⟩ := List.forall_mem_append.mp hparts
  obtain ⟨a, ha, hcheck⟩ := exists_of_bind_eq_ok hcheck
  obtain ⟨b, hb, hresult⟩ := exists_of_bind_eq_ok hcheck
  have hastatic := isStatic_of_parts hleft ha
  have hbstatic := isStatic_of_parts hright hb
  have hv := ihleft henv hleft ha
  have hw := ihright henv hright hb
  split at hresult
  · next r hr =>
    cases hresult
    cases op with
    | or | and =>
      obtain ⟨rfl, rfl, rfl⟩ := eq_bool_of_logical hastatic hbstatic hr
      exact sound_logical hv hw
    | mem =>
      obtain ⟨hmember, rfl⟩ := eq_bool_of_truth hr
      exact hw.bind fun w hw => hv.bind fun v _ => sound_isIn hw hmember v
    | _ =>
      exact hv.bind fun v hv => hw.bind fun w hw =>
        sound_operate (by decide) (by decide) hv hw hastatic hbstatic ht hr
  · cases hresult

theorem conditional {condition yes no : Expr} (ih : IsSound textless condition)
    (ihyes : IsSound textless yes) (ihno : IsSound textless no) :
    IsSound textless (.conditional pos condition yes no) := by
  intro scope env t henv hparts hcheck
  have ht := isStatic_of_parts hparts hcheck
  obtain ⟨-, hparts⟩ := List.forall_mem_cons.mp hparts
  obtain ⟨hcondition, hparts⟩ := List.forall_mem_append.mp hparts
  obtain ⟨hyes, hno⟩ := List.forall_mem_append.mp hparts
  obtain ⟨c, hc, hcheck⟩ := exists_of_bind_eq_ok hcheck
  split at hcheck
  · next hassign =>
    obtain rfl := Ty.eq_of_assignable (isStatic_of_parts hcondition hc) rfl hassign
    obtain ⟨a, ha, hcheck⟩ := exists_of_bind_eq_ok hcheck
    obtain ⟨b, hb, hresult⟩ := exists_of_bind_eq_ok hcheck
    obtain ⟨rfl, rfl⟩ := eq_of_conditionalType ht hresult
    refine (ih henv hcondition hc).bind fun v hv => ?_
    refine (sound_truth hv "_?_:_").bind fun b _ => ?_
    split
    · exact ihyes henv hyes ha
    · exact ihno henv hno hb
  · cases hcheck

theorem has {selectPos : Nat} {field : Text} (ih : IsSound textless operand) :
    IsSound textless (.has pos selectPos operand field) := by
  intro scope env t henv hparts hcheck
  obtain ⟨-, hoperand⟩ := List.forall_mem_cons.mp hparts
  obtain ⟨a, ha, hresult⟩ := exists_of_bind_eq_ok hcheck
  have hvalue := ih henv hoperand ha
  split at hresult
  · cases isStatic_of_parts hoperand ha
  · cases hresult
    exact hvalue.bind fun v hv => sound_hasField hv field
  · cases hresult

/-- The body is evaluated with a value of the type of the variable, for every item. -/
theorem walk {kind : Walk} (ih : IsSound textless operand) (ihbody : IsSound textless body) :
    IsSound textless (.walk pos kind operand var body) := by
  intro scope env t henv hparts hcheck
  obtain ⟨-, hparts⟩ := List.forall_mem_cons.mp hparts
  obtain ⟨hrange, hbody⟩ := List.forall_mem_append.mp hparts
  obtain ⟨r, hr, hcheck⟩ := exists_of_bind_eq_ok hcheck
  obtain ⟨a, ha, hcheck⟩ := exists_of_bind_eq_ok hcheck
  obtain ⟨b, hb, hresult⟩ := exists_of_bind_eq_ok hcheck
  rw [hr, ok_bind, ha] at hbody
  refine (ih henv hrange hr).bind fun v hv => ?_
  refine (sound_iterated hv ha).bind fun items hitems => ?_
  refine sound_walk hitems (isStatic_of_parts hbody hb) (fun x hx => ?_) hresult
  exact ihbody (henv.cons var (hitems x hx)) hbody hb

theorem bind {init : Expr} (ih : IsSound textless init) (ihbody : IsSound textless body) :
    IsSound textless (.bind pos var init body) := by
  intro scope env t henv hparts hcheck
  obtain ⟨-, hparts⟩ := List.forall_mem_cons.mp hparts
  obtain ⟨hinit, hbody⟩ := List.forall_mem_append.mp hparts
  obtain ⟨a, ha, hcheck⟩ := exists_of_bind_eq_ok hcheck
  rw [ha] at hbody
  refine (ih henv hinit ha).bind fun v hv => ?_
  exact ihbody (henv.cons var hv) hbody hcheck

end IsSound

theorem AllSound.nil : AllSound textless [] := by
  intro scope env ts _ _ hcheck
  cases hcheck
  exact List.Forall₂.nil

theorem AllSound.cons {e : Expr} {es : List Expr} (ih : IsSound textless e)
    (ihs : AllSound textless es) : AllSound textless (e :: es) := by
  intro scope env ts henv hparts hcheck
  obtain ⟨he, hes⟩ := List.forall_mem_append.mp hparts
  obtain ⟨t, ht, hcheck⟩ := exists_of_bind_eq_ok hcheck
  obtain ⟨ts, hts, hresult⟩ := exists_of_bind_eq_ok hcheck
  cases hresult
  refine (ih henv he ht).bind fun v hv => ?_
  exact (ihs henv hes hts).bind fun vs hvs => List.Forall₂.cons hv hvs

theorem EntriesSound.nil : EntriesSound textless [] := fun _ _ _ _ _ hdone => hdone

theorem EntriesSound.cons {key content : Expr} {es : List (Expr × Expr)}
    (ihkey : IsSound textless key) (ihcontent : IsSound textless content)
    (ihs : EntriesSound textless es) : EntriesSound textless ((key, content) :: es) := by
  intro scope env ks cs k c done henv hparts hcheck hks hcs hdone
  obtain ⟨hkey, hparts⟩ := List.forall_mem_append.mp hparts
  obtain ⟨hcontent, hes⟩ := List.forall_mem_append.mp hparts
  obtain ⟨a, ha, hcheck⟩ := exists_of_bind_eq_ok hcheck
  split at hcheck
  · next hisKey =>
    obtain ⟨b, hb, hcheck⟩ := exists_of_bind_eq_ok hcheck
    obtain ⟨⟨as, bs⟩, hrest, hresult⟩ := exists_of_bind_eq_ok hcheck
    cases hresult
    obtain ⟨rfl, hks⟩ := List.forall_mem_cons.mp hks
    obtain ⟨rfl, hcs⟩ := List.forall_mem_cons.mp hcs
    refine (ihkey henv hkey ha).bind fun v hv => ?_
    refine (sound_addEntry hdone hisKey hv (ihcontent henv hcontent hb)).bind fun done hdone => ?_
    exact ihs henv hes hrest hks hcs hdone
  · cases hcheck

mutual

/-- **An expression of safe parts is sound.** -/
theorem isSound : ∀ e : Expr, IsSound textless e
  | .literal _ _ => IsSound.literal
  | .ident _ _ => IsSound.ident
  | .select _ operand _ _ => IsSound.select (isSound operand)
  | .index _ operand key _ => IsSound.index (isSound operand) (isSound key)
  | .call _ _ args => IsSound.call (allSound args)
  | .method _ _ receiver args => IsSound.method (isSound receiver) (allSound args)
  | .list _ elements => IsSound.list (allSound elements)
  | .map _ entries => IsSound.map (entriesSound entries)
  | .unary _ _ operand => IsSound.unary (isSound operand)
  | .binary _ _ left right => IsSound.binary (isSound left) (isSound right)
  | .conditional _ condition yes no =>
    IsSound.conditional (isSound condition) (isSound yes) (isSound no)
  | .has _ _ operand _ => IsSound.has (isSound operand)
  | .walk _ _ range _ body => IsSound.walk (isSound range) (isSound body)
  | .bind _ _ init body => IsSound.bind (isSound init) (isSound body)
termination_by structural e => e

theorem allSound : ∀ es : List Expr, AllSound textless es
  | [] => AllSound.nil
  | e :: es => AllSound.cons (isSound e) (allSound es)
termination_by structural es => es

theorem entriesSound : ∀ es : List (Expr × Expr), EntriesSound textless es
  | [] => EntriesSound.nil
  | (key, content) :: es => EntriesSound.cons (isSound key) (isSound content) (entriesSound es)
termination_by structural es => es

end

/-! ### Programs -/

theorem compile_eq_ok {source : Text} {p : Program} (h : Program.compile source = .ok p) :
    check recordScope p.tree = .ok .bool := by
  obtain ⟨tree, -, h⟩ := exists_of_bind_eq_ok h
  obtain ⟨output, houtput, h⟩ := exists_of_bind_eq_ok h
  split at h
  · next hbool =>
    cases h
    rw [houtput, hbool]
  · cases h

/-- A program whose expression is sound never tells that its value is no truth value. -/
theorem evaluate_ne_badOutput {p : Program}
    (h : Sound textless (Dyn.HasType · .bool) (eval env p.tree)) (n : String) :
    p.evaluate env ≠ .error (.eval (.badOutput n)) := by
  unfold Program.evaluate
  split
  · nofun
  · next v hne hv =>
    rw [hv] at h
    cases h with
    | bool b => exact absurd rfl (hne b)
  · next e he =>
    rintro hbad
    cases hbad
    exact absurd (h.excused he) id
  · split <;> nofun

section Record

variable {message level : Text} {time : Time}
  (hmessage : env.lookup (Text.lit "msg") = some (.string message))
  (hlevel : env.lookup (Text.lit "level") = some (.string level))
  (htime : env.lookup (Text.lit "time") = some (.timestamp time))
  (hoffset : time.offset.isSome = true)

include hmessage hlevel htime hoffset

/-- The variables of a record have values of their types, but for the attributes: their type is not
static. -/
theorem binds_recordScope : Binds recordScope env := by
  intro name t hname hstatic
  obtain ⟨rfl, rfl⟩ | hname := of_lookup_cons hname
  · exact ⟨_, hmessage, .string message⟩
  obtain ⟨rfl, rfl⟩ | hname := of_lookup_cons hname
  · exact ⟨_, hlevel, .string level⟩
  obtain ⟨rfl, rfl⟩ | hname := of_lookup_cons hname
  · exact ⟨_, htime, .timestamp hoffset⟩
  obtain ⟨rfl, rfl⟩ | hname := of_lookup_cons hname
  · cases hstatic
  · cases hname

/-- **Type safety.** If no part of an expression over the variables of a record has a type with
`dyn` in it, then its value has the type that the checker gives. It fails neither because an
operator, a function or a walk does not take what it is given nor because there are no fields, but
for the calls that print: a value of an argument's type may have no text. A program never tells that
its value is no truth value. -/
theorem eval_typed {e : Expr} (hstatic : ∀ p ∈ e.parts recordScope, p.2.isStatic p.1 = true)
    (hcheck : check recordScope e = .ok t) :
    (∀ v, eval env e = .ok v → v.HasType t) ∧
    (∀ f, eval env e = .error f →
      f.Excused fun n => ∃ p ∈ e.parts recordScope, n ∈ p.2.unprintable p.1) ∧
    ∀ source p, Program.compile source = .ok p → p.tree = e →
      ∀ n, p.evaluate env ≠ .error (.eval (.badOutput n)) := by
  have hbinds := binds_recordScope hmessage hlevel htime hoffset
  have hparts : ∀ p ∈ e.parts recordScope,
      Safe (fun n => ∃ p ∈ e.parts recordScope, n ∈ p.2.unprintable p.1) p :=
    fun p hp => ⟨hstatic p hp, fun n hn => ⟨p, hp, hn⟩⟩
  have hsound := isSound e hbinds hparts hcheck
  refine ⟨fun v hv => ?_, fun f hf => hsound.excused hf, ?_⟩
  · rw [hv] at hsound
    exact hsound
  · rintro source p hp rfl
    obtain rfl : Ty.bool = t := Except.ok.inj ((compile_eq_ok hp).symm.trans hcheck)
    exact evaluate_ne_badOutput hsound

end Record

/-- Whether the message or the level starts with the letters of a word: a walk with a call in it. -/
def startsSomewhere (word : Text) : Expr :=
  .walk 12 .any (.list 0 [.ident 1 (Text.lit "msg"), .ident 6 (Text.lit "level")]) (Text.lit "x")
    (.method 34 (Text.lit "startsWith") (.ident 22 (Text.lit "x")) [.literal 35 (.string word)])

/-- The variables of a record without attributes. -/
def bareRecord (message level : Text) (time : Time) : Activation :=
  [(Text.lit "msg", .string message), (Text.lit "level", .string level),
    (Text.lit "time", .timestamp time)]

theorem eval_typed_startsSomewhere :
    (∀ p ∈ (startsSomewhere (Text.lit "IN")).parts recordScope, p.2.isStatic p.1 = true) ∧
    check recordScope (startsSomewhere (Text.lit "IN")) = .ok .bool ∧
    eval (bareRecord (Text.lit "started") (Text.lit "INFO") .epoch)
      (startsSomewhere (Text.lit "IN")) = .ok (.bool true) ∧ (Dyn.bool true).HasType .bool := by
  let env := bareRecord (Text.lit "started") (Text.lit "INFO") .epoch
  let e := startsSomewhere (Text.lit "IN")
  have hmessage : env.lookup (Text.lit "msg") = some (.string (Text.lit "started")) := rfl
  have hlevel : env.lookup (Text.lit "level") = some (.string (Text.lit "INFO")) := rfl
  have htime : env.lookup (Text.lit "time") = some (.timestamp .epoch) := rfl
  have hstatic : ∀ p ∈ e.parts recordScope, p.2.isStatic p.1 = true := by decide +kernel
  have hcheck : check recordScope e = .ok .bool := rfl
  have hvalue : eval env e = .ok (.bool true) := rfl
  have htyped := (eval_typed hmessage hlevel htime rfl hstatic hcheck).1 _ hvalue
  exact ⟨hstatic, hcheck, hvalue, htyped⟩

/-- What the exception is about: a list of static type has no text. -/
example : eval [] (.call 0 (Text.lit "string") [.list 7 [.literal 8 (.int 1)]]) =
    .error (.error (.noOverload "string" ["list"])) := rfl

end LogStream.Filter
