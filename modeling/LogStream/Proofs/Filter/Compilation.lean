import LogStream.Proofs.Filter.Parser.Outcomes

/-! # What comes of compiling

A text is a program, or there is an error with a wording, of which the offset, if it has one, lies in the
text; or one of its tokens is a literal without value (`Program.compile_cases`). The last does happen
(`not_reported_of_badNumber`). Types are checked at the offsets of the tree (`located_check`). -/

namespace LogStream.Filter

/-! ### Rules -/

section Rules

variable {ts : List Token} {stop pos : Nat}

theorem located_constantType (hp : pos ≤ stop) (c : Constant) :
    Located ts stop (fun _ => True) (constantType pos c) := by
  unfold constantType
  split
  case h_3 =>
    split
    · exact hp
    · trivial
  all_goals trivial

theorem located_fieldType (hp : pos ≤ stop) (t : Ty) :
    Located ts stop (fun _ => True) (fieldType pos t) := by
  unfold fieldType
  split
  · trivial
  · split
    · trivial
    · exact hp
  · exact hp

theorem located_elementType (hp : pos ≤ stop) (operand key : Ty) :
    Located ts stop (fun _ => True) (elementType pos operand key) := by
  unfold elementType
  dsimp only
  split
  · trivial
  · split
    · trivial
    · exact hp
  · split
    · trivial
    · exact hp
  · exact hp

theorem Located.map {α β : Type} {x : Except CompileError α} {f : α → β}
    (hx : Located ts stop (fun _ => True) x) : Located ts stop (fun _ => True) (x.map f) := by
  cases x with
  | ok a => trivial
  | error e => cases e <;> exact hx

theorem located_selectionType {access : Ty → Except CompileError Ty}
    (h : ∀ t, Located ts stop (fun _ => True) (access t)) (lenient : Bool) (t : Ty) :
    Located ts stop (fun _ => True) (selectionType access lenient t) := by
  unfold selectionType
  split <;> exact (h _).map

theorem located_rangeElem (hp : pos ≤ stop) (t : Ty) :
    Located ts stop (fun _ => True) (rangeElem pos t) := by
  unfold rangeElem
  split
  case h_4 => exact hp
  all_goals trivial

theorem located_walkType (hp : pos ≤ stop) (kind : Walk) (elem body : Ty) :
    Located ts stop (fun _ => True) (walkType pos kind elem body) := by
  unfold walkType
  split
  · trivial
  · split
    · trivial
    · exact hp
  · split
    · trivial
    · exact hp

theorem located_conditionalType (hp : pos ≤ stop) (condition yes no : Ty) :
    Located ts stop (fun _ => True) (conditionalType pos condition yes no) := by
  unfold conditionalType
  split_ifs
  · trivial
  · trivial
  · exact hp

theorem located_callType (hp : pos ≤ stop) (function? : Option Builtin) (name : Text)
    (args : List Ty) : Located ts stop (fun _ => True) (callType pos function? name args) := by
  unfold callType
  split
  · exact hp
  · split
    · exact hp
    · trivial

end Rules

/-! ### Expressions -/

section Check

variable {ts : List Token} {stop : Nat}

mutual

/-- **What is wrong with the types of a tree is found at an offset of it.** -/
theorem located_check : ∀ (e : Expr) (scope : Scope), e.EndsBy stop →
    Located ts stop (fun _ => True) (check scope e)
  | .literal _ c, scope, h => by
    rw [check]
    exact located_constantType (List.forall_mem_cons.mp h).1 c
  | .ident _ name, scope, h => by
    rw [check]
    split
    · trivial
    · exact (List.forall_mem_cons.mp h).1
  | .select _ operand _ lenient, scope, h => by
    obtain ⟨hp, hoperand⟩ := List.forall_mem_cons.mp h
    rw [check]
    exact (located_check operand scope hoperand).bind fun t _ =>
      located_selectionType (located_fieldType hp) lenient t
  | .index _ operand key lenient, scope, h => by
    obtain ⟨hp, h⟩ := List.forall_mem_cons.mp h
    obtain ⟨hoperand, hkey⟩ := List.forall_mem_append.mp h
    rw [check]
    refine (located_check operand scope hoperand).bind fun t _ => ?_
    refine (located_check key scope hkey).bind fun k _ => ?_
    exact located_selectionType (fun t => located_elementType hp t k) lenient t
  | .call _ f args, scope, h => by
    obtain ⟨hp, hargs⟩ := List.forall_mem_cons.mp h
    rw [check]
    exact (located_checkAll args scope hargs).bind fun as _ => located_callType hp _ f as
  | .method _ f receiver args, scope, h => by
    obtain ⟨hp, h⟩ := List.forall_mem_cons.mp h
    obtain ⟨hreceiver, hargs⟩ := List.forall_mem_append.mp h
    rw [check]
    refine (located_checkAll args scope hargs).bind fun as _ => ?_
    exact (located_check receiver scope hreceiver).bind fun t _ => located_callType hp _ f (t :: as)
  | .list _ elements, scope, h => by
    rw [check]
    exact (located_checkAll elements scope (List.forall_mem_cons.mp h).2).bind fun _ _ => trivial
  | .map _ entries, scope, h => by
    rw [check]
    exact (located_checkEntries entries scope (List.forall_mem_cons.mp h).2).bind
      fun _ _ => trivial
  | .unary _ op operand, scope, h => by
    obtain ⟨hp, hoperand⟩ := List.forall_mem_cons.mp h
    rw [check]
    refine (located_check operand scope hoperand).bind fun t _ => ?_
    split
    · trivial
    · exact hp
  | .binary _ op left right, scope, h => by
    obtain ⟨hp, h⟩ := List.forall_mem_cons.mp h
    obtain ⟨hleft, hright⟩ := List.forall_mem_append.mp h
    rw [check]
    refine (located_check left scope hleft).bind fun a _ => ?_
    refine (located_check right scope hright).bind fun b _ => ?_
    split
    · trivial
    · exact hp
  | .conditional _ condition yes no, scope, h => by
    obtain ⟨hp, h⟩ := List.forall_mem_cons.mp h
    obtain ⟨hcondition, h⟩ := List.forall_mem_append.mp h
    obtain ⟨hyes, hno⟩ := List.forall_mem_append.mp h
    rw [check]
    refine (located_check condition scope hcondition).bind fun c _ => ?_
    split
    · refine (located_check yes scope hyes).bind fun a _ => ?_
      exact (located_check no scope hno).bind fun b _ => located_conditionalType hp c a b
    · exact hp
  | .has _ _ operand _, scope, h => by
    obtain ⟨hp, hoperand⟩ := List.forall_mem_cons.mp h
    rw [check]
    refine (located_check operand scope hoperand).bind fun t _ => ?_
    split
    · trivial
    · trivial
    · exact hp
  | .walk _ kind range var body, scope, h => by
    obtain ⟨hp, h⟩ := List.forall_mem_cons.mp h
    obtain ⟨hrange, hbody⟩ := List.forall_mem_append.mp h
    rw [check]
    refine (located_check range scope hrange).bind fun t _ => ?_
    refine (located_rangeElem hp t).bind fun elem _ => ?_
    refine (located_check body _ hbody).bind fun t _ => ?_
    exact located_walkType (hbody body body.mem_nodes) kind elem t
  | .bind _ var init body, scope, h => by
    obtain ⟨-, h⟩ := List.forall_mem_cons.mp h
    obtain ⟨hinit, hbody⟩ := List.forall_mem_append.mp h
    rw [check]
    exact (located_check init scope hinit).bind fun t _ => located_check body _ hbody
termination_by structural e => e

theorem located_checkAll : ∀ (es : List Expr) (scope : Scope), Expr.AllEndBy stop es →
    Located ts stop (fun _ => True) (checkAll scope es)
  | [], _, _ => trivial
  | e :: es, scope, h => by
    obtain ⟨he, hes⟩ := Expr.allEndBy_cons.mp h
    rw [checkAll]
    refine (located_check e scope he).bind fun _ _ => ?_
    exact (located_checkAll es scope hes).bind fun _ _ => trivial
termination_by structural es => es

theorem located_checkEntries : ∀ (es : List (Expr × Expr)) (scope : Scope),
    Expr.EntriesEndBy stop es → Located ts stop (fun _ => True) (checkEntries scope es)
  | [], _, _ => trivial
  | (key, content) :: es, scope, h => by
    obtain ⟨hkey, hcontent, hes⟩ := Expr.entriesEndBy_cons.mp h
    rw [checkEntries]
    refine (located_check key scope hkey).bind fun k _ => ?_
    split
    · refine (located_check content scope hcontent).bind fun _ _ => ?_
      exact (located_checkEntries es scope hes).bind fun _ _ => trivial
    · exact hkey key key.mem_nodes
termination_by structural es => es

end

end Check

/-! ### Programs -/

/-- The error has a wording, and its offset, if it has one, is at most the given one. -/
def CompileError.IsReported (stop : Nat) (e : CompileError) : Prop :=
  (∃ message, e.message? = some message) ∧ ∀ pos, e.position? = some pos → pos ≤ stop

theorem reported_of_located {α : Type} {ts : List Token} {stop : Nat} {P : α → Prop}
    {e : CompileError} (h : Located ts stop P (.error e)) :
    e.IsReported stop ∨ ∃ f, e = .fault f ∧ ∃ t ∈ ts, t.IsValueless f := by
  cases e with
  | «at» pos cause =>
    refine .inl ⟨⟨_, rfl⟩, ?_⟩
    rintro _ ⟨⟩
    exact h
  | badOutput output => exact h.elim
  | fault f => exact .inr ⟨f, rfl, h⟩

namespace Program

/-- **A text is a program, or an error in it is reported, or it has a literal without value.** -/
theorem compile_cases (source : Text) :
    (∃ tree, compile source = .ok ⟨source, tree⟩) ∨
      (∃ e, compile source = .error e ∧ e.IsReported source.length) ∨
      ∃ f, compile source = .error (.fault f) ∧ ∃ t ∈ (lex source).1, t.IsValueless f := by
  have herror {e : CompileError} (hc : compile source = .error e)
      (h : e.IsReported source.length ∨ ∃ f, e = .fault f ∧ ∃ t ∈ (lex source).1, t.IsValueless f) :
      (∃ e, compile source = .error e ∧ e.IsReported source.length) ∨
        ∃ f, compile source = .error (.fault f) ∧ ∃ t ∈ (lex source).1, t.IsValueless f := by
    rcases h with h | ⟨f, rfl, h⟩
    · exact .inl ⟨e, hc, h⟩
    · exact .inr ⟨f, hc, h⟩
  have hparse := located_parse source
  cases hp : parse source with
  | error e =>
    rw [hp] at hparse
    exact .inr (herror (by rw [compile, hp]; rfl) (reported_of_located hparse))
  | ok tree =>
    rw [hp] at hparse
    have hcheck : Located (lex source).1 source.length (fun _ => True) (check recordScope tree) :=
      located_check tree recordScope hparse
    cases ht : check recordScope tree with
    | error e =>
      rw [ht] at hcheck
      exact .inr (herror (by rw [compile, hp, ok_bind, ht]; rfl) (reported_of_located hcheck))
    | ok output =>
      by_cases hbool : output = .bool
      · exact .inl ⟨tree, by rw [compile, hp, ok_bind, ht, ok_bind, if_pos hbool]; rfl⟩
      · refine .inr (.inl ⟨.badOutput output, ?_, ⟨_, rfl⟩, nofun⟩)
        rw [compile, hp, ok_bind, ht, ok_bind, if_neg hbool]
        rfl

/-- An escape whose number is that of no code point. -/
def badNumber : Text := Text.lit "\"\\U00110000\""

/-- A literal without value is not reported. -/
theorem not_reported_of_badNumber :
    compile badNumber = .error (.fault .badValue) ∧
      ¬ ∀ source, (∃ p, compile source = .ok p) ∨
        ∃ e, compile source = .error e ∧ e.IsReported source.length := by
  have hfault : (match compile badNumber with
      | .error e => decide (e = .fault .badValue)
      | .ok _ => false) = true := by decide +kernel
  have hcompile : compile badNumber = .error (.fault .badValue) := by
    cases h : compile badNumber with
    | ok p => rw [h] at hfault; cases hfault
    | error e => rw [h] at hfault; exact congrArg Except.error (of_decide_eq_true hfault)
  refine ⟨hcompile, fun h => ?_⟩
  rcases h badNumber with ⟨p, hp⟩ | ⟨e, he, ⟨message, hm⟩, -⟩
  · rw [hcompile] at hp
    cases hp
  · rw [hcompile] at he
    cases he
    cases hm

end Program

end LogStream.Filter
