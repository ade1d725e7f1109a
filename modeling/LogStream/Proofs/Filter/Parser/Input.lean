import LogStream.Proofs.Filter.Reading
import LogStream.Proofs.Filter.Tokens

/-! # The input of the parser

What the parser sees of the tokens that are left is what the reader of derivations sees: the
bracket, the name or the operator at the front. What stands at the front of a step says how a member
goes on (`parseSteps_point`, `parseSteps_lenient`, `parseSteps_bracket`, `parseSteps_stop`). -/

namespace LogStream.Filter

/-! ### Input -/

namespace Input

variable {i : Input} {t : Token} {us : List Token}

theorem next_eq (h : i.tokens = t :: us) : i.next = ⟨us, i.stop⟩ := by
  unfold next
  rw [h]
  rfl

theorem pos_eq (h : i.tokens = t :: us) : i.pos = t.pos := by
  unfold pos
  rw [h]
  rfl

theorem isAt_eq_isSome (s : String) : i.isAt s = (Terminal.read? s i.tokens).isSome := by
  unfold isAt
  cases i.tokens with
  | nil => rfl
  | cons t us =>
    rw [Terminal.read?]
    split
    · next h => exact h
    · next h => exact Bool.eq_false_iff.mpr h

theorem isAt_eq_true {s : String} {b : Terminal s} (h : Terminal.read? s i.tokens = some (b, us)) :
    i.isAt s = true := by
  rw [isAt_eq_isSome, h]
  rfl

theorem isAt_eq_false {s : String} (h : Terminal.read? s i.tokens = none) : i.isAt s = false := by
  rw [isAt_eq_isSome, h]
  rfl

theorem exists_of_isAt {s : String} (h : i.isAt s = true) :
    ∃ (b : Terminal s) (us : List Token), Terminal.read? s i.tokens = some (b, us) := by
  rw [isAt_eq_isSome] at h
  obtain ⟨⟨b, us⟩, hread⟩ := Option.isSome_iff_exists.mp h
  exact ⟨b, us, hread⟩

theorem read?_of_not_isAt {s : String} (h : ¬ i.isAt s = true) :
    Terminal.read? s i.tokens = none := by
  rw [isAt_eq_isSome] at h
  exact Option.not_isSome_iff_eq_none.mp h

/-- One token is not two brackets. -/
theorem isAt_of_ne {s s' : String} {b : Terminal s} (hne : s ≠ s')
    (h : Terminal.read? s i.tokens = some (b, us)) : i.isAt s' = false := by
  rw [isAt_eq_isSome, Terminal.eq_of_read? h, Terminal.read?_of_ne hne]
  rfl

theorem expect_eq_ok {s : String} {b : Terminal s} (h : Terminal.read? s i.tokens = some (b, us)) :
    i.expect s = .ok ⟨us, i.stop⟩ := by
  unfold expect
  rw [if_pos (isAt_eq_true h), next_eq (Terminal.eq_of_read? h)]

theorem exists_of_expect {s : String} {j : Input} (h : i.expect s = .ok j) :
    ∃ (b : Terminal s) (us : List Token),
      Terminal.read? s i.tokens = some (b, us) ∧ j = ⟨us, i.stop⟩ := by
  unfold expect at h
  split at h
  · next hat =>
    obtain ⟨b, us, hread⟩ := exists_of_isAt hat
    rw [next_eq (Terminal.eq_of_read? hread)] at h
    cases h
    exact ⟨b, us, hread, rfl⟩
  · cases h

theorem name_eq_ok {w : Word} (h : Word.read? i.tokens = some (w, us)) :
    i.name = .ok (w.token.text, ⟨us, i.stop⟩) := by
  unfold name
  rw [Word.eq_of_read? h]
  exact if_pos w.isName.1

end Input

/-! ### Names -/

theorem Input.exists_of_name {i j : Input} {n : Text} (hi : Regular i.tokens)
    (h : i.name = .ok (n, j)) :
    ∃ (w : Word) (us : List Token),
      Word.read? i.tokens = some (w, us) ∧ n = w.token.text ∧ j = ⟨us, i.stop⟩ := by
  unfold Input.name at h
  split at h
  · next t us hts =>
    split at h
    · next hk =>
      cases h
      have hname := (hi t (hts ▸ List.mem_cons_self)).isName hk
      rw [hts]
      exact ⟨⟨t, hname⟩, us, Word.read?_cons ⟨t, hname⟩ us, rfl, rfl⟩
    · cases h
  · cases h

/-! ### Operators at the front -/

theorem Operator.read?_cases (level : Nat) (ts : List Token) :
    (∃ op us, Operator.read? level ts = some (op, us) ∧
      ts.head?.bind Token.binaryOp? = some op.op) ∨
    (Operator.read? level ts = none ∧
      ∀ op, ts.head?.bind Token.binaryOp? = some op → op.level ≠ level) := by
  cases ts with
  | nil => exact .inr ⟨rfl, fun op h => by cases h⟩
  | cons t us =>
    rw [List.head?_cons, Option.bind_some]
    cases hop : t.binaryOp? with
    | none =>
      refine .inr ⟨?_, fun op h => by cases h⟩
      unfold Operator.read?
      dsimp only
      split
      · rfl
      · next h => rw [hop] at h; cases h
    | some op =>
      by_cases hl : op.level = level
      · have his := Token.binaryOp?_eq_some_iff.mp hop
        exact .inl ⟨⟨t, op, his, hl⟩, us, Operator.read?_cons ⟨t, op, his, hl⟩ us, rfl⟩
      · refine .inr ⟨?_, fun op' h => by cases h; exact hl⟩
        unfold Operator.read?
        dsimp only
        split
        · rfl
        · next h =>
          rw [hop] at h
          cases h
          exact dif_neg hl

theorem Sign.read?_cases (ts : List Token) :
    (∃ s us, Sign.read? ts = some (s, us) ∧ ts.head?.bind Token.unaryOp? = some s.op) ∨
    (Sign.read? ts = none ∧ ts.head?.bind Token.unaryOp? = none) := by
  cases ts with
  | nil => exact .inr ⟨rfl, rfl⟩
  | cons t us =>
    rw [List.head?_cons, Option.bind_some]
    cases hop : t.unaryOp? with
    | none =>
      refine .inr ⟨?_, rfl⟩
      unfold Sign.read?
      dsimp only
      split
      · rfl
      · next h => rw [hop] at h; cases h
    | some op =>
      have his := Token.unaryOp?_eq_some_iff.mp hop
      exact .inl ⟨⟨t, op, his⟩, us, Sign.read?_cons ⟨t, op, his⟩ us, rfl⟩

/-! ### Steps of a member -/

section Steps

variable {fuel : Nat} {i : Input} {a : Expr} {us : List Token}

theorem parseSteps_point {p : Terminal "."} (h : Terminal.read? "." i.tokens = some (p, us)) :
    parseSteps (fuel + 1) a i = (do
      let (name, j) ← Input.name ⟨us, i.stop⟩
      if j.isAt "(" then do
        let (args, k) ← parseItems fuel ")" j.next
        let node ← methodNode p.token.pos a name args
        parseSteps fuel node k
      else parseSteps fuel (.select p.token.pos a name false) j) := by
  have hp := Terminal.eq_of_read? h
  rw [parseSteps, Input.next_eq hp, Input.pos_eq hp]
  exact if_pos (Input.isAt_eq_true h)

theorem parseSteps_lenient {p : Terminal ".?"} (h : Terminal.read? ".?" i.tokens = some (p, us)) :
    parseSteps (fuel + 1) a i = (do
      let (name, j) ← Input.name ⟨us, i.stop⟩
      parseSteps fuel (.select p.token.pos a name true) j) := by
  have hp := Terminal.eq_of_read? h
  rw [parseSteps, Input.next_eq hp, Input.pos_eq hp, Input.isAt_of_ne (by decide) h,
    if_neg Bool.false_ne_true]
  exact if_pos (Input.isAt_eq_true h)

/-- Both brackets, plain and lenient, go on in one way. -/
theorem parseSteps_bracket {s : String} {b : Terminal s} (hs : s = "[" ∨ s = "[?")
    (h : Terminal.read? s i.tokens = some (b, us)) :
    parseSteps (fuel + 1) a i = (do
      let (key, j) ← parseExpr fuel ⟨us, i.stop⟩
      let j ← j.expect "]"
      parseSteps fuel (.index b.token.pos a key (s == "[?")) j) := by
  have hb := Terminal.eq_of_read? h
  have hpoint : i.isAt "." = false := by
    rcases hs with rfl | rfl <;> exact Input.isAt_of_ne (by decide) h
  have hlenient : i.isAt ".?" = false := by
    rcases hs with rfl | rfl <;> exact Input.isAt_of_ne (by decide) h
  have hbracket : (i.isAt "[" || i.isAt "[?") = true := by
    rcases hs with rfl | rfl <;> rw [Input.isAt_eq_true h]
    · exact Bool.true_or _
    · exact Bool.or_true _
  have hmark : i.isAt "[?" = (s == "[?") := by
    rcases hs with rfl | rfl
    · exact Input.isAt_of_ne (by decide) h
    · exact Input.isAt_eq_true h
  rw [parseSteps, hpoint, if_neg Bool.false_ne_true, hlenient, if_neg Bool.false_ne_true, hbracket,
    if_pos rfl, hmark, Input.next_eq hb, Input.pos_eq hb]

theorem parseSteps_stop
    (h : ∀ s ∈ [".", ".?", "[", "[?"], Terminal.read? s i.tokens = none) :
    parseSteps (fuel + 1) a i = .ok (a, i) := by
  have hno : ∀ s ∈ [".", ".?", "[", "[?"], i.isAt s = false :=
    fun s hs => Input.isAt_eq_false (h s hs)
  rw [parseSteps, hno "." (by decide), if_neg Bool.false_ne_true, hno ".?" (by decide),
    if_neg Bool.false_ne_true, hno "[" (by decide), hno "[?" (by decide), Bool.or_false]
  exact if_neg Bool.false_ne_true

end Steps

end LogStream.Filter
