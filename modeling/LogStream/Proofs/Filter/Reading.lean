import LogStream.Proofs.Filter.Grammar
import LogStream.Proofs.Filter.Quoted

/-! # Reading derivations

A derivation is read off its tokens by recursive descent with one token of lookahead (`readExpr`).
What is read has exactly the tokens that are passed over (`readsTokens`). -/

namespace LogStream.Filter

/-! ### Terminals -/

theorem ofChar_injective {a b : Char} (h : CodePoint.ofChar a = CodePoint.ofChar b) : a = b := by
  have ha := beq_iff_eq.mp (CodePoint.is_ofChar a)
  have hb := beq_iff_eq.mp (CodePoint.is_ofChar b)
  rw [h] at ha
  exact Char.toNat_inj.mp (ha.symm.trans hb)

theorem lit_injective {s s' : String} (h : Text.lit s = Text.lit s') : s = s' :=
  String.toList_inj.mp ((List.map_inj_right fun _ _ => ofChar_injective).mp h)

/-- A token is at most one operator. -/
theorem Token.eq_of_is {t : Token} {s s' : String} (h : t.is s = true) (h' : t.is s' = true) :
    s = s' := by
  unfold Token.is at h h'
  have hs := beq_iff_eq.mp (Bool.and_eq_true_iff.mp h).2
  have hs' := beq_iff_eq.mp (Bool.and_eq_true_iff.mp h').2
  exact lit_injective (hs.symm.trans hs')

namespace Terminal

/-- The terminal at the front. -/
def read? (s : String) : List Token → Option (Terminal s × List Token)
  | [] => none
  | t :: ts => if h : t.is s = true then some (⟨t, h⟩, ts) else none

theorem read?_cons {s : String} (t : Terminal s) (ts : List Token) :
    read? s (t.token :: ts) = some (t, ts) := dif_pos t.is

theorem read?_of_ne {s s' : String} (h : s ≠ s') (t : Terminal s) (ts : List Token) :
    read? s' (t.token :: ts) = none := dif_neg fun hs => h (Token.eq_of_is t.is hs)

end Terminal

instance (t : Token) : Decidable t.IsName := inferInstanceAs (Decidable (_ ∧ _))

namespace Word

/-- The name at the front. -/
def read? : List Token → Option (Word × List Token)
  | [] => none
  | t :: ts => if h : t.IsName then some (⟨t, h⟩, ts) else none

theorem read?_cons (w : Word) (ts : List Token) : read? (w.token :: ts) = some (w, ts) :=
  dif_pos w.isName

theorem not_literal (w : Word) :
    ¬ (w.token.kind = .int ∨ w.token.kind = .float ∨ w.token.kind = .string) := by
  rw [w.isName.1]
  decide

end Word

theorem BinaryOp.mem_all (op : BinaryOp) : op ∈ BinaryOp.all := by cases op <;> decide

theorem BinaryOp.symbol_injective {a b : BinaryOp} (h : a.symbol = b.symbol) : a = b := by
  have hall : ∀ a ∈ BinaryOp.all, ∀ b ∈ BinaryOp.all, a.symbol = b.symbol → a = b := by decide
  exact hall a a.mem_all b b.mem_all h

/-- A token is an operator just if it is its symbol. -/
theorem Token.binaryOp?_eq_some_iff {t : Token} {op : BinaryOp} :
    t.binaryOp? = some op ↔ t.is op.symbol = true := by
  unfold Token.binaryOp?
  constructor
  · exact fun h => List.find?_some (p := fun op : BinaryOp => t.is op.symbol) h
  · intro h
    cases hf : BinaryOp.all.find? fun op => t.is op.symbol with
    | none => exact absurd h (List.find?_eq_none.mp hf op op.mem_all)
    | some op' =>
      have h' := List.find?_some (p := fun op : BinaryOp => t.is op.symbol) hf
      rw [BinaryOp.symbol_injective (Token.eq_of_is h' h)]

theorem UnaryOp.mem_all (op : UnaryOp) : op ∈ UnaryOp.all := by cases op <;> decide

theorem UnaryOp.symbol_injective {a b : UnaryOp} (h : a.symbol = b.symbol) : a = b := by
  have hall : ∀ a ∈ UnaryOp.all, ∀ b ∈ UnaryOp.all, a.symbol = b.symbol → a = b := by decide
  exact hall a a.mem_all b b.mem_all h

theorem Token.unaryOp?_eq_some_iff {t : Token} {op : UnaryOp} :
    t.unaryOp? = some op ↔ t.is op.symbol = true := by
  unfold Token.unaryOp?
  constructor
  · exact fun h => List.find?_some (p := fun op : UnaryOp => t.is op.symbol) h
  · intro h
    cases hf : UnaryOp.all.find? fun op => t.is op.symbol with
    | none => exact absurd h (List.find?_eq_none.mp hf op op.mem_all)
    | some op' =>
      have h' := List.find?_some (p := fun op : UnaryOp => t.is op.symbol) hf
      rw [UnaryOp.symbol_injective (Token.eq_of_is h' h)]

namespace Operator

/-- The operator of a level at the front. -/
def read? (level : Nat) : List Token → Option (Operator level × List Token)
  | [] => none
  | t :: ts =>
    match h : t.binaryOp? with
    | none => none
    | some op =>
      if hl : op.level = level then some (⟨t, op, Token.binaryOp?_eq_some_iff.mp h, hl⟩, ts)
      else none

theorem read?_cons {level : Nat} (op : Operator level) (ts : List Token) :
    read? level (op.token :: ts) = some (op, ts) := by
  have h := Token.binaryOp?_eq_some_iff.mpr op.is
  unfold read?
  dsimp only
  split
  · next hn => rw [h] at hn; cases hn
  · next op' hs =>
    rw [h] at hs
    cases hs
    exact dif_pos op.level_eq

end Operator

namespace Sign

/-- The prefix operator at the front. -/
def read? : List Token → Option (Sign × List Token)
  | [] => none
  | t :: ts =>
    match h : t.unaryOp? with
    | none => none
    | some op => some (⟨t, op, Token.unaryOp?_eq_some_iff.mp h⟩, ts)

theorem read?_cons (s : Sign) (ts : List Token) : read? (s.token :: ts) = some (s, ts) := by
  have h := Token.unaryOp?_eq_some_iff.mpr s.is
  unfold read?
  dsimp only
  split
  · next hn => rw [h] at hn; cases hn
  · next op' hs =>
    rw [h] at hs
    cases hs
    rfl

end Sign

instance (w : Word) : Decidable w.IsPrimary := inferInstanceAs (Decidable (_ ≠ _))

instance (w : Word) : Decidable w.IsCallable := inferInstanceAs (Decidable (_ ∧ _))

/-! ### Reading derivations -/

mutual

/-- The derivation of an expression at the front of some tokens, and the tokens behind it. The fuel
bounds the depth of the calls. -/
def readExpr : Nat → List Token → Option (Derivation .expr × List Token)
  | 0, _ => none
  | fuel + 1, ts => do
    let (c, us) ← readChain fuel 0 ts
    match Terminal.read? "?" us with
    | none => return (.plain c, us)
    | some (m, us) => do
      let (y, us) ← readChain fuel 0 us
      let (k, us) ← Terminal.read? ":" us
      let (n, us) ← readExpr fuel us
      return (.conditional c m y k n, us)
termination_by structural fuel => fuel

/-- A chain of a level. -/
def readChain : Nat → (level : Nat) → List Token → Option (Derivation (.chain level) × List Token)
  | 0, _, _ => none
  | fuel + 1, level, ts =>
    if h : level < BinaryOp.levels then do
      let (d, us) ← readChain fuel (level + 1) ts
      readLinks fuel level (.single h d) us
    else if h : level = BinaryOp.levels then do
      let (u, us) ← readUnary fuel ts
      return (.operand h u, us)
    else none
termination_by structural fuel => fuel

/-- A chain that goes on behind its first operands. -/
def readLinks : Nat → (level : Nat) → Derivation (.chain level) → List Token →
    Option (Derivation (.chain level) × List Token)
  | 0, _, _, _ => none
  | fuel + 1, level, l, ts =>
    match Operator.read? level ts with
    | none => some (l, ts)
    | some (op, us) => do
      let (r, us) ← readChain fuel (level + 1) us
      readLinks fuel level (.link l op r) us
termination_by structural fuel => fuel

/-- A member behind prefix operators. -/
def readUnary : Nat → List Token → Option (Derivation .unary × List Token)
  | 0, _ => none
  | fuel + 1, ts =>
    match Sign.read? ts with
    | some (s, us) => do
      let (u, us) ← readUnary fuel us
      return (.signed s u, us)
    | none => do
      let (p, us) ← readPrimary fuel ts
      let (m, us) ← readSteps fuel (.primary p) us
      return (.bare m, us)
termination_by structural fuel => fuel

/-- A member that goes on behind its first steps. -/
def readSteps : Nat → Derivation .member → List Token → Option (Derivation .member × List Token)
  | 0, _, _ => none
  | fuel + 1, m, ts =>
    match Terminal.read? "." ts with
    | some (p, us) => do
      let (n, us) ← Word.read? us
      match Terminal.read? "(" us with
      | some (b, us) => do
        let (as, us) ← readItems fuel ")" us
        readSteps fuel (.method m p n b as) us
      | none => readSteps fuel (.select m p n) us
    | none =>
      match Terminal.read? ".?" ts with
      | some (p, us) => do
        let (n, us) ← Word.read? us
        readSteps fuel (.lenientSelect m p n) us
      | none =>
        match Terminal.read? "[" ts with
        | some (b, us) => do
          let (k, us) ← readExpr fuel us
          let (c, us) ← Terminal.read? "]" us
          readSteps fuel (.index m b k c) us
        | none =>
          match Terminal.read? "[?" ts with
          | some (b, us) => do
            let (k, us) ← readExpr fuel us
            let (c, us) ← Terminal.read? "]" us
            readSteps fuel (.lenientIndex m b k c) us
          | none => some (m, ts)
termination_by structural fuel => fuel

/-- A primary expression. -/
def readPrimary : Nat → List Token → Option (Derivation .primary × List Token)
  | 0, _ => none
  | _ + 1, [] => none
  | fuel + 1, t :: ts =>
    if h : t.kind = .int ∨ t.kind = .float ∨ t.kind = .string then some (.literal t h, ts)
    else if h : t.IsName then
      match Terminal.read? "(" ts with
      | some (b, us) =>
        if hc : Word.IsCallable ⟨t, h⟩ then do
          let (as, us) ← readItems fuel ")" us
          return (.call ⟨t, h⟩ hc b as, us)
        else if hp : Word.IsPrimary ⟨t, h⟩ then some (.word ⟨t, h⟩ hp, ts) else none
      | none => if hp : Word.IsPrimary ⟨t, h⟩ then some (.word ⟨t, h⟩ hp, ts) else none
    else
      match Terminal.read? "(" (t :: ts) with
      | some (b, us) => do
        let (e, us) ← readExpr fuel us
        let (c, us) ← Terminal.read? ")" us
        return (.parens b e c, us)
      | none =>
        match Terminal.read? "[" (t :: ts) with
        | some (b, us) => do
          let (es, us) ← readItems fuel "]" us
          return (.list b es, us)
        | none =>
          match Terminal.read? "\x7b" (t :: ts) with
          | some (b, us) => do
            let (es, us) ← readEntries fuel us
            return (.map b es, us)
          | none => none
termination_by structural fuel => fuel

/-- Items up to a closing bracket. -/
def readItems : Nat → (close : String) → List Token →
    Option (Derivation (.items close) × List Token)
  | 0, _, _ => none
  | fuel + 1, close, ts =>
    match Terminal.read? close ts with
    | some (b, us) => some (.closeItems b, us)
    | none => do
      let (e, us) ← readExpr fuel ts
      match Terminal.read? close us with
      | some (b, us) => return (.lastItem e b, us)
      | none => do
        let (c, us) ← Terminal.read? "," us
        let (r, us) ← readItems fuel close us
        return (.moreItems e c r, us)
termination_by structural fuel => fuel

/-- Entries up to the closing brace. -/
def readEntries : Nat → List Token → Option (Derivation .entries × List Token)
  | 0, _ => none
  | fuel + 1, ts =>
    match Terminal.read? "\x7d" ts with
    | some (b, us) => some (.closeEntries b, us)
    | none => do
      let (k, us) ← readExpr fuel ts
      let (c, us) ← Terminal.read? ":" us
      let (v, us) ← readExpr fuel us
      match Terminal.read? "\x7d" us with
      | some (b, us) => return (.lastEntry k c v b, us)
      | none => do
        let (m, us) ← Terminal.read? "," us
        let (r, us) ← readEntries fuel us
        return (.moreEntries k c v m r, us)
termination_by structural fuel => fuel

end

/-! ### Nothing else is read -/

theorem Terminal.eq_of_read? {s : String} {t : Terminal s} {ts us : List Token}
    (h : Terminal.read? s ts = some (t, us)) : ts = t.token :: us := by
  cases ts with
  | nil => cases h
  | cons t' ts =>
    rw [Terminal.read?] at h
    split at h
    · cases h; rfl
    · cases h

theorem Word.eq_of_read? {w : Word} {ts us : List Token} (h : Word.read? ts = some (w, us)) :
    ts = w.token :: us := by
  cases ts with
  | nil => cases h
  | cons t' ts =>
    rw [Word.read?] at h
    split at h
    · cases h; rfl
    · cases h

theorem Operator.eq_of_read? {level : Nat} {op : Operator level} {ts us : List Token}
    (h : Operator.read? level ts = some (op, us)) : ts = op.token :: us := by
  cases ts with
  | nil => cases h
  | cons t' ts =>
    rw [Operator.read?] at h
    split at h
    · cases h
    · split at h
      · cases h; rfl
      · cases h

theorem Sign.eq_of_read? {s : Sign} {ts us : List Token} (h : Sign.read? ts = some (s, us)) :
    ts = s.token :: us := by
  cases ts with
  | nil => cases h
  | cons t' ts =>
    rw [Sign.read?] at h
    split at h
    · cases h
    · cases h; rfl

/-- What is read with some fuel has the tokens that are passed over. -/
structure ReadsTokens (fuel : Nat) : Prop where
  expr : ∀ {ts us d}, readExpr fuel ts = some (d, us) → ts = d.tokens ++ us
  chain : ∀ {level ts us d}, readChain fuel level ts = some (d, us) → ts = d.tokens ++ us
  links : ∀ {level l ts us d}, readLinks fuel level l ts = some (d, us) →
    l.tokens ++ ts = d.tokens ++ us
  unary : ∀ {ts us d}, readUnary fuel ts = some (d, us) → ts = d.tokens ++ us
  steps : ∀ {m ts us d}, readSteps fuel m ts = some (d, us) → m.tokens ++ ts = d.tokens ++ us
  primary : ∀ {ts us d}, readPrimary fuel ts = some (d, us) → ts = d.tokens ++ us
  items : ∀ {close ts us d}, readItems fuel close ts = some (d, us) → ts = d.tokens ++ us
  entries : ∀ {ts us d}, readEntries fuel ts = some (d, us) → ts = d.tokens ++ us

namespace ReadsTokens

variable {fuel : Nat}

theorem expr_succ (ih : ReadsTokens fuel) {ts us : List Token} {d : Derivation .expr}
    (h : readExpr (fuel + 1) ts = some (d, us)) : ts = d.tokens ++ us := by
  rw [readExpr] at h
  obtain ⟨⟨c, vs⟩, hc, h⟩ := Option.bind_eq_some_iff.mp h
  rw [ih.chain hc]
  dsimp only at h
  split at h
  · cases h
    rfl
  · next m ws hm =>
    obtain ⟨⟨y, xs⟩, hy, h⟩ := Option.bind_eq_some_iff.mp h
    obtain ⟨⟨k, ys⟩, hk, h⟩ := Option.bind_eq_some_iff.mp h
    obtain ⟨⟨n, zs⟩, hn, h⟩ := Option.bind_eq_some_iff.mp h
    dsimp only at hk hn
    cases h
    rw [Terminal.eq_of_read? hm, ih.chain hy, Terminal.eq_of_read? hk, ih.expr hn]
    simp

theorem chain_succ (ih : ReadsTokens fuel) {level : Nat} {ts us : List Token}
    {d : Derivation (.chain level)} (h : readChain (fuel + 1) level ts = some (d, us)) :
    ts = d.tokens ++ us := by
  rw [readChain] at h
  split at h
  · obtain ⟨⟨l, vs⟩, hl, h⟩ := Option.bind_eq_some_iff.mp h
    rw [ih.chain hl]
    exact ih.links h
  · split at h
    · obtain ⟨⟨u, vs⟩, hu, h⟩ := Option.bind_eq_some_iff.mp h
      cases h
      exact ih.unary hu
    · cases h

theorem links_succ (ih : ReadsTokens fuel) {level : Nat} {ts us : List Token}
    {l d : Derivation (.chain level)} (h : readLinks (fuel + 1) level l ts = some (d, us)) :
    l.tokens ++ ts = d.tokens ++ us := by
  rw [readLinks] at h
  split at h
  · cases h
    rfl
  · next op vs hop =>
    obtain ⟨⟨r, ws⟩, hr, h⟩ := Option.bind_eq_some_iff.mp h
    have hlinks := ih.links h
    rw [← hlinks, Operator.eq_of_read? hop, ih.chain hr]
    simp

theorem unary_succ (ih : ReadsTokens fuel) {ts us : List Token} {d : Derivation .unary}
    (h : readUnary (fuel + 1) ts = some (d, us)) : ts = d.tokens ++ us := by
  rw [readUnary] at h
  split at h
  · next s vs hs =>
    obtain ⟨⟨u, ws⟩, hu, h⟩ := Option.bind_eq_some_iff.mp h
    cases h
    rw [Sign.eq_of_read? hs, ih.unary hu]
    rfl
  · obtain ⟨⟨p, vs⟩, hp, h⟩ := Option.bind_eq_some_iff.mp h
    obtain ⟨⟨m, ws⟩, hm, h⟩ := Option.bind_eq_some_iff.mp h
    cases h
    rw [ih.primary hp]
    exact ih.steps hm

theorem steps_succ (ih : ReadsTokens fuel) {ts us : List Token} {m d : Derivation .member}
    (h : readSteps (fuel + 1) m ts = some (d, us)) : m.tokens ++ ts = d.tokens ++ us := by
  rw [readSteps] at h
  split at h
  · next p vs hp =>
    obtain ⟨⟨n, ws⟩, hn, h⟩ := Option.bind_eq_some_iff.mp h
    rw [Terminal.eq_of_read? hp, Word.eq_of_read? hn]
    dsimp only at h
    split at h
    · next b xs hb =>
      obtain ⟨⟨as, ys⟩, has, h⟩ := Option.bind_eq_some_iff.mp h
      rw [← ih.steps h, Terminal.eq_of_read? hb, ih.items has]
      simp
    · rw [← ih.steps h]
      simp
  split at h
  · next p vs hp =>
    obtain ⟨⟨n, ws⟩, hn, h⟩ := Option.bind_eq_some_iff.mp h
    rw [Terminal.eq_of_read? hp, Word.eq_of_read? hn, ← ih.steps h]
    simp
  split at h
  · next b vs hb =>
    obtain ⟨⟨k, ws⟩, hk, h⟩ := Option.bind_eq_some_iff.mp h
    obtain ⟨⟨c, xs⟩, hc, h⟩ := Option.bind_eq_some_iff.mp h
    rw [← ih.steps h, Terminal.eq_of_read? hb, ih.expr hk, Terminal.eq_of_read? hc]
    simp
  split at h
  · next b vs hb =>
    obtain ⟨⟨k, ws⟩, hk, h⟩ := Option.bind_eq_some_iff.mp h
    obtain ⟨⟨c, xs⟩, hc, h⟩ := Option.bind_eq_some_iff.mp h
    rw [← ih.steps h, Terminal.eq_of_read? hb, ih.expr hk, Terminal.eq_of_read? hc]
    simp
  · cases h
    rfl

theorem primary_succ (ih : ReadsTokens fuel) {ts us : List Token} {d : Derivation .primary}
    (h : readPrimary (fuel + 1) ts = some (d, us)) : ts = d.tokens ++ us := by
  cases ts with
  | nil => cases h
  | cons t ts =>
    rw [readPrimary] at h
    split at h
    · cases h
      rfl
    split at h
    · next hname =>
      split at h
      · next b vs hb =>
        split at h
        · obtain ⟨⟨as, ws⟩, has, h⟩ := Option.bind_eq_some_iff.mp h
          cases h
          rw [Terminal.eq_of_read? hb, ih.items has]
          rfl
        split at h
        · cases h
          rfl
        · cases h
      · split at h
        · cases h
          rfl
        · cases h
    split at h
    · next b vs hb =>
      obtain ⟨⟨e, ws⟩, he, h⟩ := Option.bind_eq_some_iff.mp h
      obtain ⟨⟨c, xs⟩, hc, h⟩ := Option.bind_eq_some_iff.mp h
      cases h
      rw [Terminal.eq_of_read? hb, ih.expr he, Terminal.eq_of_read? hc]
      simp
    split at h
    · next b vs hb =>
      obtain ⟨⟨es, ws⟩, hes, h⟩ := Option.bind_eq_some_iff.mp h
      cases h
      rw [Terminal.eq_of_read? hb, ih.items hes]
      rfl
    split at h
    · next b vs hb =>
      obtain ⟨⟨es, ws⟩, hes, h⟩ := Option.bind_eq_some_iff.mp h
      cases h
      rw [Terminal.eq_of_read? hb, ih.entries hes]
      rfl
    · cases h

theorem items_succ (ih : ReadsTokens fuel) {close : String} {ts us : List Token}
    {d : Derivation (.items close)} (h : readItems (fuel + 1) close ts = some (d, us)) :
    ts = d.tokens ++ us := by
  rw [readItems] at h
  split at h
  · next b vs hb =>
    cases h
    exact Terminal.eq_of_read? hb
  obtain ⟨⟨e, vs⟩, he, h⟩ := Option.bind_eq_some_iff.mp h
  rw [ih.expr he]
  dsimp only at h
  split at h
  · next b ws hb =>
    cases h
    rw [Terminal.eq_of_read? hb]
    simp
  · obtain ⟨⟨c, ws⟩, hc, h⟩ := Option.bind_eq_some_iff.mp h
    obtain ⟨⟨r, xs⟩, hr, h⟩ := Option.bind_eq_some_iff.mp h
    dsimp only at hr
    cases h
    rw [Terminal.eq_of_read? hc, ih.items hr]
    simp

theorem entries_succ (ih : ReadsTokens fuel) {ts us : List Token} {d : Derivation .entries}
    (h : readEntries (fuel + 1) ts = some (d, us)) : ts = d.tokens ++ us := by
  rw [readEntries] at h
  split at h
  · next b vs hb =>
    cases h
    exact Terminal.eq_of_read? hb
  obtain ⟨⟨k, vs⟩, hk, h⟩ := Option.bind_eq_some_iff.mp h
  obtain ⟨⟨c, ws⟩, hc, h⟩ := Option.bind_eq_some_iff.mp h
  obtain ⟨⟨v, xs⟩, hv, h⟩ := Option.bind_eq_some_iff.mp h
  rw [ih.expr hk, Terminal.eq_of_read? hc, ih.expr hv]
  dsimp only at h
  split at h
  · next b ys hb =>
    cases h
    rw [Terminal.eq_of_read? hb]
    simp
  · obtain ⟨⟨m, ys⟩, hm, h⟩ := Option.bind_eq_some_iff.mp h
    obtain ⟨⟨r, zs⟩, hr, h⟩ := Option.bind_eq_some_iff.mp h
    dsimp only at hr
    cases h
    rw [Terminal.eq_of_read? hm, ih.entries hr]
    simp

end ReadsTokens

theorem readsTokens (fuel : Nat) : ReadsTokens fuel := by
  induction fuel with
  | zero => constructor <;> intros <;> contradiction
  | succ fuel ih =>
    exact ⟨ih.expr_succ, ih.chain_succ, ih.links_succ, ih.unary_succ, ih.steps_succ,
      ih.primary_succ, ih.items_succ, ih.entries_succ⟩

end LogStream.Filter
