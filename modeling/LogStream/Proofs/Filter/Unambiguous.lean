import LogStream.Proofs.Filter.Reading

/-! # The grammar is unambiguous

A derivation is read back from its tokens whatever stands behind them, if that does not carry it on
(`Derivation.readsBack`). So a reading succeeds on exactly the tokens of a derivation
(`readExpr_eq_some_iff`), and no two derivations have the same tokens (`Derivation.eq_of_tokens`).
-/

namespace LogStream.Filter

/-! ### What may stand behind a derivation -/

/-- The next token, if there is one, is none of the given operators and brackets. -/
def Stops (symbols : List String) (ts : List Token) : Prop :=
  ∀ t ∈ ts.head?, ∀ s ∈ symbols, t.is s = false

/-- What may carry on a member. -/
def memberFollow : List String := [".", ".?", "[", "[?", "("]

/-- What may carry on a chain of a level. -/
def chainFollow (level : Nat) : List String :=
  memberFollow ++ (BinaryOp.all.filter (level ≤ ·.level)).map BinaryOp.symbol

/-- What may carry on an expression. -/
def exprFollow : List String := "?" :: chainFollow 0

/-- What closes a bracket. -/
def closers : List String := [")", "]", "\x7d"]

theorem stops_nil (ss : List String) : Stops ss [] := fun _ h => by cases h

theorem Stops.mono {ss ss' : List String} {ts : List Token} (h : Stops ss ts) (hss : ss' ⊆ ss) :
    Stops ss' ts := fun t ht s hs => h t ht s (hss hs)

theorem Terminal.stops {s : String} {ss : List String} (t : Terminal s) (h : s ∉ ss)
    (ts : List Token) : Stops ss (t.token :: ts) := by
  intro t' ht s' hs
  cases ht
  exact Bool.eq_false_iff.mpr fun his => h (Token.eq_of_is t.is his ▸ hs)

theorem Stops.read? {s : String} {ss : List String} {ts : List Token} (h : Stops ss ts)
    (hs : s ∈ ss) : Terminal.read? s ts = none := by
  cases ts with
  | nil => rfl
  | cons t us => exact dif_neg fun ht => Bool.false_ne_true ((h t rfl s hs).symm.trans ht)

theorem mem_chainFollow {op : BinaryOp} {level : Nat} (h : level ≤ op.level) :
    op.symbol ∈ chainFollow level := by
  refine List.mem_append_right _ (List.mem_map_of_mem ?_)
  exact List.mem_filter.mpr ⟨op.mem_all, decide_eq_true h⟩

theorem chainFollow_subset {level level' : Nat} (h : level ≤ level') :
    chainFollow level' ⊆ chainFollow level := by
  intro s hs
  rcases List.mem_append.mp hs with hs | hs
  · exact List.mem_append_left _ hs
  · obtain ⟨op, hop, rfl⟩ := List.mem_map.mp hs
    exact mem_chainFollow (Nat.le_trans h (of_decide_eq_true (List.mem_filter.mp hop).2))

theorem Operator.not_mem_chainFollow {level : Nat} (op : Operator level) :
    op.op.symbol ∉ chainFollow (level + 1) := by
  intro h
  rcases List.mem_append.mp h with h | h
  · have hall : ∀ op ∈ BinaryOp.all, op.symbol ∉ memberFollow := by decide
    exact hall op.op op.op.mem_all h
  · obtain ⟨op', hop, hs⟩ := List.mem_map.mp h
    have hlevel := of_decide_eq_true (List.mem_filter.mp hop).2
    rw [BinaryOp.symbol_injective hs, op.level_eq] at hlevel
    exact absurd hlevel (Nat.not_succ_le_self level)

/-- The operator as a terminal. -/
def Operator.terminal {level : Nat} (op : Operator level) : Terminal op.op.symbol :=
  ⟨op.token, op.is⟩

theorem Stops.operator_read? {level : Nat} {ts : List Token} (h : Stops (chainFollow level) ts) :
    Operator.read? level ts = none := by
  cases ts with
  | nil => rfl
  | cons t us =>
    unfold Operator.read?
    dsimp only
    split
    · rfl
    · next op hop =>
      refine dif_neg fun hl => ?_
      have his := h t rfl op.symbol (mem_chainFollow (Nat.le_of_eq hl.symm))
      rw [Token.binaryOp?_eq_some_iff.mp hop] at his
      cases his

theorem Operator.read?_levels (ts : List Token) : Operator.read? BinaryOp.levels ts = none := by
  cases ts with
  | nil => rfl
  | cons t us =>
    unfold Operator.read?
    dsimp only
    split
    · rfl
    · next op _ => exact dif_neg (by cases op <;> decide)

theorem Stops.sign_read? {ss : List String} {ts : List Token} (h : Stops ss ts)
    (hss : UnaryOp.all.map UnaryOp.symbol ⊆ ss) : Sign.read? ts = none := by
  cases ts with
  | nil => rfl
  | cons t us =>
    unfold Sign.read?
    dsimp only
    split
    · rfl
    · next op hop =>
      have his := h t rfl op.symbol (hss (List.mem_map_of_mem op.mem_all))
      rw [Token.unaryOp?_eq_some_iff.mp hop] at his
      cases his

/-! ### The first token -/

/-- The first tokens of the derivations of a symbol are none of these. -/
def Symbol.apart : Symbol → List String
  | .member | .primary => "!" :: "-" :: closers
  | .expr | .chain _ | .unary => closers
  | .items _ | .entries => []

/-- A name is no operator but `in`. -/
theorem Word.stops {ss : List String} (w : Word)
    (h : ∀ s ∈ ss, (Text.lit s).head?.any startsName = false) (ts : List Token) :
    Stops ss (w.token :: ts) := by
  intro t ht s hs
  cases ht
  refine Bool.eq_false_iff.mpr fun his => ?_
  have htext := beq_iff_eq.mp (Bool.and_eq_true_iff.mp his).2
  have hname := w.isName.2
  rw [htext, h s hs] at hname
  cases hname

/-- A literal is no operator. -/
theorem Token.stops {t : Token} (h : t.kind = .int ∨ t.kind = .float ∨ t.kind = .string)
    (ss : List String) (ts : List Token) : Stops ss (t :: ts) := by
  intro t' ht s _
  cases ht
  unfold Token.is
  rcases h with h | h | h <;> rw [h] <;> rfl

/-- The sign as a terminal. -/
def Sign.terminal (s : Sign) : Terminal s.op.symbol := ⟨s.token, s.is⟩

theorem Sign.stops_closers (s : Sign) (ts : List Token) : Stops closers (s.token :: ts) :=
  s.terminal.stops
    ((by decide : ∀ op ∈ UnaryOp.all, op.symbol ∉ closers) s.op s.op.mem_all) ts

namespace Derivation

theorem tokens_ne_nil {s : Symbol} (d : Derivation s) : d.tokens ≠ [] := by
  induction d <;> simp [*]

/-- What the first token is not, whatever follows. -/
theorem stops_apart {s : Symbol} (d : Derivation s) : ∀ rest, Stops s.apart (d.tokens ++ rest) := by
  have hsub : closers ⊆ Symbol.apart .member := by decide
  induction d with
  | plain c ih => exact ih
  | conditional c m y k n ih _ _ =>
    intro rest
    rw [tokens, List.append_assoc]
    exact ih _
  | single h c ih => exact ih
  | link l op r ih _ =>
    intro rest
    rw [tokens, List.append_assoc]
    exact ih _
  | operand h u ih => exact ih
  | bare m ih => exact fun rest => (ih rest).mono hsub
  | signed s u _ => exact fun rest => s.stops_closers _
  | primary p ih => exact ih
  | select m p n ih | lenientSelect m p n ih =>
    intro rest
    rw [tokens, List.append_assoc]
    exact ih _
  | method m p n b as ih _ | index m b k c ih _ | lenientIndex m b k c ih _ =>
    intro rest
    rw [tokens, List.append_assoc]
    exact ih _
  | literal t h => exact fun rest => Token.stops h _ _
  | word n h => exact fun rest => n.stops (by decide) _
  | call n h b as _ => exact fun rest => n.stops (by decide) _
  | parens b e c _ => exact fun rest => b.stops (by decide) _
  | list b es _ => exact fun rest => b.stops (by decide) _
  | map b es _ => exact fun rest => b.stops (by decide) _
  | closeItems | lastItem | moreItems | closeEntries | lastEntry | moreEntries =>
    exact fun rest t ht c hc => by cases hc

end Derivation

/-! ### Reading back -/

/-- The derivation is read back with enough fuel in front of tokens that do not carry it on. Of a
chain or a member, what is read back is the part before some more links or steps. -/
def ReadsBack : (s : Symbol) → Derivation s → Prop
  | .expr, d => ∀ fuel rest, 16 * d.tokens.length ≤ fuel + 7 → Stops exprFollow rest →
    readExpr fuel (d.tokens ++ rest) = some (d, rest)
  | .chain level, d => ∀ fuel rest, 16 * d.tokens.length ≤ fuel + 8 + level →
    Stops (chainFollow (level + 1)) rest → ∃ fuel', fuel ≤ fuel' + d.tokens.length ∧
      readChain fuel level (d.tokens ++ rest) = readLinks fuel' level d rest
  | .unary, d => ∀ fuel rest, 16 * d.tokens.length ≤ fuel + 14 → Stops memberFollow rest →
    readUnary fuel (d.tokens ++ rest) = some (d, rest)
  | .member, d => ∀ fuel rest, 16 * d.tokens.length ≤ fuel + 15 → Stops ["("] rest →
    ∃ fuel', fuel < fuel' + d.tokens.length ∧
      ((readPrimary fuel (d.tokens ++ rest)).bind fun p => readSteps fuel (.primary p.1) p.2) =
        readSteps fuel' d rest
  | .primary, d => ∀ fuel rest, 16 * d.tokens.length ≤ fuel + 15 → Stops ["("] rest →
    readPrimary fuel (d.tokens ++ rest) = some (d, rest)
  | .items close, d => ∀ fuel rest, 16 * d.tokens.length ≤ fuel + 15 → close ∈ closers →
    readItems fuel close (d.tokens ++ rest) = some (d, rest)
  | .entries, d => ∀ fuel rest, 16 * d.tokens.length ≤ fuel + 15 →
    readEntries fuel (d.tokens ++ rest) = some (d, rest)

theorem readLinks_of_stops {fuel level : Nat} {d : Derivation (.chain level)} {rest : List Token}
    (hf : fuel ≠ 0) (h : Operator.read? level rest = none) :
    readLinks fuel level d rest = some (d, rest) := by
  obtain ⟨fuel, rfl⟩ := Nat.exists_eq_succ_of_ne_zero hf
  rw [readLinks, h]

theorem readSteps_of_stops {fuel : Nat} {d : Derivation .member} {rest : List Token}
    (hf : fuel ≠ 0) (h : Stops memberFollow rest) : readSteps fuel d rest = some (d, rest) := by
  obtain ⟨fuel, rfl⟩ := Nat.exists_eq_succ_of_ne_zero hf
  rw [readSteps, h.read? (by decide)]
  dsimp only
  rw [h.read? (by decide)]
  dsimp only
  rw [h.read? (by decide)]
  dsimp only
  rw [h.read? (by decide)]

/-- A chain is read back in front of tokens that do not carry it on. -/
theorem ReadsBack.chain {level : Nat} {d : Derivation (.chain level)}
    (hd : ReadsBack (.chain level) d) (fuel : Nat) {rest : List Token}
    (hf : 16 * d.tokens.length ≤ fuel + 8 + level) (hl : level ≤ BinaryOp.levels)
    (h : Stops (chainFollow level) rest) :
    readChain fuel level (d.tokens ++ rest) = some (d, rest) := by
  obtain ⟨fuel', hfuel, hread⟩ := hd fuel rest hf (h.mono (chainFollow_subset (Nat.le_succ level)))
  have hn := List.length_pos_iff.mpr d.tokens_ne_nil
  unfold BinaryOp.levels at hl
  rw [hread, readLinks_of_stops (by omega) h.operator_read?]

theorem Terminal.not_literal {s : String} (b : Terminal s) :
    ¬ (b.token.kind = .int ∨ b.token.kind = .float ∨ b.token.kind = .string) :=
  fun h =>
    Bool.false_ne_true ((Token.stops h [s] [] b.token rfl s List.mem_cons_self).symm.trans b.is)

theorem Terminal.not_isName {s : String} (b : Terminal s)
    (hs : (Text.lit s).head?.any startsName = false) : ¬ b.token.IsName := by
  intro h
  have hstops : Stops [s] [b.token] := Word.stops ⟨b.token, h⟩ (by simpa using hs) []
  exact Bool.false_ne_true ((hstops b.token rfl s List.mem_cons_self).symm.trans b.is)

theorem Derivation.level_le {level : Nat} (d : Derivation (.chain level)) :
    level ≤ BinaryOp.levels := by
  cases d with
  | single h d => exact Nat.le_of_lt h
  | link l op r => rw [← op.level_eq]; cases op.op <;> decide
  | operand h u => exact Nat.le_of_eq h

namespace ReadsBack

theorem plain {c : Derivation (.chain 0)} (hc : ReadsBack _ c) : ReadsBack _ (.plain c) := by
  intro fuel rest hf hrest
  have hn := List.length_pos_iff.mpr c.tokens_ne_nil
  rw [Derivation.tokens] at hf ⊢
  obtain ⟨fuel, rfl⟩ := Nat.exists_eq_succ_of_ne_zero (by omega : fuel ≠ 0)
  have hread := hc.chain fuel (by omega) (Nat.zero_le _)
    (hrest.mono (List.subset_cons_self _ _))
  rw [readExpr, hread]
  simp only [Option.bind_eq_bind, Option.bind_some, hrest.read? List.mem_cons_self, Option.pure_def]

theorem conditional {c y : Derivation (.chain 0)} {n : Derivation .expr} (m : Terminal "?")
    (k : Terminal ":") (hc : ReadsBack _ c) (hy : ReadsBack _ y) (hn : ReadsBack _ n) :
    ReadsBack _ (.conditional c m y k n) := by
  intro fuel rest hf hrest
  simp only [Derivation.tokens, List.append_assoc, List.cons_append, List.length_append,
    List.length_cons] at hf ⊢
  obtain ⟨fuel, rfl⟩ := Nat.exists_eq_succ_of_ne_zero (by omega : fuel ≠ 0)
  have hreadc := hc.chain fuel (by omega) (Nat.zero_le _)
    (m.stops (by decide) (y.tokens ++ k.token :: (n.tokens ++ rest)))
  have hready := hy.chain fuel (by omega) (Nat.zero_le _)
    (k.stops (by decide) (n.tokens ++ rest))
  rw [readExpr, hreadc]
  simp only [Option.bind_eq_bind, Option.bind_some, Terminal.read?_cons, hready,
    hn fuel rest (by omega) hrest, Option.pure_def]

theorem single {level : Nat} (h : level < BinaryOp.levels) {d : Derivation (.chain (level + 1))}
    (hd : ReadsBack _ d) : ReadsBack _ (.single h d) := by
  intro fuel rest hf hrest
  have hn := List.length_pos_iff.mpr d.tokens_ne_nil
  rw [Derivation.tokens] at hf ⊢
  have hl : level + 1 ≤ BinaryOp.levels := h
  unfold BinaryOp.levels at hl
  obtain ⟨fuel, rfl⟩ := Nat.exists_eq_succ_of_ne_zero (by omega : fuel ≠ 0)
  have hread := hd.chain fuel (by omega) h hrest
  refine ⟨fuel, by omega, ?_⟩
  rw [readChain, dif_pos h, hread, Option.bind_eq_bind, Option.bind_some]

theorem link {level : Nat} {l : Derivation (.chain level)} (op : Operator level)
    {r : Derivation (.chain (level + 1))} (hl : ReadsBack _ l) (hr : ReadsBack _ r) :
    ReadsBack _ (.link l op r) := by
  intro fuel rest hf hrest
  simp only [Derivation.tokens, List.append_assoc, List.cons_append, List.length_append,
    List.length_cons] at hf ⊢
  have hlevel : level + 1 ≤ 5 := r.level_le
  obtain ⟨fuel', hfuel, hread⟩ := hl fuel (op.token :: (r.tokens ++ rest)) (by omega)
    (op.terminal.stops op.not_mem_chainFollow _)
  obtain ⟨fuel', rfl⟩ := Nat.exists_eq_succ_of_ne_zero (by omega : fuel' ≠ 0)
  have hreadr := hr.chain fuel' (by omega) r.level_le hrest
  refine ⟨fuel', by omega, ?_⟩
  rw [hread, readLinks, Operator.read?_cons]
  simp only [hreadr, Option.bind_eq_bind, Option.bind_some]

theorem operand {level : Nat} (h : level = BinaryOp.levels) {u : Derivation .unary}
    (hu : ReadsBack _ u) : ReadsBack _ (.operand h u) := by
  intro fuel rest hf hrest
  subst h
  have hn := List.length_pos_iff.mpr u.tokens_ne_nil
  rw [Derivation.tokens] at hf ⊢
  unfold BinaryOp.levels at hf
  obtain ⟨fuel, rfl⟩ := Nat.exists_eq_succ_of_ne_zero (by omega : fuel ≠ 0)
  have hread := hu fuel rest (by omega) (hrest.mono (List.subset_append_left _ _))
  refine ⟨fuel + 1, by omega, ?_⟩
  rw [readLinks_of_stops (Nat.succ_ne_zero _) (Operator.read?_levels rest), readChain,
    dif_neg (Nat.lt_irrefl _), dif_pos rfl, hread]
  rfl

theorem bare {m : Derivation .member} (hm : ReadsBack _ m) : ReadsBack _ (.bare m) := by
  intro fuel rest hf hrest
  have hn := List.length_pos_iff.mpr m.tokens_ne_nil
  rw [Derivation.tokens] at hf ⊢
  obtain ⟨fuel, rfl⟩ := Nat.exists_eq_succ_of_ne_zero (by omega : fuel ≠ 0)
  obtain ⟨fuel', hfuel, hread⟩ := hm fuel rest (by omega) (hrest.mono (by decide))
  rw [readSteps_of_stops (by omega) hrest] at hread
  obtain ⟨⟨p, us⟩, hp, hsteps⟩ := Option.bind_eq_some_iff.mp hread
  rw [readUnary, (m.stops_apart rest).sign_read? (by decide)]
  simp only [hp, hsteps, Option.bind_eq_bind, Option.bind_some, Option.pure_def]

theorem signed (s : Sign) {u : Derivation .unary} (hu : ReadsBack _ u) :
    ReadsBack _ (.signed s u) := by
  intro fuel rest hf hrest
  simp only [Derivation.tokens, List.cons_append, List.length_cons] at hf ⊢
  obtain ⟨fuel, rfl⟩ := Nat.exists_eq_succ_of_ne_zero (by omega : fuel ≠ 0)
  rw [readUnary, Sign.read?_cons]
  simp only [hu fuel rest (by omega) hrest, Option.bind_eq_bind, Option.bind_some, Option.pure_def]

theorem primary {p : Derivation .primary} (hp : ReadsBack _ p) : ReadsBack _ (.primary p) := by
  intro fuel rest hf hrest
  have hn := List.length_pos_iff.mpr p.tokens_ne_nil
  rw [Derivation.tokens] at hf ⊢
  refine ⟨fuel, by omega, ?_⟩
  rw [hp fuel rest hf hrest, Option.bind_some]

/-- A member with a step behind it is read back if the step is taken. -/
theorem step {m d : Derivation .member} {ts : List Token} (htokens : d.tokens = m.tokens ++ ts)
    (hm : ReadsBack _ m) (hts : ts ≠ []) (hstops : ∀ rest, Stops ["("] (ts ++ rest))
    (hread : ∀ fuel rest, 16 * ts.length ≤ fuel → Stops ["("] rest →
      readSteps (fuel + 1) m (ts ++ rest) = readSteps fuel d rest) : ReadsBack _ d := by
  intro fuel rest hf hrest
  have hmlength := List.length_pos_iff.mpr m.tokens_ne_nil
  have hlength := List.length_pos_iff.mpr hts
  rw [htokens, List.length_append] at hf
  obtain ⟨fuel', hfuel, hsteps⟩ := hm fuel (ts ++ rest) (by omega) (hstops rest)
  obtain ⟨fuel', rfl⟩ := Nat.exists_eq_succ_of_ne_zero (by omega : fuel' ≠ 0)
  refine ⟨fuel', ?_, ?_⟩
  · rw [htokens, List.length_append]
    omega
  · rw [htokens, List.append_assoc, hsteps, hread fuel' rest (by omega) hrest]

theorem select {m : Derivation .member} (p : Terminal ".") (n : Word) (hm : ReadsBack _ m) :
    ReadsBack _ (.select m p n) := by
  refine step rfl hm (List.cons_ne_nil _ _) (fun rest => p.stops (by decide) _) ?_
  intro fuel rest _ hrest
  rw [List.cons_append, List.cons_append, List.nil_append, readSteps, Terminal.read?_cons]
  simp only [Word.read?_cons, hrest.read? List.mem_cons_self, Option.bind_eq_bind, Option.bind_some]

theorem method {m : Derivation .member} {as : Derivation (.items ")")} (p : Terminal ".") (n : Word)
    (b : Terminal "(") (hm : ReadsBack _ m) (has : ReadsBack _ as) :
    ReadsBack _ (.method m p n b as) := by
  refine step rfl hm (List.cons_ne_nil _ _) (fun rest => p.stops (by decide) _) ?_
  intro fuel rest hf hrest
  simp only [List.length_cons] at hf
  have hread := has fuel rest (by omega) (by decide)
  simp only [List.cons_append]
  rw [readSteps, Terminal.read?_cons]
  simp only [Word.read?_cons, Terminal.read?_cons, hread, Option.bind_eq_bind, Option.bind_some]

theorem lenientSelect {m : Derivation .member} (p : Terminal ".?") (n : Word)
    (hm : ReadsBack _ m) : ReadsBack _ (.lenientSelect m p n) := by
  refine step rfl hm (List.cons_ne_nil _ _) (fun rest => p.stops (by decide) _) ?_
  intro fuel rest _ hrest
  rw [List.cons_append, List.cons_append, List.nil_append, readSteps,
    Terminal.read?_of_ne (by decide), Terminal.read?_cons]
  simp only [Word.read?_cons, Option.bind_eq_bind, Option.bind_some]

theorem index {m : Derivation .member} {k : Derivation .expr} (b : Terminal "[") (c : Terminal "]")
    (hm : ReadsBack _ m) (hk : ReadsBack _ k) : ReadsBack _ (.index m b k c) := by
  refine step rfl hm (List.cons_ne_nil _ _) (fun rest => b.stops (by decide) _) ?_
  intro fuel rest hf hrest
  simp only [List.length_cons, List.length_append] at hf
  have hread := hk fuel (c.token :: rest) (by omega) (c.stops (by decide) _)
  simp only [List.cons_append, List.append_assoc, List.nil_append]
  rw [readSteps, Terminal.read?_of_ne (by decide), Terminal.read?_of_ne (by decide),
    Terminal.read?_cons]
  simp only [hread, Terminal.read?_cons, Option.bind_eq_bind, Option.bind_some]

theorem lenientIndex {m : Derivation .member} {k : Derivation .expr} (b : Terminal "[?")
    (c : Terminal "]") (hm : ReadsBack _ m) (hk : ReadsBack _ k) :
    ReadsBack _ (.lenientIndex m b k c) := by
  refine step rfl hm (List.cons_ne_nil _ _) (fun rest => b.stops (by decide) _) ?_
  intro fuel rest hf hrest
  simp only [List.length_cons, List.length_append] at hf
  have hread := hk fuel (c.token :: rest) (by omega) (c.stops (by decide) _)
  simp only [List.cons_append, List.append_assoc, List.nil_append]
  rw [readSteps, Terminal.read?_of_ne (by decide), Terminal.read?_of_ne (by decide),
    Terminal.read?_of_ne (by decide), Terminal.read?_cons]
  simp only [hread, Terminal.read?_cons, Option.bind_eq_bind, Option.bind_some]

theorem literal {t : Token} (h : t.kind = .int ∨ t.kind = .float ∨ t.kind = .string) :
    ReadsBack _ (.literal t h) := by
  intro fuel rest hf _
  simp only [Derivation.tokens, List.length_cons, List.length_nil] at hf
  obtain ⟨fuel, rfl⟩ := Nat.exists_eq_succ_of_ne_zero (by omega : fuel ≠ 0)
  rw [Derivation.tokens, List.cons_append, readPrimary, dif_pos h, List.nil_append]

theorem word {n : Word} (h : n.IsPrimary) : ReadsBack _ (.word n h) := by
  intro fuel rest hf hrest
  simp only [Derivation.tokens, List.length_cons, List.length_nil] at hf
  obtain ⟨fuel, rfl⟩ := Nat.exists_eq_succ_of_ne_zero (by omega : fuel ≠ 0)
  rw [Derivation.tokens, List.cons_append, readPrimary, dif_neg n.not_literal, dif_pos n.isName,
    List.nil_append, hrest.read? List.mem_cons_self]
  exact dif_pos h

theorem call {n : Word} {as : Derivation (.items ")")} (h : n.IsCallable) (b : Terminal "(")
    (has : ReadsBack _ as) : ReadsBack _ (.call n h b as) := by
  intro fuel rest hf hrest
  simp only [Derivation.tokens, List.length_cons] at hf
  obtain ⟨fuel, rfl⟩ := Nat.exists_eq_succ_of_ne_zero (by omega : fuel ≠ 0)
  have hread := has fuel rest (by omega) (by decide)
  rw [Derivation.tokens, List.cons_append, List.cons_append, readPrimary, dif_neg n.not_literal,
    dif_pos n.isName, Terminal.read?_cons]
  simp only [dif_pos h, hread, Option.bind_eq_bind, Option.bind_some, Option.pure_def]

theorem parens {d : Derivation .expr} (b : Terminal "(") (c : Terminal ")") (hd : ReadsBack _ d) :
    ReadsBack _ (.parens b d c) := by
  intro fuel rest hf _
  simp only [Derivation.tokens, List.length_cons, List.length_append] at hf
  obtain ⟨fuel, rfl⟩ := Nat.exists_eq_succ_of_ne_zero (by omega : fuel ≠ 0)
  have hread := hd fuel (c.token :: rest) (by omega) (c.stops (by decide) _)
  simp only [Derivation.tokens, List.cons_append, List.append_assoc, List.nil_append]
  rw [readPrimary, dif_neg b.not_literal, dif_neg (b.not_isName (by decide)), Terminal.read?_cons]
  simp only [hread, Terminal.read?_cons, Option.bind_eq_bind, Option.bind_some, Option.pure_def]

theorem list {es : Derivation (.items "]")} (b : Terminal "[") (hes : ReadsBack _ es) :
    ReadsBack _ (.list b es) := by
  intro fuel rest hf _
  simp only [Derivation.tokens, List.length_cons] at hf
  obtain ⟨fuel, rfl⟩ := Nat.exists_eq_succ_of_ne_zero (by omega : fuel ≠ 0)
  have hread := hes fuel rest (by omega) (by decide)
  rw [Derivation.tokens, List.cons_append, readPrimary, dif_neg b.not_literal,
    dif_neg (b.not_isName (by decide)), Terminal.read?_of_ne (by decide), Terminal.read?_cons]
  simp only [hread, Option.bind_eq_bind, Option.bind_some, Option.pure_def]

theorem map {es : Derivation .entries} (b : Terminal "\x7b") (hes : ReadsBack _ es) :
    ReadsBack _ (.map b es) := by
  intro fuel rest hf _
  simp only [Derivation.tokens, List.length_cons] at hf
  obtain ⟨fuel, rfl⟩ := Nat.exists_eq_succ_of_ne_zero (by omega : fuel ≠ 0)
  have hread := hes fuel rest (by omega)
  rw [Derivation.tokens, List.cons_append, readPrimary, dif_neg b.not_literal,
    dif_neg (b.not_isName (by decide)), Terminal.read?_of_ne (by decide),
    Terminal.read?_of_ne (by decide), Terminal.read?_cons]
  simp only [hread, Option.bind_eq_bind, Option.bind_some, Option.pure_def]

theorem closeItems {close : String} (b : Terminal close) : ReadsBack _ (.closeItems b) := by
  intro fuel rest hf _
  simp only [Derivation.tokens, List.length_cons, List.length_nil] at hf
  obtain ⟨fuel, rfl⟩ := Nat.exists_eq_succ_of_ne_zero (by omega : fuel ≠ 0)
  rw [Derivation.tokens, List.cons_append, List.nil_append, readItems, Terminal.read?_cons]

/-- A closing bracket carries no expression on. -/
theorem closers_stop {close : String} (h : close ∈ closers) : close ∉ exprFollow :=
  (by decide : ∀ s ∈ closers, s ∉ exprFollow) close h

theorem lastItem {close : String} {d : Derivation .expr} (b : Terminal close)
    (hd : ReadsBack _ d) : ReadsBack _ (.lastItem d b) := by
  intro fuel rest hf hclose
  simp only [Derivation.tokens, List.length_cons, List.length_append] at hf
  obtain ⟨fuel, rfl⟩ := Nat.exists_eq_succ_of_ne_zero (by omega : fuel ≠ 0)
  have hread := hd fuel (b.token :: rest) (by omega) (b.stops (closers_stop hclose) _)
  simp only [Derivation.tokens, List.append_assoc, List.cons_append, List.nil_append]
  rw [readItems, (d.stops_apart _).read? hclose]
  simp only [hread, Terminal.read?_cons, Option.bind_eq_bind, Option.bind_some, Option.pure_def]

theorem moreItems {close : String} {d : Derivation .expr} {r : Derivation (.items close)}
    (c : Terminal ",") (hd : ReadsBack _ d) (hr : ReadsBack _ r) :
    ReadsBack _ (.moreItems d c r) := by
  intro fuel rest hf hclose
  simp only [Derivation.tokens, List.length_cons, List.length_append] at hf
  obtain ⟨fuel, rfl⟩ := Nat.exists_eq_succ_of_ne_zero (by omega : fuel ≠ 0)
  have hread := hd fuel (c.token :: (r.tokens ++ rest)) (by omega) (c.stops (by decide) _)
  have hreadr := hr fuel rest (by omega) hclose
  have hne : "," ≠ close := (by decide : ∀ s ∈ closers, "," ≠ s) close hclose
  simp only [Derivation.tokens, List.append_assoc, List.cons_append]
  rw [readItems, (d.stops_apart _).read? hclose]
  simp only [hread, hreadr, Terminal.read?_of_ne hne, Terminal.read?_cons, Option.bind_eq_bind,
    Option.bind_some, Option.pure_def]

theorem closeEntries (b : Terminal "\x7d") : ReadsBack _ (.closeEntries b) := by
  intro fuel rest hf
  simp only [Derivation.tokens, List.length_cons, List.length_nil] at hf
  obtain ⟨fuel, rfl⟩ := Nat.exists_eq_succ_of_ne_zero (by omega : fuel ≠ 0)
  rw [Derivation.tokens, List.cons_append, List.nil_append, readEntries, Terminal.read?_cons]

theorem lastEntry {k v : Derivation .expr} (c : Terminal ":") (b : Terminal "\x7d")
    (hk : ReadsBack _ k) (hv : ReadsBack _ v) : ReadsBack _ (.lastEntry k c v b) := by
  intro fuel rest hf
  simp only [Derivation.tokens, List.length_cons, List.length_append] at hf
  obtain ⟨fuel, rfl⟩ := Nat.exists_eq_succ_of_ne_zero (by omega : fuel ≠ 0)
  have hreadk := hk fuel (c.token :: (v.tokens ++ b.token :: rest)) (by omega)
    (c.stops (by decide) _)
  have hreadv := hv fuel (b.token :: rest) (by omega) (b.stops (by decide) _)
  simp only [Derivation.tokens, List.append_assoc, List.cons_append, List.nil_append]
  rw [readEntries, (k.stops_apart _).read? (by decide)]
  simp only [hreadk, hreadv, Terminal.read?_cons, Option.bind_eq_bind, Option.bind_some,
    Option.pure_def]

theorem moreEntries {k v : Derivation .expr} {r : Derivation .entries} (c : Terminal ":")
    (m : Terminal ",") (hk : ReadsBack _ k) (hv : ReadsBack _ v) (hr : ReadsBack _ r) :
    ReadsBack _ (.moreEntries k c v m r) := by
  intro fuel rest hf
  simp only [Derivation.tokens, List.length_cons, List.length_append] at hf
  obtain ⟨fuel, rfl⟩ := Nat.exists_eq_succ_of_ne_zero (by omega : fuel ≠ 0)
  have hreadk := hk fuel (c.token :: (v.tokens ++ m.token :: (r.tokens ++ rest))) (by omega)
    (c.stops (by decide) _)
  have hreadv := hv fuel (m.token :: (r.tokens ++ rest)) (by omega) (m.stops (by decide) _)
  have hreadr := hr fuel rest (by omega)
  have hne : "," ≠ "\x7d" := by decide
  simp only [Derivation.tokens, List.append_assoc, List.cons_append]
  rw [readEntries, (k.stops_apart _).read? (by decide)]
  simp only [hreadk, hreadv, hreadr, Terminal.read?_of_ne hne, Terminal.read?_cons,
    Option.bind_eq_bind, Option.bind_some, Option.pure_def]

end ReadsBack

namespace Derivation

/-- **A derivation is read back.** -/
theorem readsBack {s : Symbol} (d : Derivation s) : ReadsBack s d := by
  induction d with
  | plain c hc => exact hc.plain
  | conditional c m y k n hc hy hn => exact hc.conditional m k hy hn
  | single h d hd => exact .single h hd
  | link l op r hl hr => exact .link op hl hr
  | operand h u hu => exact .operand h hu
  | bare m hm => exact .bare hm
  | signed s u hu => exact .signed s hu
  | primary p hp => exact .primary hp
  | select m p n hm => exact .select p n hm
  | method m p n b as hm has => exact .method p n b hm has
  | lenientSelect m p n hm => exact .lenientSelect p n hm
  | index m b k c hm hk => exact .index b c hm hk
  | lenientIndex m b k c hm hk => exact .lenientIndex b c hm hk
  | literal t h => exact .literal h
  | word n h => exact .word h
  | call n h b as has => exact .call h b has
  | parens b e c he => exact .parens b c he
  | list b es hes => exact .list b hes
  | map b es hes => exact .map b hes
  | closeItems b => exact .closeItems b
  | lastItem e b he => exact .lastItem b he
  | moreItems e c r he hr => exact .moreItems c he hr
  | closeEntries b => exact .closeEntries b
  | lastEntry k c v b hk hv => exact .lastEntry c b hk hv
  | moreEntries k c v m r hk hv hr => exact .moreEntries c m hk hv hr

end Derivation

/-- **An expression is read from exactly the tokens of its derivation.** -/
theorem readExpr_eq_some_iff {fuel : Nat} {ts : List Token} (hf : 16 * ts.length ≤ fuel + 7)
    {d : Derivation .expr} : readExpr fuel ts = some (d, []) ↔ d.tokens = ts := by
  constructor
  · intro h
    have hts := (readsTokens fuel).expr h
    rw [List.append_nil] at hts
    exact hts.symm
  · rintro rfl
    have hread := d.readsBack fuel [] hf (stops_nil _)
    rwa [List.append_nil] at hread

/-- **No two derivations of an expression have the same tokens.** -/
theorem Derivation.eq_of_tokens {d d' : Derivation .expr} (h : d.tokens = d'.tokens) : d = d' := by
  have hf : 16 * d'.tokens.length ≤ 16 * d'.tokens.length + 7 := Nat.le_add_right _ _
  have hd := (readExpr_eq_some_iff hf).mpr h
  rw [(readExpr_eq_some_iff hf).mpr rfl] at hd
  exact (Prod.mk.inj (Option.some.inj hd)).1.symm

end LogStream.Filter
