import LogStream.Proofs.Filter.Nodes
import LogStream.Proofs.Filter.Parser.Input

/-! # What is parsed is read

Where the parser finds a tree in regular tokens, a derivation is read that stands for the tree, from
the same tokens (`parsesRead`). Each function of the parser goes the way of its reader, given that
the functions it calls do, so this is by induction on the fuel. -/

namespace LogStream.Filter

/-- A derivation is read that stands for what is found, up to the tokens that are left. -/
def Found {s : Symbol} (read : Option (Derivation s × List Token)) (stop : Nat)
    (found : s.Meaning × Input) : Prop :=
  ∃ d us, read = some (d, us) ∧ d.Means found.1 ∧ found.2 = ⟨us, stop⟩

/-- What the parser finds with some fuel is read with it. -/
structure ParsesRead (fuel : Nat) : Prop where
  expr : ∀ {i e j}, Regular i.tokens → parseExpr fuel i = .ok (e, j) →
    Found (readExpr fuel i.tokens) i.stop (e, j)
  chain : ∀ {level i e j}, level ≤ BinaryOp.levels → Regular i.tokens →
    parseChain fuel level i = .ok (e, j) → Found (readChain fuel level i.tokens) i.stop (e, j)
  links : ∀ {level a i e j} {l : Derivation (.chain level)}, level < BinaryOp.levels →
    Regular i.tokens → l.Means a → parseLinks fuel level a i = .ok (e, j) →
    Found (readLinks fuel level l i.tokens) i.stop (e, j)
  unary : ∀ {i e j}, Regular i.tokens → parseUnary fuel i = .ok (e, j) →
    Found (readUnary fuel i.tokens) i.stop (e, j)
  steps : ∀ {a i e j} {m : Derivation .member}, Regular i.tokens → m.Means a →
    parseSteps fuel a i = .ok (e, j) → Found (readSteps fuel m i.tokens) i.stop (e, j)
  primary : ∀ {i e j}, Regular i.tokens → parsePrimary fuel i = .ok (e, j) →
    Found (readPrimary fuel i.tokens) i.stop (e, j)
  items : ∀ {close i e j}, Regular i.tokens → parseItems fuel close i = .ok (e, j) →
    Found (s := .items close) (readItems fuel close i.tokens) i.stop (e, j)
  entries : ∀ {i e j}, Regular i.tokens → parseEntries fuel i = .ok (e, j) →
    Found (s := .entries) (readEntries fuel i.tokens) i.stop (e, j)

namespace ParsesRead

variable {fuel : Nat} {i j : Input} {e a : Expr}

theorem expr_succ (ih : ParsesRead fuel) (hi : Regular i.tokens)
    (h : parseExpr (fuel + 1) i = .ok (e, j)) :
    Found (readExpr (fuel + 1) i.tokens) i.stop (e, j) := by
  rw [parseExpr] at h
  obtain ⟨⟨a, k⟩, hc, h⟩ := exists_of_bind_eq_ok h
  obtain ⟨c, us, hreadc, hma, rfl⟩ := ih.chain (Nat.zero_le _) hi hc
  have hus := hi.behind ((readsTokens fuel).chain hreadc)
  dsimp only at h
  split at h
  · next hat =>
    obtain ⟨m, vs, hreadm⟩ := Input.exists_of_isAt hat
    have hm := Terminal.eq_of_read? hreadm
    rw [Input.next_eq hm, Input.pos_eq hm] at h
    obtain ⟨⟨b, k⟩, hy, h⟩ := exists_of_bind_eq_ok h
    obtain ⟨y, ws, hready, hmb, rfl⟩ := ih.chain (Nat.zero_le _) (hus.tail hm) hy
    have hws := (hus.tail hm).behind ((readsTokens fuel).chain hready)
    obtain ⟨k, hk, h⟩ := exists_of_bind_eq_ok h
    obtain ⟨colon, xs, hreadk, rfl⟩ := Input.exists_of_expect hk
    obtain ⟨⟨d, k⟩, hn, h⟩ := exists_of_bind_eq_ok h
    obtain ⟨n, ys, hreadn, hmd, rfl⟩ := ih.expr (hws.tail (Terminal.eq_of_read? hreadk)) hn
    cases h
    refine ⟨.conditional c m y colon n, ys, ?_, .conditional m colon hma hmb hmd, rfl⟩
    rw [readExpr]
    simp only [hreadc, hreadm, hready, hreadk, hreadn, Option.bind_eq_bind, Option.bind_some,
      Option.pure_def]
  · next hat =>
    cases h
    refine ⟨.plain c, us, ?_, .plain hma, rfl⟩
    rw [readExpr]
    simp only [hreadc, Input.read?_of_not_isAt hat, Option.bind_eq_bind, Option.bind_some,
      Option.pure_def]

theorem chain_succ (ih : ParsesRead fuel) {level : Nat} (hl : level ≤ BinaryOp.levels)
    (hi : Regular i.tokens) (h : parseChain (fuel + 1) level i = .ok (e, j)) :
    Found (readChain (fuel + 1) level i.tokens) i.stop (e, j) := by
  rw [parseChain] at h
  split at h
  · next hlt =>
    obtain ⟨⟨a, k⟩, hd, h⟩ := exists_of_bind_eq_ok h
    obtain ⟨d, us, hread, hma, rfl⟩ := ih.chain hlt hi hd
    have hus := hi.behind ((readsTokens fuel).chain hread)
    obtain ⟨l, vs, hlinks, hml, hj⟩ := ih.links (i := ⟨us, i.stop⟩) hlt hus (.single hlt hma) h
    refine ⟨l, vs, ?_, hml, hj⟩
    rw [readChain, dif_pos hlt, hread]
    exact hlinks
  · next hlt =>
    have heq : level = BinaryOp.levels := Nat.le_antisymm hl (Nat.le_of_not_lt hlt)
    obtain ⟨u, us, hread, hmu, hj⟩ := ih.unary hi h
    refine ⟨.operand heq u, us, ?_, .operand heq hmu, hj⟩
    rw [readChain, dif_neg hlt, dif_pos heq, hread]
    rfl

theorem links_succ (ih : ParsesRead fuel) {level : Nat} {l : Derivation (.chain level)}
    (hl : level < BinaryOp.levels) (hi : Regular i.tokens) (hma : l.Means a)
    (h : parseLinks (fuel + 1) level a i = .ok (e, j)) :
    Found (readLinks (fuel + 1) level l i.tokens) i.stop (e, j) := by
  rw [parseLinks] at h
  rcases Operator.read?_cases level i.tokens with ⟨op, us, hreadop, hop⟩ | ⟨hnone, hlevel⟩
  · have htokens := Operator.eq_of_read? hreadop
    rw [hop] at h
    dsimp only at h
    rw [if_pos op.level_eq, Input.next_eq htokens, Input.pos_eq htokens] at h
    obtain ⟨⟨b, k⟩, hr, h⟩ := exists_of_bind_eq_ok h
    obtain ⟨r, vs, hreadr, hmb, rfl⟩ := ih.chain hl (hi.tail htokens) hr
    have hvs := (hi.tail htokens).behind ((readsTokens fuel).chain hreadr)
    obtain ⟨d, ws, hlinks, hmd, hj⟩ := ih.links (i := ⟨vs, i.stop⟩) hl hvs (.link op hma hmb) h
    refine ⟨d, ws, ?_, hmd, hj⟩
    rw [readLinks, hreadop]
    simp only [hreadr, Option.bind_eq_bind, Option.bind_some]
    exact hlinks
  · have hfound : Except.ok (a, i) = Except.ok (ε := CompileError) (e, j) := by
      split at h
      · exact h
      · next op hop => rwa [if_neg (hlevel op hop)] at h
    cases hfound
    refine ⟨l, i.tokens, ?_, hma, rfl⟩
    rw [readLinks, hnone]

theorem unary_succ (ih : ParsesRead fuel) (hi : Regular i.tokens)
    (h : parseUnary (fuel + 1) i = .ok (e, j)) :
    Found (readUnary (fuel + 1) i.tokens) i.stop (e, j) := by
  rw [parseUnary] at h
  rcases Sign.read?_cases i.tokens with ⟨s, us, hreads, hs⟩ | ⟨hnone, hno⟩
  · have htokens := Sign.eq_of_read? hreads
    rw [hs] at h
    dsimp only at h
    rw [Input.next_eq htokens, Input.pos_eq htokens] at h
    obtain ⟨⟨b, k⟩, hu, h⟩ := exists_of_bind_eq_ok h
    obtain ⟨u, vs, hreadu, hmb, rfl⟩ := ih.unary (hi.tail htokens) hu
    cases h
    refine ⟨.signed s u, vs, ?_, .signed s hmb (unaryNode_eq_iff.mp rfl), rfl⟩
    rw [readUnary, hreads]
    simp only [hreadu, Option.bind_eq_bind, Option.bind_some, Option.pure_def]
  · rw [hno] at h
    obtain ⟨⟨b, k⟩, hp, h⟩ := exists_of_bind_eq_ok h
    obtain ⟨p, us, hreadp, hmb, rfl⟩ := ih.primary hi hp
    have hus := hi.behind ((readsTokens fuel).primary hreadp)
    obtain ⟨m, vs, hsteps, hmm, hj⟩ := ih.steps (i := ⟨us, i.stop⟩) hus (.primary hmb) h
    refine ⟨.bare m, vs, ?_, .bare hmm, hj⟩
    rw [readUnary, hnone]
    simp only [hreadp, hsteps, Option.bind_eq_bind, Option.bind_some, Option.pure_def]

/-- A field, or a call of a method, and what comes behind it. -/
theorem point_found (ih : ParsesRead fuel) {m : Derivation .member} (p : Terminal ".")
    {us : List Token} {stop : Nat} (hus : Regular us) (hma : m.Means a)
    (h : (do
      let (name, j) ← Input.name ⟨us, stop⟩
      if j.isAt "(" then do
        let (args, k) ← parseItems fuel ")" j.next
        let node ← methodNode p.token.pos a name args
        parseSteps fuel node k
      else parseSteps fuel (.select p.token.pos a name false) j) = .ok (e, j)) :
    Found (do
      let (n, us) ← Word.read? us
      match Terminal.read? "(" us with
      | some (b, us) => do
        let (as, us) ← readItems fuel ")" us
        readSteps fuel (.method m p n b as) us
      | none => readSteps fuel (.select m p n) us) stop (e, j) := by
  obtain ⟨⟨name, k⟩, hn, h⟩ := exists_of_bind_eq_ok h
  obtain ⟨n, vs, hreadn, rfl, rfl⟩ := Input.exists_of_name hus hn
  have hvs := hus.tail (Word.eq_of_read? hreadn)
  unfold Found
  dsimp only at h
  dsimp only at hreadn
  simp only [hreadn, Option.bind_eq_bind, Option.bind_some]
  split at h
  · next hcall =>
    obtain ⟨b, ws, hreadb⟩ := Input.exists_of_isAt hcall
    have hb := Terminal.eq_of_read? hreadb
    rw [Input.next_eq hb] at h
    obtain ⟨⟨args, k⟩, has, h⟩ := exists_of_bind_eq_ok h
    obtain ⟨as, xs, hreadas, hmas, rfl⟩ := ih.items (hvs.tail hb) has
    have hxs := (hvs.tail hb).behind ((readsTokens fuel).items hreadas)
    obtain ⟨node, hnode, h⟩ := exists_of_bind_eq_ok h
    simp only [hreadb, hreadas, Option.bind_some]
    exact ih.steps (i := ⟨xs, stop⟩) hxs (.method p n b hma hmas (methodNode_eq_ok_iff.mp hnode)) h
  · next hcall =>
    simp only [Input.read?_of_not_isAt hcall]
    exact ih.steps (i := ⟨vs, stop⟩) hvs (.select p n hma) h

/-- A field that may be missing, and what comes behind it. -/
theorem lenient_found (ih : ParsesRead fuel) {m : Derivation .member} (p : Terminal ".?")
    {us : List Token} {stop : Nat} (hus : Regular us) (hma : m.Means a)
    (h : (do
      let (name, j) ← Input.name ⟨us, stop⟩
      parseSteps fuel (.select p.token.pos a name true) j) = .ok (e, j)) :
    Found (do
      let (n, us) ← Word.read? us
      readSteps fuel (.lenientSelect m p n) us) stop (e, j) := by
  obtain ⟨⟨name, k⟩, hn, h⟩ := exists_of_bind_eq_ok h
  obtain ⟨n, vs, hreadn, rfl, rfl⟩ := Input.exists_of_name hus hn
  have hvs := hus.tail (Word.eq_of_read? hreadn)
  unfold Found
  dsimp only at hreadn
  simp only [hreadn, Option.bind_eq_bind, Option.bind_some]
  exact ih.steps (i := ⟨vs, stop⟩) hvs (.lenientSelect p n hma) h

/-- A key in brackets, plain or lenient, and what comes behind it. -/
theorem key_found (ih : ParsesRead fuel) {us : List Token} {pos stop : Nat} {lenient : Bool}
    {make : Derivation .expr → Terminal "]" → Derivation .member} (hus : Regular us)
    (hmake : ∀ {k x} c, k.Means x → (make k c).Means (.index pos a x lenient))
    (h : (do
      let (key, j) ← parseExpr fuel ⟨us, stop⟩
      let j ← j.expect "]"
      parseSteps fuel (.index pos a key lenient) j) = .ok (e, j)) :
    Found (do
      let (k, us) ← readExpr fuel us
      let (c, us) ← Terminal.read? "]" us
      readSteps fuel (make k c) us) stop (e, j) := by
  obtain ⟨⟨key, _⟩, hkey, h⟩ := exists_of_bind_eq_ok h
  obtain ⟨k, vs, hreadk, hmk, rfl⟩ := ih.expr (i := ⟨us, stop⟩) hus hkey
  have hvs := hus.behind ((readsTokens fuel).expr hreadk)
  obtain ⟨_, hclose, h⟩ := exists_of_bind_eq_ok h
  obtain ⟨c, ws, hreadc, rfl⟩ := Input.exists_of_expect hclose
  have hws := hvs.tail (Terminal.eq_of_read? hreadc)
  unfold Found
  dsimp only at hreadk hreadc
  simp only [hreadk, hreadc, Option.bind_eq_bind, Option.bind_some]
  exact ih.steps (i := ⟨ws, stop⟩) hws (hmake c hmk) h

theorem steps_succ (ih : ParsesRead fuel) {m : Derivation .member} (hi : Regular i.tokens)
    (hma : m.Means a) (h : parseSteps (fuel + 1) a i = .ok (e, j)) :
    Found (readSteps (fuel + 1) m i.tokens) i.stop (e, j) := by
  rw [readSteps]
  cases hpoint : Terminal.read? "." i.tokens with
  | some o =>
    obtain ⟨p, us⟩ := o
    rw [parseSteps_point hpoint] at h
    exact ih.point_found p (hi.tail (Terminal.eq_of_read? hpoint)) hma h
  | none =>
  cases hlenient : Terminal.read? ".?" i.tokens with
  | some o =>
    obtain ⟨p, us⟩ := o
    rw [parseSteps_lenient hlenient] at h
    exact ih.lenient_found p (hi.tail (Terminal.eq_of_read? hlenient)) hma h
  | none =>
  cases hsquare : Terminal.read? "[" i.tokens with
  | some o =>
    obtain ⟨b, us⟩ := o
    rw [parseSteps_bracket (.inl rfl) hsquare] at h
    exact ih.key_found (hi.tail (Terminal.eq_of_read? hsquare)) (fun c hmk => .index b c hma hmk) h
  | none =>
  cases hmarked : Terminal.read? "[?" i.tokens with
  | some o =>
    obtain ⟨b, us⟩ := o
    rw [parseSteps_bracket (.inr rfl) hmarked] at h
    exact ih.key_found (hi.tail (Terminal.eq_of_read? hmarked))
      (fun c hmk => .lenientIndex b c hma hmk) h
  | none =>
    have hno : ∀ s ∈ [".", ".?", "[", "[?"], Terminal.read? s i.tokens = none := by
      simpa using ⟨hpoint, hlenient, hsquare, hmarked⟩
    rw [parseSteps_stop hno] at h
    cases h
    exact ⟨m, i.tokens, rfl, hma, rfl⟩

/-- A name is a word, or the name of a call. -/
theorem name_found (ih : ParsesRead fuel) {t : Token} {ts : List Token} (hts : i.tokens = t :: ts)
    (hi : Regular ts) (hname : t.IsName)
    (h : (if t.text = Text.lit "in" then i.fail .unexpectedIn
      else if i.next.isAt "(" && !isConstantName t.text then do
        let (args, j) ← parseItems fuel ")" i.next.next
        return (← callNode t.pos t.text args, j)
      else .ok (wordNode t.pos t.text, i.next)) = .ok (e, j)) :
    Found (readPrimary (fuel + 1) (t :: ts)) i.stop (e, j) := by
  have hliteral := Word.not_literal ⟨t, hname⟩
  unfold Found
  rw [readPrimary, dif_neg hliteral, dif_pos hname]
  rw [Input.next_eq hts] at h
  split at h
  · cases h
  next hne =>
  have hin : Word.IsPrimary ⟨t, hname⟩ := hne
  cases hbracket : Terminal.read? "(" ts with
  | none =>
    rw [Input.isAt_eq_false (i := ⟨ts, i.stop⟩) hbracket, Bool.false_and,
      if_neg Bool.false_ne_true] at h
    cases h
    exact ⟨.word ⟨t, hname⟩ hin, ts, dif_pos hin, .word hin (wordNode_eq_iff.mp rfl), rfl⟩
  | some o =>
    obtain ⟨b, us⟩ := o
    rw [Input.isAt_eq_true (i := ⟨ts, i.stop⟩) hbracket, Bool.true_and] at h
    have hb := Terminal.eq_of_read? hbracket
    cases hconstant : isConstantName t.text with
    | true =>
      rw [hconstant, if_neg (by decide)] at h
      cases h
      have hcall : ¬ Word.IsCallable ⟨t, hname⟩ := fun hc => by
        rw [hc.2] at hconstant
        cases hconstant
      refine ⟨.word ⟨t, hname⟩ hin, ts, ?_, .word hin (wordNode_eq_iff.mp rfl), rfl⟩
      simp only [dif_neg hcall]
      exact dif_pos hin
    | false =>
      rw [hconstant, if_pos (by decide), Input.next_eq (i := ⟨ts, i.stop⟩) hb] at h
      obtain ⟨⟨args, _⟩, has, h⟩ := exists_of_bind_eq_ok h
      obtain ⟨as, vs, hreadas, hmas, rfl⟩ := ih.items (i := ⟨us, i.stop⟩) (hi.tail hb) has
      obtain ⟨node, hnode, h⟩ := exists_of_bind_eq_ok h
      cases h
      have hcall : Word.IsCallable ⟨t, hname⟩ := ⟨hin, hconstant⟩
      have hmeans := Derivation.Means.call hcall b hmas (callNode_eq_ok_iff.mp hnode)
      refine ⟨.call ⟨t, hname⟩ hcall b as, vs, ?_, hmeans, rfl⟩
      simp only [dif_pos hcall, hreadas, Option.bind_eq_bind, Option.bind_some, Option.pure_def]

/-- What stands in brackets. -/
theorem bracket_found (ih : ParsesRead fuel) {t : Token} {ts : List Token}
    (hts : i.tokens = t :: ts) (hi : Regular ts) (hk : t.kind = .op)
    (h : (if i.isAt "(" then do
        let (inner, j) ← parseExpr fuel i.next
        return (inner, ← j.expect ")")
      else if i.isAt "[" then do
        let (elements, j) ← parseItems fuel "]" i.next
        return (.list t.pos elements, j)
      else if i.isAt "\x7b" then do
        let (entries, j) ← parseEntries fuel i.next
        return (.map t.pos entries, j)
      else i.fail (.unexpectedToken t.text)) = .ok (e, j)) :
    Found (readPrimary (fuel + 1) (t :: ts)) i.stop (e, j) := by
  have hliteral : ¬ (t.kind = .int ∨ t.kind = .float ∨ t.kind = .string) := by rw [hk]; decide
  have hname : ¬ t.IsName := fun hn => by cases hk.symm.trans hn.1
  unfold Found
  rw [readPrimary, dif_neg hliteral, dif_neg hname, ← hts]
  rw [Input.next_eq hts] at h
  split at h
  · next hat =>
    obtain ⟨b, us, hreadb⟩ := Input.exists_of_isAt hat
    cases hts.symm.trans (Terminal.eq_of_read? hreadb)
    obtain ⟨⟨inner, _⟩, hinner, h⟩ := exists_of_bind_eq_ok h
    obtain ⟨d, vs, hread, hmd, rfl⟩ := ih.expr (i := ⟨ts, i.stop⟩) hi hinner
    obtain ⟨_, hclose, h⟩ := exists_of_bind_eq_ok h
    obtain ⟨c, ws, hreadc, rfl⟩ := Input.exists_of_expect hclose
    cases h
    refine ⟨.parens b d c, ws, ?_, .parens b c hmd, rfl⟩
    simp only [hreadb, hread, hreadc, Option.bind_eq_bind, Option.bind_some, Option.pure_def]
  next hround =>
  rw [Input.read?_of_not_isAt hround]
  dsimp only
  split at h
  · next hat =>
    obtain ⟨b, us, hreadb⟩ := Input.exists_of_isAt hat
    cases hts.symm.trans (Terminal.eq_of_read? hreadb)
    obtain ⟨⟨elements, _⟩, hes, h⟩ := exists_of_bind_eq_ok h
    obtain ⟨es, vs, hread, hmes, rfl⟩ := ih.items (i := ⟨ts, i.stop⟩) hi hes
    cases h
    refine ⟨.list b es, vs, ?_, .list b hmes, rfl⟩
    simp only [hreadb, hread, Option.bind_eq_bind, Option.bind_some, Option.pure_def]
  next hsquare =>
  rw [Input.read?_of_not_isAt hsquare]
  dsimp only
  split at h
  · next hat =>
    obtain ⟨b, us, hreadb⟩ := Input.exists_of_isAt hat
    cases hts.symm.trans (Terminal.eq_of_read? hreadb)
    obtain ⟨⟨entries, _⟩, hes, h⟩ := exists_of_bind_eq_ok h
    obtain ⟨es, vs, hread, hmes, rfl⟩ := ih.entries (i := ⟨ts, i.stop⟩) hi hes
    cases h
    refine ⟨.map b es, vs, ?_, .map b hmes, rfl⟩
    simp only [hreadb, hread, Option.bind_eq_bind, Option.bind_some, Option.pure_def]
  · cases h

theorem primary_succ (ih : ParsesRead fuel) (hi : Regular i.tokens)
    (h : parsePrimary (fuel + 1) i = .ok (e, j)) :
    Found (readPrimary (fuel + 1) i.tokens) i.stop (e, j) := by
  rw [parsePrimary.eq_def] at h
  dsimp only at h
  split at h
  · cases h
  next t ts hts =>
  have ht := hi t (hts ▸ List.mem_cons_self)
  have hbehind := hi.tail hts
  have hfound : ∀ c, (hl : t.kind = .int ∨ t.kind = .float ∨ t.kind = .string) → t.Denotes c →
      Found (readPrimary (fuel + 1) i.tokens) i.stop (.literal t.pos c, i.next) := by
    intro c hl hc
    refine ⟨.literal t hl, ts, ?_, .literal hl hc, Input.next_eq hts⟩
    rw [hts, readPrimary, dif_pos hl]
  split at h
  · next hk =>
    obtain ⟨c, hc, h⟩ := exists_of_bind_eq_ok h
    cases h
    exact hfound c (.inl hk) ((readInteger_eq_ok_iff hk ht.isReadable (ht.isInteger hk)).mp hc)
  · next hk =>
    cases h
    exact hfound _ (.inr (.inl hk)) (.float hk)
  · next hk =>
    obtain ⟨c, hc, h⟩ := exists_of_bind_eq_ok h
    cases h
    exact hfound c (.inr (.inr hk)) ((readString_eq_ok_iff hk).mp hc)
  · next hk =>
    rw [hts]
    exact ih.name_found hts hbehind (ht.isName hk) h
  · next hk =>
    rw [hts]
    exact ih.bracket_found hts hbehind hk h

theorem items_succ (ih : ParsesRead fuel) {close : String} {es : List Expr} (hi : Regular i.tokens)
    (h : parseItems (fuel + 1) close i = .ok (es, j)) :
    Found (s := .items close) (readItems (fuel + 1) close i.tokens) i.stop (es, j) := by
  rw [parseItems] at h
  unfold Found
  rw [readItems]
  split at h
  · next hat =>
    obtain ⟨b, us, hreadb⟩ := Input.exists_of_isAt hat
    rw [Input.next_eq (Terminal.eq_of_read? hreadb)] at h
    cases h
    rw [hreadb]
    exact ⟨.closeItems b, us, rfl, .closeItems b, rfl⟩
  next hat =>
  rw [Input.read?_of_not_isAt hat]
  obtain ⟨⟨e, k⟩, he, h⟩ := exists_of_bind_eq_ok h
  obtain ⟨d, us, hread, hme, rfl⟩ := ih.expr hi he
  have hus := hi.behind ((readsTokens fuel).expr hread)
  simp only [hread, Option.bind_eq_bind, Option.bind_some]
  dsimp only at h
  split at h
  · next hclose =>
    obtain ⟨b, vs, hreadb⟩ := Input.exists_of_isAt hclose
    rw [Input.next_eq (Terminal.eq_of_read? hreadb)] at h
    cases h
    rw [hreadb]
    exact ⟨.lastItem d b, vs, rfl, .lastItem b hme, rfl⟩
  · next hclose =>
    obtain ⟨k, hk, h⟩ := exists_of_bind_eq_ok h
    obtain ⟨c, vs, hreadc, rfl⟩ := Input.exists_of_expect hk
    obtain ⟨⟨es, k⟩, hes, h⟩ := exists_of_bind_eq_ok h
    obtain ⟨r, ws, hreadr, hmr, rfl⟩ := ih.items (hus.tail (Terminal.eq_of_read? hreadc)) hes
    cases h
    refine ⟨.moreItems d c r, ws, ?_, .moreItems c hme hmr, rfl⟩
    simp only [Input.read?_of_not_isAt hclose, hreadc, hreadr, Option.bind_some,
      Option.pure_def]

theorem entries_succ (ih : ParsesRead fuel) {es : List (Expr × Expr)} (hi : Regular i.tokens)
    (h : parseEntries (fuel + 1) i = .ok (es, j)) :
    Found (s := .entries) (readEntries (fuel + 1) i.tokens) i.stop (es, j) := by
  rw [parseEntries] at h
  unfold Found
  rw [readEntries]
  split at h
  · next hat =>
    obtain ⟨b, us, hreadb⟩ := Input.exists_of_isAt hat
    rw [Input.next_eq (Terminal.eq_of_read? hreadb)] at h
    cases h
    rw [hreadb]
    exact ⟨.closeEntries b, us, rfl, .closeEntries b, rfl⟩
  next hat =>
  rw [Input.read?_of_not_isAt hat]
  obtain ⟨⟨a, k⟩, ha, h⟩ := exists_of_bind_eq_ok h
  obtain ⟨k, us, hreadk, hma, rfl⟩ := ih.expr hi ha
  have hus := hi.behind ((readsTokens fuel).expr hreadk)
  obtain ⟨_, hcolon, h⟩ := exists_of_bind_eq_ok h
  obtain ⟨c, vs, hreadc, rfl⟩ := Input.exists_of_expect hcolon
  have hvs := hus.tail (Terminal.eq_of_read? hreadc)
  obtain ⟨⟨e, _⟩, he, h⟩ := exists_of_bind_eq_ok h
  obtain ⟨v, ws, hreadv, hme, rfl⟩ := ih.expr hvs he
  have hws := hvs.behind ((readsTokens fuel).expr hreadv)
  simp only [hreadk, hreadc, hreadv, Option.bind_eq_bind, Option.bind_some]
  dsimp only at h
  split at h
  · next hclose =>
    obtain ⟨b, xs, hreadb⟩ := Input.exists_of_isAt hclose
    rw [Input.next_eq (Terminal.eq_of_read? hreadb)] at h
    cases h
    rw [hreadb]
    exact ⟨.lastEntry k c v b, xs, rfl, .lastEntry c b hma hme, rfl⟩
  · next hclose =>
    obtain ⟨_, hcomma, h⟩ := exists_of_bind_eq_ok h
    obtain ⟨m, xs, hreadm, rfl⟩ := Input.exists_of_expect hcomma
    obtain ⟨⟨es, _⟩, hes, h⟩ := exists_of_bind_eq_ok h
    obtain ⟨r, ys, hreadr, hmr, rfl⟩ := ih.entries (hws.tail (Terminal.eq_of_read? hreadm)) hes
    cases h
    refine ⟨.moreEntries k c v m r, ys, ?_, .moreEntries c m hma hme hmr, rfl⟩
    simp only [Input.read?_of_not_isAt hclose, hreadm, hreadr, Option.bind_some,
      Option.pure_def]

end ParsesRead

/-- **What is parsed is read.** -/
theorem parsesRead (fuel : Nat) : ParsesRead fuel := by
  induction fuel with
  | zero => constructor <;> intros <;> contradiction
  | succ fuel ih =>
    exact ⟨ih.expr_succ, ih.chain_succ, ih.links_succ, ih.unary_succ, ih.steps_succ,
      ih.primary_succ, ih.items_succ, ih.entries_succ⟩

end LogStream.Filter
