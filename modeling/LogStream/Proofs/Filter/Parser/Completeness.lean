import LogStream.Proofs.Filter.Nodes
import LogStream.Proofs.Filter.Parser.Input

/-! # What is read is parsed

Where a derivation is read from regular tokens and stands for a tree, the parser finds the tree and
leaves the same tokens (`readParses`). The links of a chain and the steps of a member are joined to
what stands before them, so for these some tree of the part before is found along with the whole. -/

namespace LogStream.Filter

/-- What is read with some fuel and stands for something is what the parser finds with it. -/
structure ReadParses (fuel : Nat) : Prop where
  expr : ∀ {i d us e}, Regular i.tokens → readExpr fuel i.tokens = some (d, us) → d.Means e →
    parseExpr fuel i = .ok (e, ⟨us, i.stop⟩)
  chain : ∀ {level i us e} {d : Derivation (.chain level)}, Regular i.tokens →
    readChain fuel level i.tokens = some (d, us) → d.Means e →
    parseChain fuel level i = .ok (e, ⟨us, i.stop⟩)
  links : ∀ {level i us e} {l d : Derivation (.chain level)}, Regular i.tokens →
    readLinks fuel level l i.tokens = some (d, us) → d.Means e →
    ∃ a, l.Means a ∧ parseLinks fuel level a i = .ok (e, ⟨us, i.stop⟩)
  unary : ∀ {i d us e}, Regular i.tokens → readUnary fuel i.tokens = some (d, us) → d.Means e →
    parseUnary fuel i = .ok (e, ⟨us, i.stop⟩)
  steps : ∀ {i us e} {m d : Derivation .member}, Regular i.tokens →
    readSteps fuel m i.tokens = some (d, us) → d.Means e →
    ∃ a, m.Means a ∧ parseSteps fuel a i = .ok (e, ⟨us, i.stop⟩)
  primary : ∀ {i d us e}, Regular i.tokens → readPrimary fuel i.tokens = some (d, us) →
    d.Means e → parsePrimary fuel i = .ok (e, ⟨us, i.stop⟩)
  items : ∀ {close i us es} {d : Derivation (.items close)}, Regular i.tokens →
    readItems fuel close i.tokens = some (d, us) → d.Means es →
    parseItems fuel close i = .ok (es, ⟨us, i.stop⟩)
  entries : ∀ {i us es} {d : Derivation .entries}, Regular i.tokens →
    readEntries fuel i.tokens = some (d, us) → d.Means es →
    parseEntries fuel i = .ok (es, ⟨us, i.stop⟩)

namespace ReadParses

variable {fuel : Nat} {i : Input} {us : List Token} {e : Expr}

theorem expr_succ (ih : ReadParses fuel) {d : Derivation .expr} (hi : Regular i.tokens)
    (h : readExpr (fuel + 1) i.tokens = some (d, us)) (hd : d.Means e) :
    parseExpr (fuel + 1) i = .ok (e, ⟨us, i.stop⟩) := by
  rw [readExpr] at h
  obtain ⟨⟨c, vs⟩, hreadc, h⟩ := Option.bind_eq_some_iff.mp h
  have hvs := hi.behind ((readsTokens fuel).chain hreadc)
  dsimp only at h
  split at h
  · next hnone =>
    cases h
    cases hd with
    | plain hma =>
      have hat := Input.isAt_eq_false (i := ⟨us, i.stop⟩) hnone
      rw [parseExpr, ih.chain hi hreadc hma, ok_bind]
      dsimp only
      rw [hat]
      rfl
  · next m ws hreadm =>
    have hm := Terminal.eq_of_read? hreadm
    have hws := hvs.tail hm
    obtain ⟨⟨y, xs⟩, hready, h⟩ := Option.bind_eq_some_iff.mp h
    have hxs := hws.behind ((readsTokens fuel).chain hready)
    obtain ⟨⟨k, ys⟩, hreadk, h⟩ := Option.bind_eq_some_iff.mp h
    have hys := hxs.tail (Terminal.eq_of_read? hreadk)
    obtain ⟨⟨n, zs⟩, hreadn, h⟩ := Option.bind_eq_some_iff.mp h
    cases h
    cases hd with
    | conditional _ _ hc hy hn =>
      have hat := Input.isAt_eq_true (i := ⟨vs, i.stop⟩) hreadm
      have hcolon := Input.expect_eq_ok (i := ⟨xs, i.stop⟩) hreadk
      have hno := ih.expr (i := ⟨ys, i.stop⟩) hys hreadn hn
      rw [parseExpr, ih.chain hi hreadc hc, ok_bind]
      dsimp only
      rw [hat, if_pos rfl, Input.next_eq (i := ⟨vs, i.stop⟩) hm, Input.pos_eq (i := ⟨vs, i.stop⟩) hm,
        ih.chain (i := ⟨ws, i.stop⟩) hws hready hy, ok_bind]
      dsimp only
      rw [hcolon, ok_bind, hno]
      rfl

theorem chain_succ (ih : ReadParses fuel) {level : Nat} {d : Derivation (.chain level)}
    (hi : Regular i.tokens) (h : readChain (fuel + 1) level i.tokens = some (d, us))
    (hd : d.Means e) : parseChain (fuel + 1) level i = .ok (e, ⟨us, i.stop⟩) := by
  rw [readChain] at h
  rw [parseChain]
  split at h
  · next hlt =>
    obtain ⟨⟨l, vs⟩, hread, h⟩ := Option.bind_eq_some_iff.mp h
    have hvs := hi.behind ((readsTokens fuel).chain hread)
    obtain ⟨a, hma, hlinks⟩ := ih.links (i := ⟨vs, i.stop⟩) hvs h hd
    cases hma with
    | single _ hma =>
      rw [if_pos hlt, ih.chain hi hread hma]
      exact hlinks
  · next hlt =>
    split at h
    · obtain ⟨⟨u, vs⟩, hread, h⟩ := Option.bind_eq_some_iff.mp h
      cases h
      cases hd with
      | operand _ hu =>
        rw [if_neg hlt]
        exact ih.unary hi hread hu
    · cases h

theorem links_succ (ih : ReadParses fuel) {level : Nat} {l d : Derivation (.chain level)}
    (hi : Regular i.tokens) (h : readLinks (fuel + 1) level l i.tokens = some (d, us))
    (hd : d.Means e) :
    ∃ a, l.Means a ∧ parseLinks (fuel + 1) level a i = .ok (e, ⟨us, i.stop⟩) := by
  rw [readLinks] at h
  rcases Operator.read?_cases level i.tokens with ⟨op, vs, hreadop, hop⟩ | ⟨hnone, hlevel⟩
  · have htokens := Operator.eq_of_read? hreadop
    rw [hreadop] at h
    obtain ⟨⟨r, ws⟩, hread, h⟩ := Option.bind_eq_some_iff.mp h
    have hws := (hi.tail htokens).behind ((readsTokens fuel).chain hread)
    obtain ⟨a, hma, hlinks⟩ := ih.links (i := ⟨ws, i.stop⟩) hws h hd
    cases hma with
    | link _ hml hmr =>
      refine ⟨_, hml, ?_⟩
      rw [parseLinks, hop]
      dsimp only
      rw [if_pos op.level_eq, Input.next_eq htokens, Input.pos_eq htokens,
        ih.chain (i := ⟨vs, i.stop⟩) (hi.tail htokens) hread hmr]
      exact hlinks
  · rw [hnone] at h
    cases h
    refine ⟨e, hd, ?_⟩
    rw [parseLinks]
    split
    · rfl
    · next op hop => exact if_neg (hlevel op hop)

theorem unary_succ (ih : ReadParses fuel) {d : Derivation .unary} (hi : Regular i.tokens)
    (h : readUnary (fuel + 1) i.tokens = some (d, us)) (hd : d.Means e) :
    parseUnary (fuel + 1) i = .ok (e, ⟨us, i.stop⟩) := by
  rw [readUnary] at h
  rcases Sign.read?_cases i.tokens with ⟨s, vs, hreads, hs⟩ | ⟨hnone, hno⟩
  · have htokens := Sign.eq_of_read? hreads
    rw [hreads] at h
    obtain ⟨⟨u, ws⟩, hread, h⟩ := Option.bind_eq_some_iff.mp h
    cases h
    cases hd with
    | signed _ hu hsign =>
      rw [parseUnary, hs]
      dsimp only
      rw [Input.next_eq htokens, Input.pos_eq htokens,
        ih.unary (i := ⟨vs, i.stop⟩) (hi.tail htokens) hread hu, ← unaryNode_eq_iff.mpr hsign]
      rfl
  · rw [hnone] at h
    obtain ⟨⟨p, vs⟩, hreadp, h⟩ := Option.bind_eq_some_iff.mp h
    have hvs := hi.behind ((readsTokens fuel).primary hreadp)
    obtain ⟨⟨m, ws⟩, hreadm, h⟩ := Option.bind_eq_some_iff.mp h
    cases h
    cases hd with
    | bare hm =>
      obtain ⟨a, hma, hsteps⟩ := ih.steps (i := ⟨vs, i.stop⟩) hvs hreadm hm
      cases hma with
      | primary hma =>
        rw [parseUnary, hno]
        dsimp only
        rw [ih.primary hi hreadp hma]
        exact hsteps

/-- A field, or a call of a method, and what comes behind it. -/
theorem point_parses (ih : ReadParses fuel) {m d : Derivation .member} {p : Terminal "."}
    {vs : List Token} {stop : Nat} (hvs : Regular vs)
    (h : (do
      let (n, us) ← Word.read? vs
      match Terminal.read? "(" us with
      | some (b, us) => do
        let (as, us) ← readItems fuel ")" us
        readSteps fuel (.method m p n b as) us
      | none => readSteps fuel (.select m p n) us) = some (d, us)) (hd : d.Means e) :
    ∃ a, m.Means a ∧ (do
      let (name, j) ← Input.name ⟨vs, stop⟩
      if j.isAt "(" then do
        let (args, k) ← parseItems fuel ")" j.next
        let node ← methodNode p.token.pos a name args
        parseSteps fuel node k
      else parseSteps fuel (.select p.token.pos a name false) j) = .ok (e, ⟨us, stop⟩) := by
  obtain ⟨⟨n, ws⟩, hreadn, h⟩ := Option.bind_eq_some_iff.mp h
  have hname := Input.name_eq_ok (i := ⟨vs, stop⟩) hreadn
  have hws := hvs.tail (Word.eq_of_read? hreadn)
  dsimp only at h
  split at h
  · next b xs hreadb =>
    have hb := Terminal.eq_of_read? hreadb
    obtain ⟨⟨as, ys⟩, hreadas, h⟩ := Option.bind_eq_some_iff.mp h
    have hys := (hws.tail hb).behind ((readsTokens fuel).items hreadas)
    obtain ⟨a, hma, hsteps⟩ := ih.steps (i := ⟨ys, stop⟩) hys h hd
    cases hma with
    | method _ _ _ hmm has hmeans =>
      have hat := Input.isAt_eq_true (i := ⟨ws, stop⟩) hreadb
      have hitems := ih.items (i := ⟨xs, stop⟩) (hws.tail hb) hreadas has
      refine ⟨_, hmm, ?_⟩
      rw [hname, ok_bind]
      dsimp only
      rw [hat, if_pos rfl, Input.next_eq (i := ⟨ws, stop⟩) hb, hitems, ok_bind]
      dsimp only
      rw [methodNode_eq_ok_iff.mpr hmeans]
      exact hsteps
  · next hnone =>
    obtain ⟨a, hma, hsteps⟩ := ih.steps (i := ⟨ws, stop⟩) hws h hd
    cases hma with
    | select _ _ hmm =>
      have hat := Input.isAt_eq_false (i := ⟨ws, stop⟩) hnone
      refine ⟨_, hmm, ?_⟩
      rw [hname, ok_bind]
      dsimp only
      rw [hat, if_neg Bool.false_ne_true]
      exact hsteps

/-- A field that may be missing, and what comes behind it. -/
theorem lenient_parses (ih : ReadParses fuel) {m d : Derivation .member} {p : Terminal ".?"}
    {vs : List Token} {stop : Nat} (hvs : Regular vs)
    (h : (do
      let (n, us) ← Word.read? vs
      readSteps fuel (.lenientSelect m p n) us) = some (d, us)) (hd : d.Means e) :
    ∃ a, m.Means a ∧ (do
      let (name, j) ← Input.name ⟨vs, stop⟩
      parseSteps fuel (.select p.token.pos a name true) j) = .ok (e, ⟨us, stop⟩) := by
  obtain ⟨⟨n, ws⟩, hreadn, h⟩ := Option.bind_eq_some_iff.mp h
  have hname := Input.name_eq_ok (i := ⟨vs, stop⟩) hreadn
  have hws := hvs.tail (Word.eq_of_read? hreadn)
  obtain ⟨a, hma, hsteps⟩ := ih.steps (i := ⟨ws, stop⟩) hws h hd
  cases hma with
  | lenientSelect _ _ hmm =>
    refine ⟨_, hmm, ?_⟩
    rw [hname]
    exact hsteps

/-- A key in brackets, plain or lenient, and what comes behind it. -/
theorem key_parses (ih : ReadParses fuel) {m d : Derivation .member} {vs : List Token}
    {pos stop : Nat} {lenient : Bool} (make : Derivation .expr → Terminal "]" → Derivation .member)
    (hvs : Regular vs)
    (hmake : ∀ {k c a}, (make k c).Means a →
      ∃ b x, m.Means b ∧ k.Means x ∧ a = .index pos b x lenient)
    (h : (do
      let (k, us) ← readExpr fuel vs
      let (c, us) ← Terminal.read? "]" us
      readSteps fuel (make k c) us) = some (d, us)) (hd : d.Means e) :
    ∃ a, m.Means a ∧ (do
      let (key, j) ← parseExpr fuel ⟨vs, stop⟩
      let j ← j.expect "]"
      parseSteps fuel (.index pos a key lenient) j) = .ok (e, ⟨us, stop⟩) := by
  obtain ⟨⟨k, ws⟩, hreadk, h⟩ := Option.bind_eq_some_iff.mp h
  have hws := hvs.behind ((readsTokens fuel).expr hreadk)
  obtain ⟨⟨c, xs⟩, hreadc, h⟩ := Option.bind_eq_some_iff.mp h
  have hclose := Input.expect_eq_ok (i := ⟨ws, stop⟩) hreadc
  obtain ⟨a, hma, hsteps⟩ :=
    ih.steps (i := ⟨xs, stop⟩) (hws.tail (Terminal.eq_of_read? hreadc)) h hd
  obtain ⟨b, x, hmm, hmk, rfl⟩ := hmake hma
  refine ⟨b, hmm, ?_⟩
  rw [ih.expr (i := ⟨vs, stop⟩) hvs hreadk hmk, ok_bind]
  dsimp only
  rw [hclose]
  exact hsteps

theorem steps_succ (ih : ReadParses fuel) {m d : Derivation .member} (hi : Regular i.tokens)
    (h : readSteps (fuel + 1) m i.tokens = some (d, us)) (hd : d.Means e) :
    ∃ a, m.Means a ∧ parseSteps (fuel + 1) a i = .ok (e, ⟨us, i.stop⟩) := by
  rw [readSteps] at h
  split at h
  · next p vs hpoint =>
    obtain ⟨a, hma, hsteps⟩ := ih.point_parses (hi.tail (Terminal.eq_of_read? hpoint)) h hd
    exact ⟨a, hma, (parseSteps_point hpoint).trans hsteps⟩
  next hpoint =>
  split at h
  · next p vs hlenient =>
    obtain ⟨a, hma, hsteps⟩ := ih.lenient_parses (hi.tail (Terminal.eq_of_read? hlenient)) h hd
    exact ⟨a, hma, (parseSteps_lenient hlenient).trans hsteps⟩
  next hlenient =>
  split at h
  · next b vs hsquare =>
    have hmake : ∀ {k c a}, (Derivation.index m b k c).Means a →
        ∃ o x, m.Means o ∧ k.Means x ∧ a = .index b.token.pos o x false := by
      intro k c a hma
      cases hma with
      | index _ _ hmm hmk => exact ⟨_, _, hmm, hmk, rfl⟩
    obtain ⟨a, hma, hsteps⟩ :=
      ih.key_parses (.index m b) (hi.tail (Terminal.eq_of_read? hsquare)) hmake h hd
    exact ⟨a, hma, (parseSteps_bracket (.inl rfl) hsquare).trans hsteps⟩
  next hsquare =>
  split at h
  · next b vs hmarked =>
    have hmake : ∀ {k c a}, (Derivation.lenientIndex m b k c).Means a →
        ∃ o x, m.Means o ∧ k.Means x ∧ a = .index b.token.pos o x true := by
      intro k c a hma
      cases hma with
      | lenientIndex _ _ hmm hmk => exact ⟨_, _, hmm, hmk, rfl⟩
    obtain ⟨a, hma, hsteps⟩ :=
      ih.key_parses (.lenientIndex m b) (hi.tail (Terminal.eq_of_read? hmarked)) hmake h hd
    exact ⟨a, hma, (parseSteps_bracket (.inr rfl) hmarked).trans hsteps⟩
  next hmarked =>
  have hno : ∀ s ∈ [".", ".?", "[", "[?"], Terminal.read? s i.tokens = none := by
    simpa using ⟨hpoint, hlenient, hsquare, hmarked⟩
  cases h
  exact ⟨e, hd, parseSteps_stop hno⟩

/-- A literal that denotes a constant is found. -/
theorem literal_parses {t : Token} {ts : List Token} {c : Constant} (hts : i.tokens = t :: ts)
    (ht : t.IsRegular) (hl : t.kind = .int ∨ t.kind = .float ∨ t.kind = .string)
    (hc : t.Denotes c) :
    parsePrimary (fuel + 1) i = .ok (.literal t.pos c, ⟨ts, i.stop⟩) := by
  rw [parsePrimary.eq_def]
  dsimp only
  rw [hts]
  dsimp only
  rw [Input.next_eq hts]
  rcases hl with hk | hk | hk
  · rw [hk]
    dsimp only
    rw [(readInteger_eq_ok_iff hk ht.isReadable (ht.isInteger hk)).mpr hc]
    rfl
  · rw [hk]
    dsimp only
    cases hc with
    | float => rfl
    | int hk' => cases hk.symm.trans hk'
    | uint hk' => cases hk.symm.trans hk'
    | string hk' => cases hk.symm.trans hk'
    | bytes hk' => cases hk.symm.trans hk'
  · rw [hk]
    dsimp only
    rw [(readString_eq_ok_iff hk).mpr hc]
    rfl

/-- A word, or the name of a call, that stands for something is found. -/
theorem name_parses (ih : ReadParses fuel) {t : Token} {ts : List Token} {stop : Nat}
    {d : Derivation .primary} (hts : Regular ts) (hname : t.IsName)
    (h : readPrimary (fuel + 1) (t :: ts) = some (d, us)) (hd : d.Means e) :
    parsePrimary (fuel + 1) ⟨t :: ts, stop⟩ = .ok (e, ⟨us, stop⟩) := by
  have hliteral := Word.not_literal ⟨t, hname⟩
  rw [readPrimary, dif_neg hliteral, dif_pos hname] at h
  rw [parsePrimary.eq_def]
  dsimp only
  rw [hname.1]
  dsimp only
  rw [Input.next_eq (t := t) rfl]
  split at h
  · next b vs hreadb =>
    have hb := Terminal.eq_of_read? hreadb
    have hat := Input.isAt_eq_true (i := ⟨ts, stop⟩) hreadb
    split at h
    · next hcall =>
      obtain ⟨⟨as, ws⟩, hreadas, h⟩ := Option.bind_eq_some_iff.mp h
      cases h
      cases hd with
      | call _ _ has hmeans =>
        have hitems := ih.items (i := ⟨vs, stop⟩) (hts.tail hb) hreadas has
        rw [if_neg hcall.1, hat, hcall.2, Bool.true_and, if_pos (by decide),
          Input.next_eq (i := ⟨ts, stop⟩) hb, hitems, ok_bind]
        dsimp only
        rw [callNode_eq_ok_iff.mpr hmeans]
        rfl
    next hcall =>
    split at h
    · next hin =>
      cases h
      cases hd with
      | word _ hmeans =>
        have hconstant : isConstantName t.text = true :=
          Decidable.byContradiction fun hc => hcall ⟨hin, Bool.eq_false_iff.mpr hc⟩
        rw [if_neg hin, hconstant, Bool.not_true, Bool.and_false, if_neg Bool.false_ne_true,
          wordNode_eq_iff.mpr hmeans]
    · cases h
  · next hnone =>
    have hat := Input.isAt_eq_false (i := ⟨ts, stop⟩) hnone
    split at h
    · next hin =>
      cases h
      cases hd with
      | word _ hmeans =>
        rw [if_neg hin, hat, Bool.false_and, if_neg Bool.false_ne_true, wordNode_eq_iff.mpr hmeans]
    · cases h

/-- What stands in brackets and stands for something is found. -/
theorem bracket_parses (ih : ReadParses fuel) {t : Token} {ts : List Token} {stop : Nat}
    {d : Derivation .primary} (hts : Regular ts) (hk : t.kind = .op)
    (h : readPrimary (fuel + 1) (t :: ts) = some (d, us)) (hd : d.Means e) :
    parsePrimary (fuel + 1) ⟨t :: ts, stop⟩ = .ok (e, ⟨us, stop⟩) := by
  have hliteral : ¬ (t.kind = .int ∨ t.kind = .float ∨ t.kind = .string) := by rw [hk]; decide
  have hname : ¬ t.IsName := fun hn => by cases hk.symm.trans hn.1
  rw [readPrimary, dif_neg hliteral, dif_neg hname] at h
  rw [parsePrimary.eq_def]
  dsimp only
  rw [hk]
  dsimp only
  rw [Input.next_eq (t := t) rfl]
  split at h
  · next b vs hreadb =>
    cases Terminal.eq_of_read? hreadb
    obtain ⟨⟨inner, ws⟩, hread, h⟩ := Option.bind_eq_some_iff.mp h
    obtain ⟨⟨c, xs⟩, hreadc, h⟩ := Option.bind_eq_some_iff.mp h
    cases h
    cases hd with
    | parens _ _ he =>
      have hat := Input.isAt_eq_true (i := ⟨b.token :: ts, stop⟩) hreadb
      have hinner := ih.expr (i := ⟨ts, stop⟩) hts hread he
      have hclose := Input.expect_eq_ok (i := ⟨ws, stop⟩) hreadc
      rw [hat, if_pos rfl, hinner, ok_bind]
      dsimp only
      rw [hclose]
      rfl
  next hround =>
  rw [Input.isAt_eq_false (i := ⟨t :: ts, stop⟩) hround, if_neg Bool.false_ne_true]
  split at h
  · next b vs hreadb =>
    cases Terminal.eq_of_read? hreadb
    obtain ⟨⟨es, ws⟩, hread, h⟩ := Option.bind_eq_some_iff.mp h
    cases h
    cases hd with
    | list _ hes =>
      have hat := Input.isAt_eq_true (i := ⟨b.token :: ts, stop⟩) hreadb
      rw [hat, if_pos rfl, ih.items (i := ⟨ts, stop⟩) hts hread hes]
      rfl
  next hsquare =>
  rw [Input.isAt_eq_false (i := ⟨t :: ts, stop⟩) hsquare, if_neg Bool.false_ne_true]
  split at h
  · next b vs hreadb =>
    cases Terminal.eq_of_read? hreadb
    obtain ⟨⟨es, ws⟩, hread, h⟩ := Option.bind_eq_some_iff.mp h
    cases h
    cases hd with
    | map _ hes =>
      have hat := Input.isAt_eq_true (i := ⟨b.token :: ts, stop⟩) hreadb
      rw [hat, if_pos rfl, ih.entries (i := ⟨ts, stop⟩) hts hread hes]
      rfl
  · cases h

theorem primary_succ (ih : ReadParses fuel) {d : Derivation .primary} (hi : Regular i.tokens)
    (h : readPrimary (fuel + 1) i.tokens = some (d, us)) (hd : d.Means e) :
    parsePrimary (fuel + 1) i = .ok (e, ⟨us, i.stop⟩) := by
  obtain ⟨ts, stop⟩ := i
  cases ts with
  | nil => cases h
  | cons t ts =>
    have ht := hi t List.mem_cons_self
    have hts : Regular ts := hi.tail rfl
    by_cases hliteral : t.kind = .int ∨ t.kind = .float ∨ t.kind = .string
    · dsimp only at h
      rw [readPrimary, dif_pos hliteral] at h
      cases h
      cases hd with
      | literal _ hc => exact literal_parses rfl ht hliteral hc
    · by_cases hname : t.IsName
      · exact ih.name_parses hts hname h hd
      · exact ih.bracket_parses hts (ht.kind_eq_op hliteral hname) h hd

theorem items_succ (ih : ReadParses fuel) {close : String} {d : Derivation (.items close)}
    {es : List Expr} (hi : Regular i.tokens)
    (h : readItems (fuel + 1) close i.tokens = some (d, us)) (hd : d.Means es) :
    parseItems (fuel + 1) close i = .ok (es, ⟨us, i.stop⟩) := by
  rw [readItems] at h
  rw [parseItems]
  split at h
  · next b vs hreadb =>
    cases h
    cases hd with
    | closeItems =>
      rw [Input.isAt_eq_true hreadb, if_pos rfl, Input.next_eq (Terminal.eq_of_read? hreadb)]
  next hnone =>
  rw [Input.isAt_eq_false hnone, if_neg Bool.false_ne_true]
  obtain ⟨⟨item, vs⟩, hread, h⟩ := Option.bind_eq_some_iff.mp h
  have hvs := hi.behind ((readsTokens fuel).expr hread)
  dsimp only at h
  split at h
  · next b ws hreadb =>
    cases h
    cases hd with
    | lastItem _ he =>
      have hat := Input.isAt_eq_true (i := ⟨vs, i.stop⟩) hreadb
      rw [ih.expr hi hread he, ok_bind]
      dsimp only
      rw [hat, if_pos rfl, Input.next_eq (i := ⟨vs, i.stop⟩) (Terminal.eq_of_read? hreadb)]
      rfl
  · next hopen =>
    obtain ⟨⟨c, ws⟩, hreadc, h⟩ := Option.bind_eq_some_iff.mp h
    have hws := hvs.tail (Terminal.eq_of_read? hreadc)
    obtain ⟨⟨r, xs⟩, hreadr, h⟩ := Option.bind_eq_some_iff.mp h
    cases h
    cases hd with
    | moreItems _ he hr =>
      have hat := Input.isAt_eq_false (i := ⟨vs, i.stop⟩) hopen
      have hcomma := Input.expect_eq_ok (i := ⟨vs, i.stop⟩) hreadc
      have hrest := ih.items (i := ⟨ws, i.stop⟩) hws hreadr hr
      rw [ih.expr hi hread he, ok_bind]
      dsimp only
      rw [hat, if_neg Bool.false_ne_true, hcomma, ok_bind, hrest]
      rfl

theorem entries_succ (ih : ReadParses fuel) {d : Derivation .entries} {es : List (Expr × Expr)}
    (hi : Regular i.tokens) (h : readEntries (fuel + 1) i.tokens = some (d, us)) (hd : d.Means es) :
    parseEntries (fuel + 1) i = .ok (es, ⟨us, i.stop⟩) := by
  rw [readEntries] at h
  rw [parseEntries]
  split at h
  · next b vs hreadb =>
    cases h
    cases hd with
    | closeEntries =>
      rw [Input.isAt_eq_true hreadb, if_pos rfl, Input.next_eq (Terminal.eq_of_read? hreadb)]
  next hnone =>
  rw [Input.isAt_eq_false hnone, if_neg Bool.false_ne_true]
  obtain ⟨⟨k, vs⟩, hreadk, h⟩ := Option.bind_eq_some_iff.mp h
  have hvs := hi.behind ((readsTokens fuel).expr hreadk)
  obtain ⟨⟨c, ws⟩, hreadc, h⟩ := Option.bind_eq_some_iff.mp h
  have hws := hvs.tail (Terminal.eq_of_read? hreadc)
  obtain ⟨⟨v, xs⟩, hreadv, h⟩ := Option.bind_eq_some_iff.mp h
  have hxs := hws.behind ((readsTokens fuel).expr hreadv)
  have hcolon := Input.expect_eq_ok (i := ⟨vs, i.stop⟩) hreadc
  dsimp only at h
  split at h
  · next b ys hreadb =>
    cases h
    cases hd with
    | lastEntry _ _ hk hv =>
      have hcontent := ih.expr (i := ⟨ws, i.stop⟩) hws hreadv hv
      have hat := Input.isAt_eq_true (i := ⟨xs, i.stop⟩) hreadb
      rw [ih.expr hi hreadk hk, ok_bind]
      dsimp only
      rw [hcolon, ok_bind, hcontent, ok_bind]
      dsimp only
      rw [hat, if_pos rfl, Input.next_eq (i := ⟨xs, i.stop⟩) (Terminal.eq_of_read? hreadb)]
      rfl
  · next hopen =>
    obtain ⟨⟨m, ys⟩, hreadm, h⟩ := Option.bind_eq_some_iff.mp h
    have hys := hxs.tail (Terminal.eq_of_read? hreadm)
    obtain ⟨⟨r, zs⟩, hreadr, h⟩ := Option.bind_eq_some_iff.mp h
    cases h
    cases hd with
    | moreEntries _ _ hk hv hr =>
      have hcontent := ih.expr (i := ⟨ws, i.stop⟩) hws hreadv hv
      have hat := Input.isAt_eq_false (i := ⟨xs, i.stop⟩) hopen
      have hcomma := Input.expect_eq_ok (i := ⟨xs, i.stop⟩) hreadm
      have hrest := ih.entries (i := ⟨ys, i.stop⟩) hys hreadr hr
      rw [ih.expr hi hreadk hk, ok_bind]
      dsimp only
      rw [hcolon, ok_bind, hcontent, ok_bind]
      dsimp only
      rw [hat, if_neg Bool.false_ne_true, hcomma, ok_bind, hrest]
      rfl

end ReadParses

/-- **What is read is parsed.** -/
theorem readParses (fuel : Nat) : ReadParses fuel := by
  induction fuel with
  | zero => constructor <;> intros <;> contradiction
  | succ fuel ih =>
    exact ⟨ih.expr_succ, ih.chain_succ, ih.links_succ, ih.unary_succ, ih.steps_succ,
      ih.primary_succ, ih.items_succ, ih.entries_succ⟩

end LogStream.Filter
