import LogStream.Proofs.Filter.Faults.Programs
import LogStream.Proofs.Filter.Nodes
import LogStream.Proofs.Filter.Tokens
import LogStream.Proofs.Filter.Valueless

/-! # What comes of parsing

From tokens of a text the parser finds a tree whose offsets lie in the text, or an error at such an
offset, or one of the tokens is a literal without value (`located_parse`). This is by induction on the
fuel: a function of the parser keeps to it if those that it calls do (`parsesWithin`). -/

namespace LogStream.Filter

/-! ### Offsets -/

/-- The offsets of an expression are at most the given one. -/
def Expr.EndsBy (stop : Nat) (e : Expr) : Prop := ∀ m ∈ e.nodes, m.pos ≤ stop

def Expr.AllEndBy (stop : Nat) (es : List Expr) : Prop := ∀ m ∈ Expr.nodesAll es, m.pos ≤ stop

def Expr.EntriesEndBy (stop : Nat) (es : List (Expr × Expr)) : Prop :=
  ∀ m ∈ Expr.nodesEntries es, m.pos ≤ stop

theorem Expr.allEndBy_cons {stop : Nat} {e : Expr} {es : List Expr} :
    Expr.AllEndBy stop (e :: es) ↔ e.EndsBy stop ∧ Expr.AllEndBy stop es :=
  List.forall_mem_append

theorem Expr.entriesEndBy_cons {stop : Nat} {key content : Expr} {es : List (Expr × Expr)} :
    Expr.EntriesEndBy stop ((key, content) :: es) ↔
      key.EndsBy stop ∧ content.EndsBy stop ∧ Expr.EntriesEndBy stop es := by
  unfold Expr.EntriesEndBy
  rw [Expr.nodesEntries, List.forall_mem_append, List.forall_mem_append]
  rfl

/-- The token is one of a text of the given length. -/
structure Token.IsPlaced (stop : Nat) (t : Token) : Prop where
  pos_le : t.pos ≤ stop
  isInteger : t.kind = .int → IsInteger t.text

/-- What is left to parse are some of the tokens. -/
def Input.Within (ts : List Token) (stop : Nat) (i : Input) : Prop :=
  i.tokens ⊆ ts ∧ i.stop = stop

/-! ### Outcomes -/

/-- What comes of tokens of a text: something that is as it should be, an error at an offset of the text,
or the fault of a literal without value. -/
def Located {α : Type} (ts : List Token) (stop : Nat) (P : α → Prop) : Except CompileError α → Prop
  | .ok a => P a
  | .error (.at pos _) => pos ≤ stop
  | .error (.badOutput _) => False
  | .error (.fault f) => ∃ t ∈ ts, t.IsValueless f

section

variable {α β : Type} {ts : List Token} {stop : Nat} {i : Input}

theorem Located.bind {P : α → Prop} {Q : β → Prop} {x : Except CompileError α}
    {g : α → Except CompileError β} (hx : Located ts stop P x)
    (hg : ∀ a, P a → Located ts stop Q (g a)) : Located ts stop Q (x >>= g) := by
  cases x with
  | ok a => exact hg a hx
  | error e => cases e <;> exact hx

theorem Located.of_outcome {t : Token} {r : Except CompileError Constant} (hs : t.pos ≤ stop)
    (ht : t ∈ ts) (h : t.Outcome r) : Located ts stop (fun _ => True) r := by
  cases h with
  | value c => trivial
  | refused cause => exact hs
  | fault h => exact ⟨t, ht, h⟩

theorem Input.Within.next (hi : i.Within ts stop) : i.next.Within ts stop :=
  ⟨fun _ ht => hi.1 (List.mem_of_mem_tail ht), hi.2⟩

variable (hts : ∀ t ∈ ts, t.IsPlaced stop)

include hts

theorem Input.Within.pos_le (hi : i.Within ts stop) : i.pos ≤ stop := by
  obtain ⟨tokens, s⟩ := i
  obtain ⟨hsub, rfl⟩ := hi
  cases tokens with
  | nil => exact Nat.le_refl _
  | cons t us => exact (hts t (hsub List.mem_cons_self)).pos_le

theorem located_fail {P : α → Prop} (hi : i.Within ts stop) (cause : CompileCause) :
    Located ts stop P (i.fail cause) := hi.pos_le hts

theorem located_expect (hi : i.Within ts stop) (s : String) :
    Located ts stop (Input.Within ts stop) (i.expect s) := by
  unfold Input.expect
  split
  · exact hi.next
  · exact located_fail hts hi _

theorem located_name (hi : i.Within ts stop) :
    Located ts stop (fun r => r.2.Within ts stop) i.name := by
  unfold Input.name
  split
  · next t us h =>
    split
    · exact ⟨fun k hk => hi.1 (h ▸ List.mem_cons_of_mem t hk), hi.2⟩
    · exact located_fail hts hi _
  · exact located_fail hts hi _

end

/-! ### Nodes -/

section Nodes

variable {ts : List Token} {stop pos : Nat}

theorem endsBy_unaryNode {op : UnaryOp} {e : Expr} (hp : pos ≤ stop) (he : e.EndsBy stop) :
    (unaryNode pos op e).EndsBy stop := by
  have hnegated {l : Expr} (h : negated? pos e = some l) : l.EndsBy stop := by
    unfold negated? at h
    split at h
    · split at h
      · split at h
        all_goals cases h
        all_goals exact List.forall_mem_singleton.mpr hp
      · cases h
    · cases h
  unfold unaryNode
  split
  · next hl => exact hnegated hl
  · exact List.forall_mem_cons.mpr ⟨hp, he⟩

theorem endsBy_wordNode (hp : pos ≤ stop) (name : Text) : (wordNode pos name).EndsBy stop := by
  unfold wordNode
  split_ifs <;> exact List.forall_mem_singleton.mpr hp

theorem located_callNode {args : List Expr} (hp : pos ≤ stop) (hargs : Expr.AllEndBy stop args)
    (name : Text) : Located ts stop (Expr.EndsBy stop) (callNode pos name args) := by
  unfold callNode
  split
  · split
    · have hselect := (Expr.allEndBy_cons.mp hargs).1
      exact List.forall_mem_cons.mpr ⟨hp, (List.forall_mem_cons.mp hselect).2⟩
    · exact hp
  · exact List.forall_mem_cons.mpr ⟨hp, hargs⟩

theorem located_walkNode {receiver : Expr} {args : List Expr} (hp : pos ≤ stop)
    (hr : receiver.EndsBy stop) (hargs : Expr.AllEndBy stop args) (name : Text) :
    Located ts stop (Expr.EndsBy stop) (walkNode pos receiver name args) := by
  unfold walkNode
  split
  · split
    · obtain ⟨-, hargs⟩ := Expr.allEndBy_cons.mp hargs
      obtain ⟨hbody, -⟩ := Expr.allEndBy_cons.mp hargs
      exact List.forall_mem_cons.mpr ⟨hp, List.forall_mem_append.mpr ⟨hr, hbody⟩⟩
    · exact hp
  · exact List.forall_mem_cons.mpr ⟨hp, List.forall_mem_append.mpr ⟨hr, hargs⟩⟩

theorem located_methodNode {receiver : Expr} {args : List Expr} (hp : pos ≤ stop)
    (hr : receiver.EndsBy stop) (hargs : Expr.AllEndBy stop args) (name : Text) :
    Located ts stop (Expr.EndsBy stop) (methodNode pos receiver name args) := by
  by_cases hident : ∃ p n, receiver = .ident p n
  · obtain ⟨p, n, rfl⟩ := hident
    rw [methodNode_ident]
    split_ifs
    · split
      · obtain ⟨-, hargs⟩ := Expr.allEndBy_cons.mp hargs
        obtain ⟨hinit, hargs⟩ := Expr.allEndBy_cons.mp hargs
        obtain ⟨hbody, -⟩ := Expr.allEndBy_cons.mp hargs
        exact List.forall_mem_cons.mpr ⟨hp, List.forall_mem_append.mpr ⟨hinit, hbody⟩⟩
      · exact hp
    · exact List.forall_mem_cons.mpr ⟨hp, hargs⟩
    · exact located_walkNode hp hr hargs name
  · rw [methodNode_of_ne fun p n h => hident ⟨p, n, h⟩]
    exact located_walkNode hp hr hargs name

end Nodes

/-! ### The grammar -/

/-- What each function of the parser makes of tokens, with some fuel. -/
structure ParsesWithin (ts : List Token) (stop fuel : Nat) : Prop where
  expr : ∀ {i}, i.Within ts stop →
    Located ts stop (fun r => r.1.EndsBy stop ∧ r.2.Within ts stop) (parseExpr fuel i)
  chain : ∀ {level i}, i.Within ts stop →
    Located ts stop (fun r => r.1.EndsBy stop ∧ r.2.Within ts stop) (parseChain fuel level i)
  links : ∀ {level a i}, a.EndsBy stop → i.Within ts stop →
    Located ts stop (fun r => r.1.EndsBy stop ∧ r.2.Within ts stop) (parseLinks fuel level a i)
  unary : ∀ {i}, i.Within ts stop →
    Located ts stop (fun r => r.1.EndsBy stop ∧ r.2.Within ts stop) (parseUnary fuel i)
  steps : ∀ {a i}, a.EndsBy stop → i.Within ts stop →
    Located ts stop (fun r => r.1.EndsBy stop ∧ r.2.Within ts stop) (parseSteps fuel a i)
  primary : ∀ {i}, i.Within ts stop →
    Located ts stop (fun r => r.1.EndsBy stop ∧ r.2.Within ts stop) (parsePrimary fuel i)
  items : ∀ {close i}, i.Within ts stop →
    Located ts stop (fun r => Expr.AllEndBy stop r.1 ∧ r.2.Within ts stop)
      (parseItems fuel close i)
  entries : ∀ {i}, i.Within ts stop →
    Located ts stop (fun r => Expr.EntriesEndBy stop r.1 ∧ r.2.Within ts stop)
      (parseEntries fuel i)

namespace ParsesWithin

variable {ts : List Token} {stop fuel : Nat} {i : Input} {a : Expr}

theorem expr_succ (hts : ∀ t ∈ ts, t.IsPlaced stop) (ih : ParsesWithin ts stop fuel)
    (hi : i.Within ts stop) :
    Located ts stop (fun r => r.1.EndsBy stop ∧ r.2.Within ts stop) (parseExpr (fuel + 1) i) := by
  rw [parseExpr]
  refine (ih.chain hi).bind fun ⟨c, j⟩ ⟨hc, hj⟩ => ?_
  dsimp only
  split
  · refine (ih.chain hj.next).bind fun ⟨y, k⟩ ⟨hy, hk⟩ => ?_
    refine (located_expect hts hk _).bind fun k hk => ?_
    refine (ih.expr hk).bind fun ⟨n, k⟩ ⟨hn, hk⟩ => ⟨?_, hk⟩
    exact List.forall_mem_cons.mpr ⟨hj.pos_le hts,
      List.forall_mem_append.mpr ⟨hc, List.forall_mem_append.mpr ⟨hy, hn⟩⟩⟩
  · exact ⟨hc, hj⟩

theorem chain_succ (ih : ParsesWithin ts stop fuel) {level : Nat} (hi : i.Within ts stop) :
    Located ts stop (fun r => r.1.EndsBy stop ∧ r.2.Within ts stop)
      (parseChain (fuel + 1) level i) := by
  rw [parseChain]
  split
  · exact (ih.chain hi).bind fun ⟨a, j⟩ ⟨ha, hj⟩ => ih.links ha hj
  · exact ih.unary hi

theorem links_succ (hts : ∀ t ∈ ts, t.IsPlaced stop) (ih : ParsesWithin ts stop fuel) {level : Nat}
    (ha : a.EndsBy stop) (hi : i.Within ts stop) :
    Located ts stop (fun r => r.1.EndsBy stop ∧ r.2.Within ts stop)
      (parseLinks (fuel + 1) level a i) := by
  rw [parseLinks]
  split
  · exact ⟨ha, hi⟩
  · split
    · refine (ih.chain hi.next).bind fun ⟨b, j⟩ ⟨hb, hj⟩ => ih.links ?_ hj
      exact List.forall_mem_cons.mpr ⟨hi.pos_le hts, List.forall_mem_append.mpr ⟨ha, hb⟩⟩
    · exact ⟨ha, hi⟩

theorem unary_succ (hts : ∀ t ∈ ts, t.IsPlaced stop) (ih : ParsesWithin ts stop fuel)
    (hi : i.Within ts stop) :
    Located ts stop (fun r => r.1.EndsBy stop ∧ r.2.Within ts stop) (parseUnary (fuel + 1) i) := by
  rw [parseUnary]
  split
  · exact (ih.unary hi.next).bind fun ⟨b, j⟩ ⟨hb, hj⟩ =>
      ⟨endsBy_unaryNode (hi.pos_le hts) hb, hj⟩
  · exact (ih.primary hi).bind fun ⟨b, j⟩ ⟨hb, hj⟩ => ih.steps hb hj

theorem steps_succ (hts : ∀ t ∈ ts, t.IsPlaced stop) (ih : ParsesWithin ts stop fuel)
    (ha : a.EndsBy stop) (hi : i.Within ts stop) :
    Located ts stop (fun r => r.1.EndsBy stop ∧ r.2.Within ts stop)
      (parseSteps (fuel + 1) a i) := by
  have hp := hi.pos_le hts
  rw [parseSteps]
  split
  · refine (located_name hts hi.next).bind fun ⟨name, j⟩ hj => ?_
    dsimp only
    split
    · refine (ih.items hj.next).bind fun ⟨args, k⟩ ⟨hargs, hk⟩ => ?_
      exact (located_methodNode hp ha hargs name).bind fun node hnode => ih.steps hnode hk
    · exact ih.steps (List.forall_mem_cons.mpr ⟨hp, ha⟩) hj
  split
  · refine (located_name hts hi.next).bind fun ⟨name, j⟩ hj => ?_
    exact ih.steps (List.forall_mem_cons.mpr ⟨hp, ha⟩) hj
  split
  · refine (ih.expr hi.next).bind fun ⟨key, j⟩ ⟨hkey, hj⟩ => ?_
    refine (located_expect hts hj _).bind fun k hk => ih.steps ?_ hk
    exact List.forall_mem_cons.mpr ⟨hp, List.forall_mem_append.mpr ⟨ha, hkey⟩⟩
  · exact ⟨ha, hi⟩

theorem primary_succ (hts : ∀ t ∈ ts, t.IsPlaced stop) (ih : ParsesWithin ts stop fuel)
    (hi : i.Within ts stop) :
    Located ts stop (fun r => r.1.EndsBy stop ∧ r.2.Within ts stop)
      (parsePrimary (fuel + 1) i) := by
  rw [parsePrimary]
  split
  · exact located_fail hts hi _
  · next t us hus =>
    have ht : t ∈ ts := hi.1 (hus ▸ List.mem_cons_self)
    have hp := (hts t ht).pos_le
    have hleaf (c : Constant) : (Expr.literal t.pos c).EndsBy stop :=
      List.forall_mem_singleton.mpr hp
    split
    · next hk =>
      refine (Located.of_outcome hp ht (outcome_readInteger hk ((hts t ht).isInteger hk))).bind ?_
      exact fun c _ => ⟨hleaf c, hi.next⟩
    · exact ⟨hleaf _, hi.next⟩
    · next hk =>
      refine (Located.of_outcome hp ht (outcome_readString hk)).bind ?_
      exact fun c _ => ⟨hleaf c, hi.next⟩
    · split_ifs
      · exact located_fail hts hi _
      · refine (ih.items hi.next.next).bind fun ⟨args, j⟩ ⟨hargs, hj⟩ => ?_
        exact (located_callNode hp hargs t.text).bind fun node hnode => ⟨hnode, hj⟩
      · exact ⟨endsBy_wordNode hp _, hi.next⟩
    · split_ifs
      · refine (ih.expr hi.next).bind fun ⟨inner, j⟩ ⟨hinner, hj⟩ => ?_
        exact (located_expect hts hj _).bind fun k hk => ⟨hinner, hk⟩
      · refine (ih.items hi.next).bind fun ⟨elements, j⟩ ⟨helements, hj⟩ => ⟨?_, hj⟩
        exact List.forall_mem_cons.mpr ⟨hp, helements⟩
      · refine (ih.entries hi.next).bind fun ⟨entries, j⟩ ⟨hentries, hj⟩ => ⟨?_, hj⟩
        exact List.forall_mem_cons.mpr ⟨hp, hentries⟩
      · exact located_fail hts hi _

theorem items_succ (hts : ∀ t ∈ ts, t.IsPlaced stop) (ih : ParsesWithin ts stop fuel)
    {close : String} (hi : i.Within ts stop) :
    Located ts stop (fun r => Expr.AllEndBy stop r.1 ∧ r.2.Within ts stop)
      (parseItems (fuel + 1) close i) := by
  rw [parseItems]
  split
  · exact ⟨List.forall_mem_nil _, hi.next⟩
  · refine (ih.expr hi).bind fun ⟨item, j⟩ ⟨hitem, hj⟩ => ?_
    dsimp only
    split
    · exact ⟨Expr.allEndBy_cons.mpr ⟨hitem, List.forall_mem_nil _⟩, hj.next⟩
    · refine (located_expect hts hj _).bind fun k hk => ?_
      exact (ih.items hk).bind fun ⟨items, k⟩ ⟨hitems, hk⟩ =>
        ⟨Expr.allEndBy_cons.mpr ⟨hitem, hitems⟩, hk⟩

theorem entries_succ (hts : ∀ t ∈ ts, t.IsPlaced stop) (ih : ParsesWithin ts stop fuel)
    (hi : i.Within ts stop) :
    Located ts stop (fun r => Expr.EntriesEndBy stop r.1 ∧ r.2.Within ts stop)
      (parseEntries (fuel + 1) i) := by
  rw [parseEntries]
  split
  · exact ⟨List.forall_mem_nil _, hi.next⟩
  · refine (ih.expr hi).bind fun ⟨key, j⟩ ⟨hkey, hj⟩ => ?_
    refine (located_expect hts hj _).bind fun j hj => ?_
    refine (ih.expr hj).bind fun ⟨content, j⟩ ⟨hcontent, hj⟩ => ?_
    dsimp only
    split
    · exact ⟨Expr.entriesEndBy_cons.mpr ⟨hkey, hcontent, List.forall_mem_nil _⟩, hj.next⟩
    · refine (located_expect hts hj _).bind fun j hj => ?_
      exact (ih.entries hj).bind fun ⟨entries, k⟩ ⟨hentries, hk⟩ =>
        ⟨Expr.entriesEndBy_cons.mpr ⟨hkey, hcontent, hentries⟩, hk⟩

end ParsesWithin

/-- **Whatever the fuel, the parser finds trees and errors within the text**, or a literal without
value. -/
theorem parsesWithin {ts : List Token} {stop : Nat} (hts : ∀ t ∈ ts, t.IsPlaced stop) :
    ∀ fuel, ParsesWithin ts stop fuel
  | 0 => {
      expr := fun hi => located_fail hts hi _
      chain := fun hi => located_fail hts hi _
      links := fun _ hi => located_fail hts hi _
      unary := fun hi => located_fail hts hi _
      steps := fun _ hi => located_fail hts hi _
      primary := fun hi => located_fail hts hi _
      items := fun hi => located_fail hts hi _
      entries := fun hi => located_fail hts hi _ }
  | fuel + 1 =>
    have ih := parsesWithin hts fuel
    { expr := ih.expr_succ hts
      chain := ih.chain_succ
      links := ih.links_succ hts
      unary := ih.unary_succ hts
      steps := ih.steps_succ hts
      primary := ih.primary_succ hts
      items := ih.items_succ hts
      entries := ih.entries_succ hts }

/-! ### Whole texts -/

theorem lexBehind_pos_lt {pos stop : Nat} {t : Text} {lexeme : Option (Option TokenKind × Nat)}
    {behind : Nat → List Token × Text} (hp : pos < stop) (hb : ∀ n, ∀ k ∈ (behind n).1, k.pos < stop) :
    ∀ k ∈ (lexBehind pos t lexeme behind).1, k.pos < stop := by
  intro k hk
  unfold lexBehind at hk
  split at hk
  · exact absurd hk List.not_mem_nil
  · exact hb _ k hk
  · rcases List.mem_cons.mp hk with rfl | hk
    · exact hp
    · exact hb _ k hk

/-- Tokens start within their text. -/
theorem lexFrom_pos_lt : ∀ {t : Text} {pos skip : Nat}, ∀ k ∈ (lexFrom pos skip t).1,
    k.pos < pos + t.length
  | [], _, _ => fun _ hk => absurd hk List.not_mem_nil
  | c :: r, pos, skip => by
    have hlength : pos + 1 + r.length = pos + (c :: r).length := by
      rw [List.length_cons, Nat.add_assoc, Nat.add_comm 1]
    rw [lexFrom, ← hlength]
    split
    · exact lexFrom_pos_lt
    · exact lexBehind_pos_lt (by omega) fun _ => lexFrom_pos_lt

theorem isPlaced_of_mem_lex {source : Text} {t : Token} (ht : t ∈ (lex source).1) :
    t.IsPlaced source.length where
  pos_le := by
    have hlt := lexFrom_pos_lt t ht
    omega
  isInteger := lexFrom_forall (P := fun kind text => kind = .int → IsInteger text)
    (fun _ _ _ hl hk => isInteger_of_lexeme? (hk ▸ hl)) t ht

/-- **A text has a tree, or an error in it, or a literal without value.** -/
theorem located_parse (source : Text) :
    Located (lex source).1 source.length (Expr.EndsBy source.length) (parse source) := by
  have hts : ∀ t ∈ (lex source).1, t.IsPlaced source.length := fun _ => isPlaced_of_mem_lex
  have hinput : Located (lex source).1 source.length (· = ⟨(lex source).1, source.length⟩)
      (scan source) := by
    unfold scan
    cases h : tokenize source with
    | ok tokens => exact congrArg (Input.mk · source.length) (eq_of_tokenize h)
    | error e =>
      unfold tokenize at h
      split at h
      · cases h
      · cases h
        exact Nat.sub_le ..
  refine hinput.bind ?_
  rintro _ rfl
  have hi : Input.Within (lex source).1 source.length ⟨(lex source).1, source.length⟩ :=
    ⟨List.Subset.refl _, rfl⟩
  dsimp only
  split
  · exact located_fail hts hi _
  · refine ((parsesWithin hts _).expr hi).bind fun ⟨e, rest⟩ ⟨he, hrest⟩ => ?_
    dsimp only
    split
    · exact he
    · exact located_fail hts hrest _

end LogStream.Filter
