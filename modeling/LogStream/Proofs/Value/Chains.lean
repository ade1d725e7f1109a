import LogStream.Proofs.Value.Settled

/-! # Chains of lazy values

A lazy object may answer in any way when it is asked for what to log: with any datum, with another one each time, or
not at all (`Answers`). To resolve a value is to follow a chain of such answers (`Value.follow`), of which
`Value.resolve` is the one where every object answers by what it holds (`Value.result_follow`). `Leads` tells where a
chain goes, without a bound. Following it for some hops and then for the rest is to follow it all (`follow_of_leads`),
so a chain is followed to its end or to the bound, whichever comes first (`Ends.iff`), and the objects that are asked
are those of the chain, each once. -/

namespace LogStream

/-- How objects answer when they are asked for what to log: with a datum, or not at all. An answer may depend on a
state, and leaves another one behind. -/
abbrev Answers (σ : Type) := Datum → σ → Option Datum × σ

/-- Every object answers by what it holds. -/
def Answers.held : Answers Unit := fun d s => (d.ask?, s)

/-- What comes of following a chain: its result, the objects that were asked, in this order, and the state that was
left behind. -/
structure Pursuit (σ : Type) where
  result : Except ResolveError Value
  asked : List Datum
  state : σ

/-- The same with objects that were asked before. -/
def Pursuit.behind {σ : Type} (ds : List Datum) (p : Pursuit σ) : Pursuit σ := { p with asked := ds ++ p.asked }

variable {σ : Type} {answers : Answers σ} {origin : String} {s t u : σ} {v w : Value} {d : Datum} {ds : List Datum}
  {hops : Nat}

namespace Value

/-- A chain of lazy values followed to the first value that is not lazy, with a number of hops left. -/
def followFrom (answers : Answers σ) (origin : String) : Nat → σ → Value → Pursuit σ
  | hops, s, held .lazy d =>
    match hops with
    | 0 => ⟨.error (.endless origin), [], s⟩
    | hops + 1 =>
      match answers d s with
      | (none, t) => ⟨.error (.failed d.typeName), [d], t⟩
      | (some next, t) => (followFrom answers origin hops t (ofDatum next)).behind [d]
  | _, s, v => ⟨.ok v, [], s⟩

/-- A value resolved where objects answer as told. -/
def follow (answers : Answers σ) (s : σ) (v : Value) : Pursuit σ :=
  followFrom answers v.payload.typeName maxHops s v

theorem result_followFrom (origin : String) (hops : Nat) (s : Unit) (v : Value) :
    (followFrom Answers.held origin hops s v).result = resolveFrom origin hops v := by
  fun_induction resolveFrom origin hops v generalizing s with
  | case1 d => rfl
  | case2 d hops hd => rw [followFrom, Answers.held, hd]
  | case3 d hops next hd ih =>
    rw [followFrom, Answers.held, hd]
    exact ih s
  | case4 hops v hv => rw [followFrom]; exact hv

/-- **To resolve a value is to follow its chain.** -/
theorem result_follow (v : Value) : (follow Answers.held () v).result = v.resolve :=
  result_followFrom _ _ () v

theorem followFrom_of_ne_lazy (h : ∀ d, v ≠ held .lazy d) : followFrom answers origin hops s v = ⟨.ok v, [], s⟩ := by
  rw [followFrom]
  exact h

end Value

open Value (follow followFrom followFrom_of_ne_lazy)

/-! ### Where a chain leads -/

/-- The objects of the list, asked one after the other from a state on, lead from a value to another one: each of them
answers, with the next value of the chain. -/
inductive Leads (answers : Answers σ) : σ → Value → List Datum → σ → Value → Prop
  | here (s : σ) (v : Value) : Leads answers s v [] s v
  | next {s t u : σ} {d given : Datum} {ds : List Datum} {w : Value} (h : answers d s = (some given, t))
      (hrest : Leads answers t (.ofDatum given) ds u w) : Leads answers s (.held .lazy d) (d :: ds) u w

/-- Hops along a chain may be taken first. -/
theorem followFrom_of_leads (h : Leads answers s v ds t w) (hops : Nat) :
    followFrom answers origin (ds.length + hops) s v = (followFrom answers origin hops t w).behind ds := by
  induction h with
  | here => rw [List.length_nil, Nat.zero_add]; rfl
  | @next _ _ _ d _ ds _ h _ ih =>
    rw [List.length_cons, Nat.add_right_comm, followFrom, h]
    dsimp only
    rw [ih]
    rfl

/-! ### How a chain ends -/

/-- How following a chain ends, with a number of hops left. -/
inductive Ends (answers : Answers σ) (origin : String) (hops : Nat) (s : σ) (v : Value) : Pursuit σ → Prop
  | value {ds : List Datum} {t : σ} {w : Value} (h : Leads answers s v ds t w) (hw : ∀ d, w ≠ .held .lazy d)
      (hl : ds.length ≤ hops) : Ends answers origin hops s v ⟨.ok w, ds, t⟩
  | failed {ds : List Datum} {t u : σ} {d : Datum} (h : Leads answers s v ds t (.held .lazy d))
      (hd : answers d t = (none, u)) (hl : ds.length < hops) :
      Ends answers origin hops s v ⟨.error (.failed d.typeName), ds ++ [d], u⟩
  | endless {ds : List Datum} {t : σ} {d : Datum} (h : Leads answers s v ds t (.held .lazy d))
      (hl : ds.length = hops) : Ends answers origin hops s v ⟨.error (.endless origin), ds, t⟩

namespace Ends

theorem next {given : Datum} {p : Pursuit σ} (h : answers d s = (some given, t))
    (hp : Ends answers origin hops t (.ofDatum given) p) :
    Ends answers origin (hops + 1) s (.held .lazy d) (p.behind [d]) := by
  cases hp with
  | value hlead hw hl => exact .value (.next h hlead) hw (Nat.succ_le_succ hl)
  | failed hlead hd hl => exact .failed (.next h hlead) hd (Nat.succ_lt_succ hl)
  | endless hlead hl => exact .endless (.next h hlead) (congrArg Nat.succ hl)

theorem followFrom (answers : Answers σ) (origin : String) (hops : Nat) (s : σ) (v : Value) :
    Ends answers origin hops s v (followFrom answers origin hops s v) := by
  fun_induction Value.followFrom answers origin hops s v with
  | case1 s d => exact .endless (.here s _) rfl
  | case2 s d hops t h => exact .failed (.here s _) h (Nat.succ_pos hops)
  | case3 s d hops given t h ih => exact next h ih
  | case4 hops s v hv => exact .value (.here s v) hv (Nat.zero_le hops)

/-- **A chain ends in just one way.** -/
protected theorem iff {p : Pursuit σ} :
    Value.followFrom answers origin hops s v = p ↔ Ends answers origin hops s v p := by
  constructor
  · rintro rfl
    exact followFrom answers origin hops s v
  · intro h
    cases h with
    | value hlead hw hl =>
      obtain ⟨k, rfl⟩ := Nat.exists_eq_add_of_le hl
      rw [followFrom_of_leads hlead, followFrom_of_ne_lazy hw, Pursuit.behind, List.append_nil]
    | failed hlead hd hl =>
      obtain ⟨k, rfl⟩ := Nat.exists_eq_add_of_lt hl
      rw [Nat.add_assoc, followFrom_of_leads hlead, Value.followFrom, hd]
      rfl
    | @endless ds t d hlead hl =>
      have hstop : Value.followFrom answers origin (ds.length + 0) s v = _ := followFrom_of_leads hlead 0
      rw [Nat.add_zero, hl] at hstop
      rw [hstop, Value.followFrom, Pursuit.behind, List.append_nil]

theorem length_asked_le {p : Pursuit σ} (h : Ends answers origin hops s v p) : p.asked.length ≤ hops := by
  cases h with
  | value _ _ hl => exact hl
  | failed _ _ hl =>
    rw [List.length_append, List.length_singleton]
    exact hl
  | endless _ hl => exact Nat.le_of_eq hl

end Ends

/-! ### Resolved values -/

/-- What a value is resolved to. -/
structure IsPursued (answers : Answers σ) (s : σ) (v : Value) (p : Pursuit σ) : Prop where
  /-- A value is found just if the chain leads to it, it is not lazy, and no more than a hundred objects stand before it.
  It is these that are asked. -/
  found : ∀ w ds t, p = ⟨.ok w, ds, t⟩ ↔
    Leads answers s v ds t w ∧ (∀ d, w ≠ .held .lazy d) ∧ ds.length ≤ maxHops
  /-- An object fails if it is one of the first hundred and does not answer. It is the last one that is asked. -/
  failed : ∀ name asked u, p = ⟨.error (.failed name), asked, u⟩ ↔ ∃ ds t d, Leads answers s v ds t (.held .lazy d) ∧
    answers d t = (none, u) ∧ ds.length < maxHops ∧ asked = ds ++ [d] ∧ name = d.typeName
  /-- A chain is given up if what the hundredth object gives is lazy. -/
  endless : ∀ name ds t, p = ⟨.error (.endless name), ds, t⟩ ↔ ∃ d, Leads answers s v ds t (.held .lazy d) ∧
    ds.length = maxHops ∧ name = v.payload.typeName
  /-- No more than a hundred objects are asked. -/
  bounded : p.asked.length ≤ maxHops
  /-- What is found is not lazy, and is resolved to itself, without asking, whatever objects would answer. -/
  settled : ∀ w, p.result = .ok w → (∀ d, w ≠ .held .lazy d) ∧
    ∀ {τ : Type} (others : Answers τ) (t : τ), follow others t w = ⟨.ok w, [], t⟩

/-- **Values are resolved along their chains**, in whatever way lazy objects answer, and where they answer by what they
hold this is how values are resolved. -/
theorem follow_isPursued (answers : Answers σ) (s : σ) (v : Value) :
    IsPursued answers s v (follow answers s v) ∧ (follow Answers.held () v).result = v.resolve := by
  have hends := Ends.followFrom answers v.payload.typeName maxHops s v
  refine ⟨?_, Value.result_follow v⟩
  constructor
  · intro w ds t
    refine Ends.iff.trans ⟨?_, fun ⟨h, hw, hl⟩ => .value h hw hl⟩
    rintro ⟨h, hw, hl⟩
    exact ⟨h, hw, hl⟩
  · intro name asked u
    refine Ends.iff.trans ⟨?_, ?_⟩
    · rintro ⟨⟩
      exact ⟨_, _, _, ‹_›, ‹_›, ‹_›, rfl, rfl⟩
    · rintro ⟨ds, t, d, h, hd, hl, rfl, rfl⟩
      exact .failed h hd hl
  · intro name ds t
    refine Ends.iff.trans ⟨?_, ?_⟩
    · rintro ⟨⟩
      exact ⟨_, ‹_›, ‹_›, rfl⟩
    · rintro ⟨d, h, hl, rfl⟩
      exact .endless h hl
  · exact hends.length_asked_le
  · intro w hw
    have hlazy : ∀ d, w ≠ .held .lazy d := by
      unfold follow at hw
      generalize Value.followFrom answers v.payload.typeName maxHops s v = p at hends hw
      cases hends with
      | value _ h _ => cases hw; exact h
      | failed | endless => cases hw
    exact ⟨hlazy, fun others t => followFrom_of_ne_lazy hlazy⟩

/-- A hundred hops are taken, and no more. -/
example : (Value.ofDatum (Nat.repeat Datum.lazy 100 (.int 7))).resolve = .ok (.held .int (.int 7)) := by rfl

example : (Value.ofDatum (Nat.repeat Datum.lazy 101 (.int 7))).resolve = .error (.endless "Lazy") := by rfl

end LogStream
