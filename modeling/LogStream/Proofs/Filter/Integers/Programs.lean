import Mathlib
import LogStream.Filter.Program
import LogStream.Proofs.Datum.Mapping
import LogStream.Proofs.Filter.Faults.Programs
import LogStream.Proofs.Filter.Hereditary.Evaluation
import LogStream.Proofs.Filter.Integers.Literals
import LogStream.Proofs.Filter.Integers.Results
import LogStream.Proofs.Wire.Image

/-! # Integers in programs

A value is bounded if all integers in it fit in 64 bits (`Dyn.IsBounded`), which is handed down (`bounded`).
What a record that was decoded gives to the variables is bounded (`isBounded_activation`). So whatever an
evaluation visits has a bounded value, and where it computes an integer that does not fit it fails
(`staysIn64Bits_of_not_oversteps`), unless a call in it oversteps (`staysIn64Bits_iff`). The last may happen
(`not_staysIn64Bits_of_greatComplement`). -/

namespace LogStream.Filter

open Eval (Gives)

/-! ### Bounded values -/

namespace Dyn

/-- All integers in the value fit in 64 bits, also in lists, in optional values, and in the keys and contents
of maps. -/
inductive IsBounded : Dyn → Prop
  | plain {v : Dyn} (h : v.isPlain = true) : IsBounded v
  | int {n : Int} (h : FitsIn64 n) : IsBounded (.int n)
  | list {xs : List Dyn} (h : ∀ x ∈ xs, IsBounded x) : IsBounded (.list xs)
  | map {es : List (Dyn × Dyn)} (hkeys : ∀ e ∈ es, IsBounded e.1) (hcontents : ∀ e ∈ es, IsBounded e.2) :
      IsBounded (.map es)
  | optional {c : Option Dyn} (h : ∀ v ∈ c, IsBounded v) : IsBounded (.optional c)

variable {v : Dyn} {xs : List Dyn} {es : List (Dyn × Dyn)}

theorem isBounded_int_iff {n : Int} : (int n).IsBounded ↔ FitsIn64 n := by
  constructor
  · rintro (h | h)
    · cases h
    · exact h
  · exact .int

theorem isBounded_list_iff : (list xs).IsBounded ↔ ∀ x ∈ xs, x.IsBounded := by
  constructor
  · rintro (h | _ | h)
    · cases h
    · exact h
  · exact .list

theorem isBounded_optional_iff {c : Option Dyn} : (optional c).IsBounded ↔ ∀ v ∈ c, v.IsBounded := by
  constructor
  · rintro (h | _ | _ | _ | h)
    · cases h
    · exact h
  · exact .optional

theorem isBounded_map_iff : (map es).IsBounded ↔ ∀ e ∈ es, e.1.IsBounded ∧ e.2.IsBounded := by
  constructor
  · rintro (h | _ | _ | ⟨hkeys, hcontents⟩) e he
    · cases h
    · exact ⟨hkeys e he, hcontents e he⟩
  · exact fun h => .map (fun e he => (h e he).1) fun e he => (h e he).2

end Dyn

/-- To be bounded is handed down. -/
def bounded : Hereditary where
  holds := Dyn.IsBounded
  holds_plain := .plain
  holds_int := .int
  holds_list_iff := Dyn.isBounded_list_iff
  holds_optional_iff := Dyn.isBounded_optional_iff
  holds_entry := Dyn.isBounded_map_iff.mp
  holds_nil := Dyn.isBounded_map_iff.mpr (List.forall_mem_nil _)
  holds_snoc hes _ hk hv := Dyn.isBounded_map_iff.mpr (List.forall_mem_append.mpr
    ⟨Dyn.isBounded_map_iff.mp hes, List.forall_mem_singleton.mpr ⟨hk, hv⟩⟩)

/-! ### Literals -/

theorem Constant.IsLiteral.isBounded {c : Constant} (h : c.IsLiteral) : c.value.IsBounded := by
  cases c with
  | int n =>
    refine .int ?_
    simp only [IsLiteral, intLiteralMax, FitsIn64, int64Min, uint64Max] at h ⊢
    omega
  | uint n =>
    refine .int ?_
    simp only [IsLiteral, uintLiteralMax, FitsIn64, int64Min, uint64Max] at h ⊢
    omega
  | _ => exact .plain rfl

/-- An evaluation keeps values bounded, unless a call in it oversteps. -/
theorem keptBy_bounded {env : Activation} {e : Expr} (he : AreLiterate e.nodes)
    (h : ∀ env' e', Visits env e env' e' → ¬ e'.Oversteps env') : bounded.KeptBy env e := by
  intro env' e' hvisits
  constructor
  · rintro pos c rfl
    have hliterate : Expr.IsLiterate (.literal pos c) := he _ hvisits.mem_nodes
    exact hliterate.isBounded
  · intro f es args n hcall hargs hall hf hn
    have hfits : ∀ m, .int m ∈ args → FitsIn64 m := fun m hm => Dyn.isBounded_int_iff.mp (hall _ hm)
    refine .int (fitsIn64_of_isUnchecked hf hfits hn fun hoversteps => ?_)
    exact h env' e' hvisits ⟨f, es, args, hcall, hargs, hoversteps⟩

/-! ### Records -/

theorem isBounded_textMap {entries : List (Text × Dyn)} (h : ∀ e ∈ entries, e.2.IsBounded) :
    (textMap entries).IsBounded := by
  refine Dyn.isBounded_map_iff.mpr (List.forall_mem_map.mpr fun a ha => ⟨.plain rfl, ?_⟩)
  rcases Attrs.mem_putAll ha with ha | ha
  · exact absurd ha List.not_mem_nil
  · exact h a ha

theorem isBounded_ofMembers : ∀ {ms : List Attr},
    (∀ a ∈ ms, ∀ x, ofValue a.2 = .ok x → x.IsBounded) →
    ∀ {entries : List (Text × Dyn)}, ofMembers ms = .ok entries → ∀ e ∈ entries, e.2.IsBounded
  | [], _, entries, hentries => by
    cases hentries
    exact List.forall_mem_nil _
  | (k, v) :: ms, h, entries, hentries => by
    obtain ⟨hv, hms⟩ := List.forall_mem_cons.mp h
    obtain ⟨x, hx, hentries⟩ := exists_of_bind_eq_ok hentries
    obtain ⟨rest, hrest, hentries⟩ := exists_of_bind_eq_ok hentries
    cases hentries
    exact List.forall_mem_cons.mpr ⟨hv x hx, isBounded_ofMembers hms hrest⟩

/-- A value that was decoded is bounded. -/
theorem isBounded_ofValue {v : Value} (h : v.IsDecoded) : ∀ x, ofValue v = .ok x → x.IsBounded := by
  induction h with
  | group _ _ _ ih =>
    intro x hx
    obtain ⟨entries, hentries, hx⟩ := exists_of_bind_eq_ok hx
    cases hx
    exact isBounded_textMap (isBounded_ofMembers ih hentries)
  | int h =>
    intro x hx
    cases hx
    exact .int (fitsIn64_of_le_int64Max h.1 h.2)
  | uint h =>
    intro x hx
    cases hx
    exact .int (fitsIn64_of_nonneg h.1 h.2)
  | any data _ =>
    intro x hx
    cases hx
    refine Dyn.isBounded_map_iff.mpr (List.forall_mem_cons.mpr ⟨⟨.plain rfl, .plain rfl⟩, ?_⟩)
    exact List.forall_mem_singleton.mpr ⟨.plain rfl, .plain rfl⟩
  | _ =>
    intro x hx
    cases hx
    exact .plain rfl

/-- **The variables of a filter have bounded values on a record that was decoded.** -/
theorem isBounded_activation {r : Record} (hr : r.IsDecoded) {env : Activation}
    (henv : activation r = .ok env) : bounded.HoldsIn env := by
  unfold activation at henv
  split at henv
  · cases henv
  · split at henv
    · cases henv
    · next attrs hattrs =>
      cases henv
      have hmap : bounded.holds (textMap attrs) := isBounded_ofValue hr.attrs _ (by rw [ofValue, hattrs]; rfl)
      have hnil : bounded.HoldsIn [] := fun _ _ h => by cases h
      exact (((hnil.bind hmap _).bind (.plain rfl) _).bind (.plain rfl) _).bind (.plain rfl) _

/-! ### Programs -/

/-- The integers at the evaluation of an expression stay in 64 bits. -/
structure StaysIn64Bits (env : Activation) (e : Expr) : Prop where
  /-- All integers in the values of variables fit. -/
  names : ∀ name v, env.lookup name = some v → v.IsBounded
  /-- All integers in the value of the expression fit. -/
  value : ∀ v, eval env e = .ok v → v.IsBounded
  /-- An integer that is computed is the exact one, which fits, or the computation fails with an error. -/
  computation : ∀ n, Computes env e n →
    FitsIn64 n ∧ eval env e = .ok (.int n) ∨ ∃ err, eval env e = .error (.error err)

/-- On its way, the evaluation of a program on a record evaluates a call that oversteps. -/
def Program.Oversteps (p : Program) (r : Record) : Prop :=
  ∃ env env' e, activation r = .ok env ∧ Visits env p.tree env' e ∧ e.Oversteps env'

theorem parse_of_compile {source : Text} {p : Program} (h : Program.compile source = .ok p) :
    parse source = .ok p.tree := by
  obtain ⟨tree, htree, h⟩ := exists_of_bind_eq_ok h
  obtain ⟨output, -, h⟩ := exists_of_bind_eq_ok h
  split at h
  · cases h
    exact htree
  · cases h

/-- Where no call on the way oversteps, integers stay in 64 bits. -/
theorem staysIn64Bits_of_not_oversteps {source : Text} {p : Program} {bs : Bytes} {r : Record}
    (hp : Program.compile source = .ok p) (hr : Record.decode bs = .ok r) (h : ¬ p.Oversteps r)
    {env env' : Activation} {e : Expr} (henv : activation r = .ok env) (hvisits : Visits env p.tree env' e) :
    StaysIn64Bits env' e := by
  have hkept : bounded.KeptBy env p.tree :=
    keptBy_bounded (areLiterate_of_parse (parse_of_compile hp)) fun env' e' hvisits hoversteps =>
      h ⟨env, env', e', henv, hvisits, hoversteps⟩
  have hholds := isBounded_activation (Record.isDecoded_of_decode hr) henv
  obtain ⟨hnames, hvalue⟩ := Hereditary.gives_visited hkept hholds hvisits
  refine ⟨hnames, hvalue, fun n hn => ?_⟩
  rcases hn.isExact with hok | herror
  · exact .inl ⟨Dyn.isBounded_int_iff.mp (hvalue _ hok), hok⟩
  · exact .inr herror

/-- A call that oversteps for arguments that fit does not stay in 64 bits. -/
theorem not_staysIn64Bits_of_oversteps {env : Activation} {e : Expr} (h : e.Oversteps env)
    (hparts : ∀ d, Asks env e env d → StaysIn64Bits env d) : ¬ StaysIn64Bits env e := by
  obtain ⟨f, es, args, hcall, hargs, hoversteps⟩ := h
  have hfits : ∀ n, .int n ∈ args → FitsIn64 n := by
    intro n hn
    obtain ⟨before, d, after, rfl, hbefore, hd⟩ := exists_of_mem_evalAll hargs _ hn
    exact Dyn.isBounded_int_iff.mp ((hparts d (.of_call? hcall hbefore)).value _ hd)
  obtain ⟨n, hn, hnot⟩ := hoversteps.not_fitsIn64 hfits
  obtain ⟨name, he⟩ := eval_call hcall hargs
  rw [hn] at he
  exact fun hstays => hnot (Dyn.isBounded_int_iff.mp (hstays.value _ he))

/-- **Integers stay in 64 bits just if no call oversteps.** When a program is evaluated on a record that was
decoded, all integers in the values of variables and of expressions on the way fit in 64 bits, and an
expression that computes an integer gives the exact one or fails with an error, which it does if that one
does not fit: unless a call on the way oversteps, and then not. -/
theorem staysIn64Bits_iff {source : Text} {p : Program} {bs : Bytes} {r : Record} {env : Activation}
    (hp : Program.compile source = .ok p) (hr : Record.decode bs = .ok r) (henv : activation r = .ok env) :
    (∀ env' e, Visits env p.tree env' e → StaysIn64Bits env' e) ↔ ¬ p.Oversteps r := by
  constructor
  · rintro hstays ⟨env₀, env', e, henv₀, hvisits, hoversteps⟩
    obtain rfl : env = env₀ := Except.ok.inj (henv.symm.trans henv₀)
    exact not_staysIn64Bits_of_oversteps hoversteps
      (fun d hasks => hstays _ d (hvisits.step hasks)) (hstays env' e hvisits)
  · exact fun h env' e => staysIn64Bits_of_not_oversteps hp hr h henv

/-! ### A sum and a complement that do not fit -/

/-- A sum that does not fit in 64 bits. -/
def greatSum : Text := Text.lit "18446744073709551615u + 1u < 0u"

/-- A complement that does not fit in 64 bits. -/
def greatComplement : Text := Text.lit "math.bitNot(dyn(18446744073709551615u)) < 0"

/-- What is tested for being less. -/
def Expr.compared? : Expr → Option Expr
  | .binary _ .lt left _ => some left
  | _ => none

theorem Visits.of_compared? {env : Activation} {e left : Expr} (h : e.compared? = some left) :
    Visits env e env left := by
  unfold Expr.compared? at h
  split at h
  · cases h
    exact Visits.self.step (.left (by decide) ..)
  · cases h

/-- The integer that is tested for being less, for the variables of a record. -/
def comparedInt? (p : Program) (r : Record) : Option Int :=
  match activation r, p.tree.compared? with
  | .ok env, some left =>
    match eval env left with
    | .ok (.int n) => some n
    | _ => none
  | _, _ => none

/-- The integers whose sum is tested for being less, for the variables of a record. -/
def comparedSum? (p : Program) (r : Record) : Option (Int × Int) :=
  match activation r, p.tree.compared? with
  | .ok env, some (.binary _ .add left right) =>
    match eval env left, eval env right with
    | .ok (.int a), .ok (.int b) => some (a, b)
    | _, _ => none
  | _, _ => none

theorem exists_of_comparedInt? {p : Program} {r : Record} {n : Int} (h : comparedInt? p r = some n) :
    ∃ env e, activation r = .ok env ∧ Visits env p.tree env e ∧ eval env e = .ok (.int n) := by
  unfold comparedInt? at h
  split at h
  · next env left henv hleft =>
    split at h
    · next m hm =>
      cases h
      exact ⟨env, left, henv, .of_compared? hleft, hm⟩
    · cases h
  · cases h

theorem exists_of_comparedSum? {p : Program} {r : Record} {a b : Int} (h : comparedSum? p r = some (a, b)) :
    ∃ env e, activation r = .ok env ∧ Visits env p.tree env e ∧ Computes env e (a + b) := by
  unfold comparedSum? at h
  split at h
  · next env pos left right henv hsum =>
    split at h
    · next a b ha hb =>
      cases h
      exact ⟨env, _, henv, .of_compared? hsum, .operate ha hb rfl pos⟩
    · cases h
  · cases h

/-- Integers stay in 64 bits in a program that computes one that does not fit: so it fails. -/
theorem staysIn64Bits_iff_greatSum : ∃ p env e, Program.compile greatSum = .ok p ∧
    Record.decode [] = .ok {} ∧ activation {} = .ok env ∧ Visits env p.tree env e ∧
    Computes env e (uint64Max + 1) ∧ ∃ err, eval env e = .error (.error err) := by
  have hsum : (Program.compile greatSum).toOption.any (fun p =>
      decide (comparedSum? p {} = some (uint64Max, 1)) &&
        p.tree.nodes.all fun e => e.call?.isNone) = true := by decide +kernel
  obtain ⟨p, hp, hsum⟩ := exists_of_any_toOption hsum
  obtain ⟨hsum, hcalls⟩ := (Bool.and_eq_true _ _).mp hsum
  obtain ⟨env, e, henv, hvisits, hcomputes⟩ := exists_of_comparedSum? (of_decide_eq_true hsum)
  -- There is no call in the program that could overstep.
  have hnone : ¬ p.Oversteps {} := by
    rintro ⟨_, _, d, -, hvisits, f, es, args, hcall, -⟩
    have hd := List.all_eq_true.mp hcalls d hvisits.mem_nodes
    rw [hcall] at hd
    cases hd
  have hstays := (staysIn64Bits_iff hp decode_nil henv).mpr hnone env e hvisits
  refine ⟨p, env, e, hp, decode_nil, henv, hvisits, hcomputes, ?_⟩
  rcases hstays.computation _ hcomputes with ⟨hfits, -⟩ | herror
  · exact absurd hfits (by decide)
  · exact herror

/-- The complement of an unsigned integer above the signed ones is given, though it does not fit. -/
theorem not_staysIn64Bits_of_greatComplement : ∃ p env e, Program.compile greatComplement = .ok p ∧
    Record.decode [] = .ok {} ∧ activation {} = .ok env ∧ Visits env p.tree env e ∧
    eval env e = .ok (.int (-uint64Max - 1)) ∧ ¬ FitsIn64 (-uint64Max - 1) ∧
    ¬ ∀ env' e, Visits env p.tree env' e → StaysIn64Bits env' e := by
  have hint : (Program.compile greatComplement).toOption.any (fun p =>
      decide (comparedInt? p {} = some (-uint64Max - 1))) = true := by decide +kernel
  obtain ⟨p, hp, hint⟩ := exists_of_any_toOption hint
  obtain ⟨env, e, henv, hvisits, he⟩ := exists_of_comparedInt? (of_decide_eq_true hint)
  have hnot : ¬ FitsIn64 (-uint64Max - 1) := by decide
  refine ⟨p, env, e, hp, decode_nil, henv, hvisits, he, hnot, fun hstays => ?_⟩
  exact hnot (Dyn.isBounded_int_iff.mp ((hstays env e hvisits).value _ he))

end LogStream.Filter
