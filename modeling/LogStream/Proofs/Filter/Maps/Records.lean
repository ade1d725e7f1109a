import LogStream.Filter.Program
import LogStream.Proofs.Datum.Mapping
import LogStream.Proofs.Filter.Hereditary.Evaluation
import LogStream.Proofs.Filter.Maps.Keys
import LogStream.Proofs.Value.Settled
import LogStream.Proofs.Wire.Image

/-! # Maps with distinct keys

A value is well keyed if no map in it has two keys that are the same (`Dyn.IsWellKeyed`). This is handed down
to parts, and a map that gets a new key stays well keyed (`wellKeyed`). So an expression gives a well-keyed
value if its variables have such ones (`gives_eval`): operators and functions make no maps, and literals of
maps fail where a key is the same as an earlier one.

A program hands dictionaries to the logger, whose keys are distinct as they come (`Datum.IsWellKeyed`). They
stay so in what lazy values give (`Value.IsWellKeyed.resolve`), and groups become maps under distinct
texts. So the variables of a filter have well-keyed values, and those of walks and bindings as well
(`Reaches.isWellKeyed`). -/

namespace LogStream.Filter

open Eval (Gives)

namespace Dyn

/-- The value has no values in it. -/
def isLeaf : Dyn → Bool
  | list _ => false
  | map _ => false
  | optional _ => false
  | _ => true

/-- No map in the value has two keys that are the same. -/
inductive IsWellKeyed : Dyn → Prop
  | leaf {v : Dyn} (h : v.isLeaf = true) : IsWellKeyed v
  | list {xs : List Dyn} (h : ∀ x ∈ xs, IsWellKeyed x) : IsWellKeyed (.list xs)
  | map {es : List (Dyn × Dyn)} (hdistinct : HasDistinctKeys es) (hkeys : ∀ e ∈ es, IsWellKeyed e.1)
      (hcontents : ∀ e ∈ es, IsWellKeyed e.2) : IsWellKeyed (.map es)
  | optional {c : Option Dyn} (h : ∀ v ∈ c, IsWellKeyed v) : IsWellKeyed (.optional c)

/-- All values are well keyed. -/
abbrev AllWellKeyed (xs : List Dyn) : Prop := ∀ x ∈ xs, x.IsWellKeyed

variable {v : Dyn} {xs : List Dyn} {es : List (Dyn × Dyn)}

@[simp] theorem isWellKeyed_string (t : Text) : (string t).IsWellKeyed := .leaf rfl

@[simp] theorem isWellKeyed_bytes (bs : Bytes) : (bytes bs).IsWellKeyed := .leaf rfl

theorem isWellKeyed_list_iff : (list xs).IsWellKeyed ↔ AllWellKeyed xs := by
  constructor
  · rintro (h | h)
    · cases h
    · exact h
  · exact .list

theorem isWellKeyed_optional_iff {c : Option Dyn} :
    (optional c).IsWellKeyed ↔ ∀ v ∈ c, v.IsWellKeyed := by
  constructor
  · rintro (h | _ | _ | h)
    · cases h
    · exact h
  · exact .optional

theorem isWellKeyed_map_iff : (map es).IsWellKeyed ↔
    HasDistinctKeys es ∧ (∀ e ∈ es, e.1.IsWellKeyed) ∧ ∀ e ∈ es, e.2.IsWellKeyed := by
  constructor
  · rintro (h | _ | ⟨hdistinct, hkeys, hcontents⟩)
    · cases h
    · exact ⟨hdistinct, hkeys, hcontents⟩
  · rintro ⟨hdistinct, hkeys, hcontents⟩
    exact .map hdistinct hkeys hcontents

theorem isWellKeyed_of_isPlain (h : v.isPlain = true) : v.IsWellKeyed := by
  cases v with
  | null | bool | double | string | bytes | timestamp | duration => exact .leaf rfl
  | _ => cases h

/-- An entry with a new key is put behind the others. -/
theorem isWellKeyed_snoc {k : Dyn} (hes : (map es).IsWellKeyed) (hnew : ¬ (binding? k es).isSome)
    (hk : k.IsWellKeyed) (hv : v.IsWellKeyed) : (map (es ++ [(k, v)])).IsWellKeyed := by
  obtain ⟨hdistinct, hkeys, hcontents⟩ := isWellKeyed_map_iff.mp hes
  rw [isSome_binding?_iff] at hnew
  refine .map (hdistinct.snoc hnew) ?_ ?_
  · exact List.forall_mem_append.mpr ⟨hkeys, List.forall_mem_singleton.mpr hk⟩
  · exact List.forall_mem_append.mpr ⟨hcontents, List.forall_mem_singleton.mpr hv⟩

end Dyn

open Dyn (IsWellKeyed AllWellKeyed)

/-- To be well keyed is handed down. -/
def wellKeyed : Hereditary where
  holds := IsWellKeyed
  holds_plain := Dyn.isWellKeyed_of_isPlain
  holds_int _ := .leaf rfl
  holds_list_iff := Dyn.isWellKeyed_list_iff
  holds_optional_iff := Dyn.isWellKeyed_optional_iff
  holds_entry h e he := by
    obtain ⟨-, hkeys, hcontents⟩ := Dyn.isWellKeyed_map_iff.mp h
    exact ⟨hkeys e he, hcontents e he⟩
  holds_nil := .map .nil (List.forall_mem_nil _) (List.forall_mem_nil _)
  holds_snoc := Dyn.isWellKeyed_snoc

/-! ### Expressions -/

/-- The values of all variables are well keyed. -/
def Activation.IsWellKeyed (env : Activation) : Prop :=
  ∀ name v, env.lookup name = some v → v.IsWellKeyed

theorem Activation.IsWellKeyed.bind {env : Activation} (h : env.IsWellKeyed) {v : Dyn}
    (hv : v.IsWellKeyed) (var : Text) : Activation.IsWellKeyed ((var, v) :: env) :=
  Hereditary.HoldsIn.bind (p := wellKeyed) h hv var

/-- Neither literals nor integers are anything but well keyed. -/
theorem keptBy_wellKeyed (env : Activation) (e : Expr) : wellKeyed.KeptBy env e := by
  refine fun _ _ _ => ⟨fun {_ c} _ => ?_, fun _ _ _ _ _ => .leaf rfl⟩
  cases c <;> exact .leaf rfl

/-- **An expression gives a well-keyed value where its variables have such ones.** -/
theorem gives_eval (e : Expr) {env : Activation} (h : env.IsWellKeyed) :
    Gives IsWellKeyed (eval env e) :=
  Hereditary.gives_eval (p := wellKeyed) e (keptBy_wellKeyed env e) h

theorem gives_iterated {v : Dyn} (h : v.IsWellKeyed) : Gives AllWellKeyed (iterated v) :=
  Hereditary.gives_iterated (p := wellKeyed) h

end LogStream.Filter

namespace LogStream

open LogStream.Filter (Dyn)

/-! ### Data -/

/-- The datum is none that others are taken out of. -/
def Datum.isLeaf : Datum → Bool
  | .list _ => false
  | .map _ => false
  | .lazy _ => false
  | .value _ => false
  | _ => true

mutual

/-- No dictionary in the datum has two keys that are the same. -/
inductive Datum.IsWellKeyed : Datum → Prop
  | leaf {d : Datum} (h : d.isLeaf = true) : Datum.IsWellKeyed d
  | list {xs : List Datum} (h : ∀ d ∈ xs, Datum.IsWellKeyed d) : Datum.IsWellKeyed (.list xs)
  | map {es : List (Datum × Datum)} (hdistinct : Dyn.HasDistinctKeys (Dyn.ofEntries es))
      (hkeys : ∀ e ∈ es, Datum.IsWellKeyed e.1) (hcontents : ∀ e ∈ es, Datum.IsWellKeyed e.2) :
      Datum.IsWellKeyed (.map es)
  | lazy {d : Datum} (h : Datum.IsWellKeyed d) : Datum.IsWellKeyed (.lazy d)
  | value {v : Value} (h : Value.IsWellKeyed v) : Datum.IsWellKeyed (.value v)

/-- No dictionary in the value has two keys that are the same. -/
inductive Value.IsWellKeyed : Value → Prop
  | empty : Value.IsWellKeyed .empty
  | held {d : Datum} (kind : Kind) (h : Datum.IsWellKeyed d) : Value.IsWellKeyed (.held kind d)
  | group {ms : List Attr} (h : ∀ a ∈ ms, Value.IsWellKeyed a.2) : Value.IsWellKeyed (.group ms)
  | foreign (name : Text) : Value.IsWellKeyed (.foreign name)

end

/-- No dictionary in the attributes has two keys that are the same. -/
def Record.IsWellKeyed (r : Record) : Prop := ∀ a ∈ r.attrs, a.2.IsWellKeyed

/-- What was decoded holds no dictionaries at all. -/
theorem Value.IsDecoded.isWellKeyed {v : Value} (h : v.IsDecoded) : v.IsWellKeyed := by
  induction h with
  | empty => exact .empty
  | group _ _ _ ih => exact .group ih
  | _ => exact .held _ (.leaf rfl)

theorem Record.IsDecoded.isWellKeyed {r : Record} (h : r.IsDecoded) : r.IsWellKeyed := by
  rcases h.attrs.isWellKeyed with _ | _ | h
  exact h

namespace Filter.Dyn

mutual

/-- A datum becomes a value of expressions that is well keyed. -/
theorem isWellKeyed_ofDatum : ∀ {d : Datum}, d.IsWellKeyed → (ofDatum d).IsWellKeyed
  | .list xs, h => by
    rcases h with h | h
    · cases h
    · exact .list (allWellKeyed_ofData h)
  | .map es, h => by
    rcases h with h | _ | ⟨hdistinct, hkeys, hcontents⟩
    · cases h
    · have hes := isWellKeyed_ofEntries hkeys hcontents
      exact .map hdistinct (fun e he => (hes e he).1) fun e he => (hes e he).2
  | .null, _ | .bool _, _ | .int _, _ | .float _, _ | .text _, _ | .bytes _, _ | .time _, _
  | .duration _, _ | .tuple _, _ | .sealed _ _, _ | .lazy _, _ | .loop, _ | .broken, _ | .thing, _
  | .value _, _ => .leaf rfl
termination_by structural d => d

theorem allWellKeyed_ofData : ∀ {xs : List Datum}, (∀ d ∈ xs, d.IsWellKeyed) →
    AllWellKeyed (ofData xs)
  | [], _ => List.forall_mem_nil _
  | d :: ds, h => by
    obtain ⟨hd, hds⟩ := List.forall_mem_cons.mp h
    exact List.forall_mem_cons.mpr ⟨isWellKeyed_ofDatum hd, allWellKeyed_ofData hds⟩
termination_by structural xs => xs

theorem isWellKeyed_ofEntries : ∀ {es : List (Datum × Datum)}, (∀ e ∈ es, e.1.IsWellKeyed) →
    (∀ e ∈ es, e.2.IsWellKeyed) → ∀ e ∈ ofEntries es, e.1.IsWellKeyed ∧ e.2.IsWellKeyed
  | [], _, _ => List.forall_mem_nil _
  | (k, d) :: es, hkeys, hcontents => by
    obtain ⟨hk, hkeys⟩ := List.forall_mem_cons.mp hkeys
    obtain ⟨hd, hcontents⟩ := List.forall_mem_cons.mp hcontents
    exact List.forall_mem_cons.mpr ⟨⟨isWellKeyed_ofDatum hk, isWellKeyed_ofDatum hd⟩,
      isWellKeyed_ofEntries hkeys hcontents⟩
termination_by structural es => es

end

end Filter.Dyn

namespace Value

mutual

/-- A datum is logged as a value that is well keyed. -/
theorem isWellKeyed_ofDatum : ∀ {d : Datum}, d.IsWellKeyed → (ofDatum d).IsWellKeyed
  | .map es, h => by
    rcases h with h | _ | ⟨-, -, hcontents⟩
    · cases h
    · exact .group (isWellKeyed_membersOf hcontents)
  | .value v, h => by
    rcases h with h | _ | _ | _ | h
    · cases h
    · exact h
  | .null, _ => .empty
  | .bool _, h | .int _, h | .float _, h | .text _, h | .bytes _, h | .time _, h | .duration _, h
  | .list _, h | .tuple _, h | .sealed _ _, h | .lazy _, h | .loop, h | .broken, h | .thing, h =>
    .held _ h
termination_by structural d => d

theorem isWellKeyed_membersOf : ∀ {es : List (Datum × Datum)}, (∀ e ∈ es, e.2.IsWellKeyed) →
    ∀ a ∈ membersOf es, a.2.IsWellKeyed
  | [], _ => List.forall_mem_nil _
  | (k, d) :: es, h => by
    obtain ⟨hd, hes⟩ := List.forall_mem_cons.mp h
    exact List.forall_mem_cons.mpr ⟨isWellKeyed_ofDatum hd, isWellKeyed_membersOf hes⟩
termination_by structural es => es

end

/-- What a datum gives in its place is well keyed as it is. -/
theorem isWellKeyed_ask? {d next : Datum} (h : d.IsWellKeyed) (hnext : d.ask? = some next) :
    next.IsWellKeyed := by
  unfold Datum.ask? at hnext
  split at hnext
  · cases hnext
    rcases h with h | _ | _ | h
    · cases h
    · exact h
  · cases hnext
    exact .leaf rfl
  · cases hnext

theorem IsWellKeyed.of_resolveFrom {v w : Value} (h : v.IsWellKeyed) {origin : String} {hops : Nat}
    (hw : resolveFrom origin hops v = .ok w) : w.IsWellKeyed := by
  fun_induction resolveFrom origin hops v with
  | case1 d => cases hw
  | case2 d hops hask => cases hw
  | case3 d hops next hask ih =>
    rcases h with _ | ⟨_, hd⟩
    exact ih (isWellKeyed_ofDatum (isWellKeyed_ask? hd hask)) hw
  | case4 hops v hlazy =>
    cases hw
    exact h

/-- **A lazy value gives a well-keyed one.** -/
theorem IsWellKeyed.resolve {v w : Value} (h : v.IsWellKeyed) (hw : v.resolve = .ok w) :
    w.IsWellKeyed :=
  h.of_resolveFrom hw

end Value

namespace Filter

/-! ### Values of records -/

theorem isWellKeyed_payloadOf {v : Value} (h : v.IsWellKeyed) : (payloadOf v).IsWellKeyed := by
  unfold payloadOf
  split
  · exact .leaf rfl
  · next tag data =>
    have hnames : (Text.lit "value" == Text.lit "type") = false := by decide
    exact .map (List.pairwise_pair.mpr hnames) (by simp) (by simp)
  · rcases h with _ | ⟨_, h⟩
    exact Dyn.isWellKeyed_ofDatum h
  · exact .leaf rfl
  · exact .leaf rfl

theorem isWellKeyed_of_resolve {v : Value} (h : v.IsWellKeyed) {x : Dyn}
    (hx : v.resolve.map payloadOf = .ok x) : x.IsWellKeyed := by
  obtain ⟨w, hw, rfl⟩ := exists_of_map_eq_ok hx
  exact isWellKeyed_payloadOf (h.resolve hw)

/-- Entries under texts make a map with distinct keys. -/
theorem isWellKeyed_textMap {entries : List (Text × Dyn)} (h : ∀ e ∈ entries, e.2.IsWellKeyed) :
    (textMap entries).IsWellKeyed := by
  have hnil : (([] : List (Text × Dyn)).map Prod.fst).Nodup := List.nodup_nil
  have hnodup := Attrs.nodup_putAll hnil entries
  refine .map ?_ ?_ ?_
  · refine List.pairwise_map.mpr ((List.pairwise_map.mp hnodup).imp fun {a b} hne => ?_)
    exact beq_false_of_ne hne.symm
  · exact List.forall_mem_map.mpr fun a _ => .leaf rfl
  · refine List.forall_mem_map.mpr fun a ha => ?_
    rcases Attrs.mem_putAll ha with ha | ha
    · exact absurd ha List.not_mem_nil
    · exact h a ha

mutual

theorem isWellKeyed_ofValue : ∀ {v : Value}, v.IsWellKeyed → ∀ {x : Dyn}, ofValue v = .ok x →
    x.IsWellKeyed
  | .group ms, .group h, x, hx => by
    obtain ⟨entries, hentries, hx⟩ := exists_of_bind_eq_ok hx
    cases hx
    exact isWellKeyed_textMap (isWellKeyed_ofMembers h hentries)
  | .empty, h, _, hx | .held _ _, h, _, hx | .foreign _, h, _, hx => isWellKeyed_of_resolve h hx
termination_by structural v => v

theorem isWellKeyed_ofMembers : ∀ {ms : List Attr}, (∀ a ∈ ms, a.2.IsWellKeyed) →
    ∀ {entries : List (Text × Dyn)}, ofMembers ms = .ok entries → ∀ e ∈ entries, e.2.IsWellKeyed
  | [], _, entries, hentries => by
    cases hentries
    exact List.forall_mem_nil _
  | (k, v) :: ms, h, entries, hentries => by
    obtain ⟨hv, hms⟩ := List.forall_mem_cons.mp h
    obtain ⟨x, hx, hentries⟩ := exists_of_bind_eq_ok hentries
    obtain ⟨rest, hrest, hentries⟩ := exists_of_bind_eq_ok hentries
    cases hentries
    exact List.forall_mem_cons.mpr ⟨isWellKeyed_ofValue hv hx, isWellKeyed_ofMembers hms hrest⟩
termination_by structural ms => ms

end

variable {r : Record} {env : Activation}

theorem isWellKeyed_activation (hr : r.IsWellKeyed) (henv : activation r = .ok env) :
    env.IsWellKeyed := by
  unfold activation at henv
  split at henv
  · cases henv
  · next level _ =>
    split at henv
    · cases henv
    · next attrs hattrs =>
      cases henv
      have hmap := isWellKeyed_textMap (isWellKeyed_ofMembers hr hattrs)
      have hnil : Activation.IsWellKeyed [] := nofun
      exact (((hnil.bind hmap _).bind (.leaf rfl) _).bind (.leaf rfl) _).bind (.leaf rfl) _

/-- The values that variables have where a part of an expression is evaluated: the record gives values to
those of filters, and walks and bindings around the part add their own. -/
inductive Reaches (r : Record) : Activation → Prop
  | record {env : Activation} (h : activation r = .ok env) : Reaches r env
  | walk {env : Activation} {range : Expr} {v x : Dyn} {items : List Dyn} (h : Reaches r env) (var : Text)
      (hv : eval env range = .ok v) (hitems : iterated v = .ok items) (hx : x ∈ items) :
      Reaches r ((var, x) :: env)
  | bind {env : Activation} {init : Expr} {v : Dyn} (h : Reaches r env) (var : Text)
      (hv : eval env init = .ok v) : Reaches r ((var, v) :: env)

/-- **Variables only have well-keyed values.** -/
theorem Reaches.isWellKeyed (hr : r.IsWellKeyed) (h : Reaches r env) : env.IsWellKeyed := by
  induction h with
  | record h => exact isWellKeyed_activation hr h
  | walk h var hv hitems hx ih =>
    have hkeyed := gives_iterated (gives_eval _ ih _ hv) _ hitems
    exact ih.bind (hkeyed _ hx) var
  | bind h var hv ih => exact ih.bind (gives_eval _ ih _ hv) var

end Filter

end LogStream
