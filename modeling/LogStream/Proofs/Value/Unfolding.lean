import Mathlib.Control.Monad.Basic
import LogStream.Filter.Program
import LogStream.Json.Lines
import LogStream.Proofs.Outcome
import LogStream.Proofs.Wire.Fill

/-! # Unfolding lazy values

A lazy value among the attributes of a record, at any depth of its groups, can be replaced by what it
resolves to (`Unfolds`). What is written of the record stays the same, and so do its plain data, since
both are told by the trees behind the attributes (`Unfolds.settleMembers_eq`). A filter and a line of
JSON resolve lazy values only after they have looked for groups: a filter does not see the members of a
group that a lazy value gives, and a line shows its times, durations and sealed payloads as they are.
Where the lazy value hides no such thing, both stay the same too (`Unfolds.transparent`). -/

namespace LogStream

/-- The second attributes are the first with one value, at any depth of the groups, replaced by the value
that it resolves to. -/
inductive Unfolds (w : Value) : List Attr → List Attr → Prop
  | here {key : Text} {v : Value} {as : List Attr} (h : v.resolve = .ok w) :
      Unfolds w ((key, v) :: as) ((key, w) :: as)
  | inside {key : Text} {ms ns as : List Attr} (h : Unfolds w ms ns) :
      Unfolds w ((key, .group ms) :: as) ((key, .group ns) :: as)
  | behind {a : Attr} {as bs : List Attr} (h : Unfolds w as bs) : Unfolds w (a :: as) (a :: bs)

variable {v w : Value} {as bs ms : List Attr}

theorem Value.settle_eq_of_resolve (h : v.resolve = .ok w) : v.settle = w.settle := by
  rw [settle_eq_ofResolved, h, Settled.ofResolved]

/-- A value that resolves to a value that is no group is no group. -/
theorem Value.ne_group_of_resolve (h : v.resolve = .ok w) (hw : ∀ ms, w ≠ .group ms) :
    ∀ ms, v ≠ .group ms := by
  rintro ms rfl
  exact hw ms (Except.ok.inj h).symm

/-! ### What is written, and plain data -/

/-- The trees behind the attributes stay the same. -/
theorem Unfolds.settleMembers_eq (h : Unfolds w as bs) :
    Value.settleMembers as = Value.settleMembers bs := by
  induction h with
  | here h => rw [Value.settleMembers, Value.settleMembers, Value.settle_eq_of_resolve h]
  | inside _ ih =>
    rw [Value.settleMembers, Value.settleMembers, Value.settle, Value.settle, ih]
  | behind _ ih => rw [Value.settleMembers, Value.settleMembers, ih]

theorem Unfolds.encode_eq (h : Unfolds w as bs) (r : Record) :
    ({ r with attrs := as } : Record).encode = ({ r with attrs := bs } : Record).encode := by
  have hfill : ∀ start, Wire.fillAttrs start as = Wire.fillAttrs start bs := fun start => by
    rw [Wire.fillAttrs_eq_fillEach, Wire.fillAttrs_eq_fillEach, h.settleMembers_eq]
  have hhead : Wire.fillHead? .blank { r with attrs := as } =
      Wire.fillHead? .blank { r with attrs := bs } := rfl
  unfold Record.encode Wire.fillRecord
  simp only [hhead, hfill]

theorem Unfolds.attrData_eq (h : Unfolds w as bs) (r : Record) :
    ({ r with attrs := as } : Record).attrData = ({ r with attrs := bs } : Record).attrData := by
  have htrees : ∀ attrs : List Attr, ({ r with attrs } : Record).attrData =
      (Value.settleMembers attrs).mapM fun a => a.2.toDatum.map fun d => (a.1, d) := fun attrs => by
    rw [Value.settleMembers_eq_map, List.mapM_map]
    rfl
  rw [htrees, htrees, h.settleMembers_eq]

/-! ### Variables of filters -/

namespace Filter

theorem ofValue_of_ne_group (h : ∀ ms, v ≠ .group ms) : ofValue v = v.resolve.map payloadOf := by
  cases v with
  | group ms => exact absurd rfl (h ms)
  | _ => rfl

/-- The variables do not notice a lazy value that hides no group. -/
theorem ofMembers_eq_of_unfolds (hw : ∀ ms, w ≠ .group ms) (h : Unfolds w as bs) :
    ofMembers as = ofMembers bs := by
  induction h with
  | @here key v as hv =>
    have hvalue : ofValue v = ofValue w := by
      rw [ofValue_of_ne_group (Value.ne_group_of_resolve hv hw), ofValue_of_ne_group hw, hv,
        Value.resolve_of_resolve hv]
    rw [ofMembers, ofMembers, hvalue]
  | inside _ ih => rw [ofMembers, ofMembers, ofValue, ofValue, ih]
  | behind _ ih => rw [ofMembers, ofMembers, ih]

end Filter

/-! ### Lines of JSON -/

namespace Json

/-- The datum has a form of its own in a line. -/
def isConverted : Datum → Bool
  | .time _ => true
  | .duration _ => true
  | .sealed _ _ => true
  | _ => false

theorem plain_of_not_isConverted {d : Datum} (h : isConverted d = false) : plain d = .ok d := by
  cases d with
  | time | duration | «sealed» => cases h
  | _ => rfl

/-- No time, no duration and no sealed payload stands in the groups of the value. -/
inductive ConvertsNothing : Value → Prop
  | group {ms : List Attr} (h : ∀ a ∈ ms, ConvertsNothing a.2) : ConvertsNothing (.group ms)
  | single {v : Value} (hv : ∀ ms, v ≠ .group ms)
      (h : ∀ d, v.toDatum = .ok d → isConverted d = false) : ConvertsNothing v

theorem ofValue_of_ne_group (h : ∀ ms, v ≠ .group ms) :
    ofValue v = (v.toDatum.mapError LineError.resolve).bind plain := by
  cases v with
  | group ms => exact absurd rfl (h ms)
  | _ =>
    rw [ofValue]
    · split <;> simp only [*] <;> rfl
    · nofun

theorem ofMembers_of_forall : ∀ {ms : List Attr},
    (∀ a ∈ ms, ofValue a.2 = a.2.toDatum.mapError LineError.resolve) →
    ofMembers ms = (Settled.membersToData (Value.settleMembers ms)).mapError LineError.resolve
  | [], _ => rfl
  | (key, v) :: ms, h => by
    obtain ⟨hv, hms⟩ := List.forall_mem_cons.mp h
    have ih := ofMembers_of_forall hms
    have hdatum : v.settle.toDatum = v.toDatum := rfl
    rw [ofMembers, hv, ih, Value.settleMembers, Settled.membersToData, hdatum]
    cases v.toDatum with
    | error e => rfl
    | ok d => cases Settled.membersToData (Value.settleMembers ms) <;> rfl

/-- A value in which nothing is converted has the form of its plain datum. -/
theorem ConvertsNothing.ofValue_eq (h : ConvertsNothing v) :
    ofValue v = v.toDatum.mapError LineError.resolve := by
  induction h with
  | @group ms _ ih =>
    have hdatum : (Value.group ms).toDatum =
        (Settled.membersToData (Value.settleMembers ms)).map dictionary := by
      unfold Value.toDatum
      rw [Value.settle, Settled.toDatum]
      cases Settled.membersToData (Value.settleMembers ms) <;> rfl
    rw [ofValue, ofMembers_of_forall ih, hdatum]
    cases Settled.membersToData (Value.settleMembers ms) <;> rfl
  | @single v hv h =>
    rw [ofValue_of_ne_group hv]
    cases hd : v.toDatum with
    | error e => rfl
    | ok d => exact plain_of_not_isConverted (h d hd)

/-- A line does not notice a lazy value unless that hides a group in which something is converted. -/
theorem ofValue_eq_of_resolve (h : v.resolve = .ok w)
    (hw : ∀ ms, w = .group ms → ConvertsNothing w) : ofValue v = ofValue w := by
  have hdatum : v.toDatum = w.toDatum := by
    unfold Value.toDatum
    rw [Value.settle_eq_of_resolve h]
  by_cases hgroup : ∃ ms, w = .group ms
  · obtain ⟨ms, rfl⟩ := hgroup
    by_cases hv : ∃ ns, v = .group ns
    · obtain ⟨ns, rfl⟩ := hv
      rw [Except.ok.inj h]
    · have hmap : ∀ d, (Value.group ms).toDatum = .ok d → isConverted d = false := by
        intro d hd
        unfold Value.toDatum at hd
        rw [Value.settle, Settled.toDatum] at hd
        obtain ⟨entries, -, hentries⟩ := exists_of_bind_eq_ok hd
        cases hentries
        rfl
      have hconverts : ConvertsNothing v :=
        .single (fun ns hns => hv ⟨ns, hns⟩) fun d hd => hmap d (hdatum ▸ hd)
      rw [hconverts.ofValue_eq, (hw ms rfl).ofValue_eq, hdatum]
  · have hne : ∀ ms, w ≠ .group ms := fun ms hms => hgroup ⟨ms, hms⟩
    rw [ofValue_of_ne_group (Value.ne_group_of_resolve h hne), ofValue_of_ne_group hne, hdatum]

theorem ofMembers_eq_of_unfolds (hw : ∀ ms, w = .group ms → ConvertsNothing w)
    (h : Unfolds w as bs) : ofMembers as = ofMembers bs := by
  induction h with
  | here hv => rw [ofMembers, ofMembers, ofValue_eq_of_resolve hv hw]
  | inside _ ih => rw [ofMembers, ofMembers, ofValue, ofValue, ih]
  | behind _ ih => rw [ofMembers, ofMembers, ih]

end Json

/-! ### Records -/

/-- **Lazy values are transparent to writers and as plain data**: a record is written as the same bytes,
and has the same plain data, if a lazy value in it is replaced by what it resolves to. A filter selects
as before unless the lazy value hides a group, and the line of JSON is the same unless it hides a group
with a time, a duration or a sealed payload in it. -/
theorem Unfolds.transparent (h : Unfolds w as bs) (r : Record) :
    ({ r with attrs := as } : Record).encode = ({ r with attrs := bs } : Record).encode ∧
    ({ r with attrs := as } : Record).attrData = ({ r with attrs := bs } : Record).attrData ∧
    ((∀ ms, w ≠ .group ms) →
      Filter.activation { r with attrs := as } = Filter.activation { r with attrs := bs } ∧
      ∀ p, Filter.Program.selects p { r with attrs := as } =
        Filter.Program.selects p { r with attrs := bs }) ∧
    ((∀ ms, w = .group ms → Json.ConvertsNothing w) →
      Json.ofRecord { r with attrs := as } = Json.ofRecord { r with attrs := bs }) := by
  refine ⟨h.encode_eq r, h.attrData_eq r, fun hw => ?_, fun hw => ?_⟩
  · have hactivation : Filter.activation { r with attrs := as } =
        Filter.activation { r with attrs := bs } := by
      unfold Filter.activation
      simp only [Filter.ofMembers_eq_of_unfolds hw h]
    refine ⟨hactivation, fun p => ?_⟩
    unfold Filter.Program.selects
    simp only [hactivation]
  · unfold Json.ofRecord
    simp only [Json.ofMembers_eq_of_unfolds hw h]

/-- A group in which a number is given by a lazy value that gives a lazy value. -/
def lazyCount : List Attr :=
  [(Text.lit "g", .group [(Text.lit "n", .held .lazy (.lazy (.lazy (.int 7)))),
    (Text.lit "t", .held .lazy (.lazy (.time .epoch)))])]

/-- The group with the number itself. -/
def plainCount : List Attr :=
  [(Text.lit "g", .group [(Text.lit "n", .held .int (.int 7)),
    (Text.lit "t", .held .lazy (.lazy (.time .epoch)))])]

theorem transparent_lazyCount :
    Unfolds (.held .int (.int 7)) lazyCount plainCount ∧
    ({ attrs := lazyCount } : Record).encode = ({ attrs := plainCount } : Record).encode ∧
    ({ attrs := lazyCount } : Record).attrData = ({ attrs := plainCount } : Record).attrData ∧
    Filter.activation { attrs := lazyCount } = Filter.activation { attrs := plainCount } ∧
    Json.ofRecord { attrs := lazyCount } = Json.ofRecord { attrs := plainCount } := by
  have h : Unfolds (.held .int (.int 7)) lazyCount plainCount := .inside (.here rfl)
  obtain ⟨hencode, hdata, hfilter, hline⟩ := Unfolds.transparent h {}
  exact ⟨h, hencode, hdata, (hfilter nofun).1, hline nofun⟩

/-- A time in a group that a lazy value gives. -/
def hiddenTime : List Attr :=
  [(Text.lit "g", .held .lazy (.lazy (.map [(.text (Text.lit "t"), .time .epoch)])))]

/-- The time in the group itself. -/
def shownTime : List Attr := [(Text.lit "g", .group [(Text.lit "t", .held .time (.time .epoch))])]

theorem exists_compile_hasTime :
    ∃ p, Filter.Program.compile (Text.lit "has(attrs.g.t)") = .ok p ∧
      Filter.Program.selects (some p) { attrs := hiddenTime } =
        .error (.eval (.noSelection "tuple")) ∧
      Filter.Program.selects (some p) { attrs := shownTime } = .ok true := by
  have h : (Filter.Program.compile (Text.lit "has(attrs.g.t)")).toOption.any (fun p =>
      decide (Filter.Program.selects (some p) { attrs := hiddenTime } =
          .error (.eval (.noSelection "tuple")) ∧
        Filter.Program.selects (some p) { attrs := shownTime } = .ok true)) = true := by
    decide +kernel
  obtain ⟨p, hp, hselects⟩ := exists_of_any_toOption h
  exact ⟨p, hp, of_decide_eq_true hselects⟩

/-- A lazy value that hides a group is noticed by filters, which do not find its members, and in lines of
JSON, where a time among them has another form. -/
theorem not_transparent_of_hiddenTime :
    (∃ w, Unfolds w hiddenTime shownTime) ∧
    (∃ p, Filter.Program.compile (Text.lit "has(attrs.g.t)") = .ok p ∧
      Filter.Program.selects (some p) { attrs := hiddenTime } =
        .error (.eval (.noSelection "tuple")) ∧
      Filter.Program.selects (some p) { attrs := shownTime } = .ok true) ∧
    Json.lines [{ attrs := hiddenTime }] ≠ Json.lines [{ attrs := shownTime }] :=
  ⟨⟨_, .here rfl⟩, exists_compile_hasTime, by decide +kernel⟩

end LogStream
