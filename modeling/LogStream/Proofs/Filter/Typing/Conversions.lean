import LogStream.Proofs.Filter.Typing.Operators
import LogStream.Proofs.Filter.Typing.Strings

/-! # Conversions of typed values

The functions named like types give values of these types, or fail where a value is out of range or
not written as asked. Not all values have a text: a list, a map, a null and an optional value have
none (`Ty.textless?`), and where a template shows a value only an optional part has none
(`sound_formatText`). -/

namespace LogStream.Filter

open Eval (Sound sound_failShowing)

variable {textless : String → Prop} {v w : Dyn} {t : Ty}

/-! ### Numbers -/

/-- The types of what converts to an integer. -/
def isWhole (t : Ty) : Prop := t = .int ∨ t = .uint ∨ t = .double ∨ t = .string ∨ t = .timestamp

theorem sound_wholeNumber (hv : v.HasType t) (ht : isWhole t) :
    Sound textless (fun _ => True) v.wholeNumber := by
  cases hv with
  | int => exact trivial
  | uint => exact trivial
  | double x =>
    unfold Dyn.wholeNumber
    dsimp only
    split <;> exact trivial
  | string u => exact Sound.elim trivial fun _ _ => trivial
  | timestamp => exact trivial
  | _ => simp [isWhole] at ht

theorem sound_signed (hv : v.HasType t) (ht : isWhole t) :
    Sound textless (fun _ => True) v.signed := by
  refine (sound_wholeNumber hv ht).bind fun n _ => ?_
  split <;> exact trivial

theorem sound_toInt (hv : v.HasType t) (ht : isWhole t) :
    Sound textless (Dyn.HasType · .int) v.toInt :=
  (sound_signed hv ht).bind fun n _ => .int n

theorem sound_unsigned (hv : v.HasType t) (ht : isWhole t) (hne : t ≠ .timestamp) :
    Sound textless (fun _ => True) v.unsigned := by
  have hsigned : Sound textless (fun _ => True) v.signed := sound_signed hv ht
  cases hv with
  | timestamp => exact absurd rfl hne
  | int n | uint n =>
    unfold Dyn.unsigned
    dsimp only
    split
    · exact trivial
    · exact hsigned
  | _ => exact hsigned

theorem sound_toUint (hv : v.HasType t) (ht : isWhole t) (hne : t ≠ .timestamp) :
    Sound textless (Dyn.HasType · .uint) v.toUint := by
  refine (sound_unsigned hv ht hne).bind fun n _ => ?_
  split
  · exact .uint n
  · exact trivial

theorem sound_ofNumber (x : Number) : Sound textless (fun _ => True) (Dyn.ofNumber x) := by
  cases x with
  | int n => exact Sound.elim trivial fun _ _ => trivial
  | double x => exact trivial

theorem sound_toDouble (hv : v.HasType t) (ht : t = .int ∨ t = .uint ∨ t = .double ∨ t = .string) :
    Sound textless (Dyn.HasType · .double) v.toDouble := by
  cases hv with
  | int n => exact (sound_ofNumber (.int n)).map fun _ _ => .double _
  | uint n => exact (sound_ofNumber (.int n)).map fun _ _ => .double _
  | double x => exact .double x
  | string u => exact Sound.elim trivial fun _ _ => .double _
  | _ => simp at ht

/-! ### Text and bytes -/

/-- The name of a type whose values have no text. -/
def Ty.textless? : Ty → Option String
  | null => some "null_type"
  | list _ => some "list"
  | map _ _ => some "map"
  | optional _ => some "optional"
  | _ => none

theorem sound_text (hv : v.HasType t) (h : ∀ n ∈ t.textless?, textless n) :
    Sound textless (fun _ => True) v.text := by
  have hnone : ∀ n ∈ t.textless?,
      EvalFailure.Excused textless (.error (.noOverload "string" [n])) :=
    fun n hn => ⟨rfl, n, h n hn, rfl⟩
  cases hv with
  | bool => exact trivial
  | int n | uint n =>
    unfold Dyn.text
    dsimp only
    split <;> exact trivial
  | double => exact trivial
  | string => exact trivial
  | bytes => exact Sound.elim trivial fun _ _ => trivial
  | timestamp => exact Sound.elim trivial fun _ _ => trivial
  | duration => exact trivial
  | null => exact hnone "null_type" rfl
  | list => exact hnone "list" rfl
  | map => exact hnone "map" rfl
  | none | some => exact hnone "optional" rfl

theorem sound_toText (hv : v.HasType t) (h : ∀ n ∈ t.textless?, textless n) :
    Sound textless (Dyn.HasType · .string) v.toText :=
  (sound_text hv h).map fun u _ => .string u

theorem sound_utf8 (u : Text) : Sound textless (fun _ => True) (Dyn.utf8 u) :=
  Sound.elim trivial fun _ _ => trivial

theorem sound_toBytes (hv : v.HasType t) (ht : t = .string ∨ t = .bytes) :
    Sound textless (Dyn.HasType · .bytes) v.toBytes := by
  cases hv with
  | string u => exact (sound_utf8 u).map fun bs _ => .bytes bs
  | bytes bs => exact .bytes bs
  | _ => simp at ht

theorem sound_encodeBase64 (hv : v.HasType .bytes) :
    Sound textless (Dyn.HasType · .string) v.encodeBase64 := by
  cases hv
  exact .string _

theorem sound_decodeBase64 (hv : v.HasType .string) :
    Sound textless (Dyn.HasType · .bytes) v.decodeBase64 := by
  cases hv
  unfold Dyn.decodeBase64
  dsimp only
  split
  · exact Sound.elim trivial fun bs _ => .bytes bs
  · exact trivial

/-! ### Truth values -/

theorem sound_toBool (hv : v.HasType t) : Sound textless (Dyn.HasType · .bool) v.toBool := by
  cases hv with
  | bool b => exact .bool b
  | string u => exact Sound.elim trivial fun b _ => .bool b
  | _ => exact sound_failShowing _ trivial

/-! ### Times -/

/-- A text is read as a time in UTC. -/
theorem offset_of_read {u : Text} {time : Time} (h : Iso.read u = .ok time) :
    time.offset.isSome = true := by
  unfold Iso.read at h
  split at h
  · cases h
  split at h
  · cases h
  split at h
  · cases h
  split at h
  · cases h
  · next hu =>
    cases h
    rw [offset_of_ofWall? hu]
    rfl

theorem sound_readTimestamp (u : Text) :
    Sound textless (fun time => time.offset.isSome = true) (Dyn.readTimestamp u) := by
  unfold Dyn.readTimestamp
  split
  · next h => exact offset_of_read h
  · exact trivial
  · exact trivial
  · exact trivial

theorem sound_toTimestamp (hv : v.HasType t) (ht : t = .string ∨ t = .timestamp ∨ t = .int) :
    Sound textless (Dyn.HasType · .timestamp) v.toTimestamp := by
  cases hv with
  | timestamp h => exact .timestamp h
  | int n => exact Sound.elim trivial fun _ hu => hasType_of_ofWall? rfl hu
  | string u => exact (sound_readTimestamp u).map fun _ h => .timestamp h
  | _ => simp at ht

theorem sound_toDuration (hv : v.HasType t) (ht : t = .string ∨ t = .duration) :
    Sound textless (Dyn.HasType · .duration) v.toDuration := by
  cases hv with
  | duration d => exact .duration d
  | string u =>
    have hread : Sound textless (fun _ => True) (Dyn.readDuration u) := by
      unfold Dyn.readDuration
      split <;> exact trivial
    exact hread.map fun d _ => .duration d
  | _ => simp at ht

theorem offset_ne_wrongType {negative : Bool} {h m : Int} :
    Zone.offset negative h m ≠ .error .wrongType := by
  unfold Zone.offset
  dsimp only
  split
  · nofun
  split
  · nofun
  split <;> nofun

theorem readOffset_ne_wrongType {negative : Bool} {u : Text} :
    Zone.readOffset negative u ≠ .error .wrongType := by
  unfold Zone.readOffset
  dsimp only
  split
  · exact offset_ne_wrongType
  · nofun

theorem read_ne_wrongType {u : Text} : Zone.read u ≠ .error (.fault .wrongType) := by
  unfold Zone.read
  split
  · nofun
  split
  · split
    · nofun
    · next f hf =>
      intro h
      cases h
      exact readOffset_ne_wrongType hf
  split <;> nofun

theorem sound_zone (hv : v = .null ∨ v.HasType .string) :
    Sound textless (fun _ => True) v.zone := by
  rcases hv with rfl | hv
  · exact trivial
  · cases hv with
    | string u =>
      cases u with
      | nil => exact trivial
      | cons c r =>
        unfold Dyn.zone
        dsimp only
        split
        · exact trivial
        · exact trivial
        · next f hf =>
          cases f with
          | wrongType => exact absurd hf read_ne_wrongType
          | _ => exact trivial

theorem sound_timePart (part : Time → Nat) (hv : v.HasType .timestamp)
    (hw : w = .null ∨ w.HasType .string) :
    Sound textless (Dyn.HasType · .int) (Dyn.timePart part v w) := by
  cases hv with
  | timestamp =>
    refine (sound_zone hw).bind fun m _ => ?_
    split
    · exact .int _
    · exact trivial

/-! ### Formatting -/

/-- The items of a list that have texts have them all. -/
theorem sound_formatTexts : ∀ {xs : List Dyn},
    (∀ x ∈ xs, Sound textless (fun _ => True) (Dyn.formatText true x)) →
    Sound textless (fun _ => True) (Dyn.formatTexts xs)
  | [], _ => trivial
  | _ :: _, h => by
    obtain ⟨hx, hxs⟩ := List.forall_mem_cons.mp h
    exact hx.bind fun _ _ => (sound_formatTexts hxs).bind fun _ _ => trivial

theorem sound_formatEntries : ∀ {es : List (Dyn × Dyn)},
    (∀ e ∈ es, Sound textless (fun _ => True) (Dyn.formatText true e.1)) →
    (∀ e ∈ es, Sound textless (fun _ => True) (Dyn.formatText true e.2)) →
    Sound textless (fun _ => True) (Dyn.formatEntries es)
  | [], _, _ => trivial
  | (_, _) :: _, hkeys, hcontents => by
    obtain ⟨hk, hks⟩ := List.forall_mem_cons.mp hkeys
    obtain ⟨hc, hcs⟩ := List.forall_mem_cons.mp hcontents
    exact hk.bind fun _ _ => hc.bind fun _ _ =>
      (sound_formatEntries hks hcs).bind fun _ _ => trivial

/-- Some part of the type is that of optional values. -/
def Ty.hasOptional : Ty → Bool
  | optional _ => true
  | list e => e.hasOptional
  | map k v => k.hasOptional || v.hasOptional
  | _ => false

/-- A value is shown if no part of it is optional. By induction on the value, whose type says where
optional parts may be. -/
theorem sound_formatText (hv : v.HasType t) (h : t.hasOptional = true → textless "optional")
    (nested : Bool) : Sound textless (fun _ => True) (Dyn.formatText nested v) := by
  induction hv generalizing nested with
  | null => exact trivial
  | double => exact trivial
  | string => exact trivial
  | bool b => exact trivial
  | list _ ih => exact (sound_formatTexts fun x hx => ih x hx h true).bind fun _ _ => trivial
  | map _ _ _ ihkeys ihcontents =>
    refine (sound_formatEntries (fun e he => ihkeys e he (fun hk => h ?_) true) fun e he =>
      ihcontents e he (fun hc => h ?_) true).bind fun _ _ => trivial
    · exact Bool.or_eq_true_iff.mpr (.inl hk)
    · exact Bool.or_eq_true_iff.mpr (.inr hc)
  | int n => exact sound_text (.int n) nofun
  | uint n => exact sound_text (.uint n) nofun
  | bytes bs => exact sound_text (.bytes bs) nofun
  | timestamp hz => exact sound_text (.timestamp hz) nofun
  | duration d => exact sound_text (.duration d) nofun
  | none e => exact sound_text (.none e) fun n hn => Option.some.inj hn ▸ h rfl
  | some hc => exact sound_text (.some hc) fun n hn => Option.some.inj hn ▸ h rfl

theorem sound_integerText (verb : CodePoint) (base : Nat) (v : Dyn) :
    Sound textless (fun _ => True) (Dyn.integerText verb base v) := by
  unfold Dyn.integerText
  dsimp only
  split
  · split <;> exact trivial
  · split
    · exact (sound_utf8 _).map fun _ _ => trivial
    · exact trivial
  · split <;> exact trivial
  · exact trivial

theorem sound_clauseText (hv : v.HasType t)
    (h : t.hasOptional = true → textless "optional") (c : Dyn.Clause) (verb : CodePoint)
    (style : Dyn.Style) :
    Sound textless (fun _ => True) (c.text verb style v) := by
  cases style with
  | shown => exact sound_formatText hv h false
  | integer base => exact sound_integerText verb base v
  | double scientific =>
    unfold Dyn.Clause.text
    dsimp only
    split
    · exact trivial
    · next x _ =>
      have hplaces : Sound textless (fun _ => True) c.places := by
        unfold Dyn.Clause.places
        split
        · exact trivial
        · exact Sound.elim trivial fun _ _ => trivial
      have hdouble : ∀ (n : Nat) (y : Double),
          Sound textless (fun _ => True) (Dyn.doubleText scientific n y) := by
        intro n y
        unfold Dyn.doubleText
        split
        · exact trivial
        split <;> exact trivial
      exact (sound_ofNumber x).bind fun y _ => hplaces.bind fun n _ => hdouble n y

/-- A template is filled in, clause by clause. -/
theorem sound_fillFrom (h : t.hasOptional = true → textless "optional") :
    ∀ (u : Text) (used skip : Nat) {args : List Dyn}, (∀ v ∈ args, v.HasType t) →
    Sound textless (fun _ => True) (Dyn.fillFrom used skip args u)
  | [], _, _, _, _ => trivial
  | c :: r, used, skip, args, hargs => by
    rw [Dyn.fillFrom]
    split
    · exact sound_fillFrom h r used (skip - 1) hargs
    split
    · dsimp only
      split
      · exact (sound_fillFrom h r used _ hargs).bind fun _ _ => trivial
      split
      · exact trivial
      · exact trivial
      · next verb style arg rest _ =>
        obtain ⟨harg, hrest⟩ := List.forall_mem_cons.mp hargs
        exact (sound_clauseText harg h _ verb style).bind fun _ _ =>
          (sound_fillFrom h r (used + 1) _ hrest).bind fun _ _ => trivial
    · exact (sound_fillFrom h r used 0 hargs).bind fun _ _ => trivial

theorem sound_format (hv : v.HasType .string) (hw : w.HasType (.list t))
    (h : t.hasOptional = true → textless "optional") :
    Sound textless (Dyn.HasType · .string) (v.format w) := by
  cases hv with
  | string u =>
    cases hw with
    | list hxs => exact (sound_fillFrom h u 0 0 hxs).bind fun s _ => .string s

end LogStream.Filter
