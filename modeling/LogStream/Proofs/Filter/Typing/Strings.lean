import LogStream.Filter.Apply
import LogStream.Proofs.Filter.Typing.Basic

/-! # Functions on typed strings

The functions on strings give values of the types of their signatures for strings and integers, and
fail where an offset or a pattern is wrong. -/

namespace LogStream.Filter

open Eval (Sound sound_failShowing)

variable {textless : String → Prop} {s v w x : Dyn} {t : Ty}

/-! ### Strings alone -/

theorem sound_strings1 {name : String} {f : Text → Dyn} (hf : ∀ s, (f s).HasType t)
    (hv : v.HasType .string) : Sound textless (Dyn.HasType · t) (Dyn.strings1 name f v) := by
  cases hv
  exact hf _

theorem sound_strings2 {name : String} {f : Text → Text → Dyn} (hf : ∀ s u, (f s u).HasType t)
    (hv : v.HasType .string) (hw : w.HasType .string) :
    Sound textless (Dyn.HasType · t) (Dyn.strings2 name f v w) := by
  cases hv
  cases hw
  exact hf _ _

theorem sound_integer (hv : v.HasType .int) (name : String) :
    Sound textless (fun _ => True) (Dyn.integer name v) := by
  cases hv
  exact trivial

/-! ### Cutting and joining -/

theorem hasType_strings (ts : List Text) :
    (Dyn.list (ts.map Dyn.string)).HasType (.list .string) := by
  refine .list fun x hx => ?_
  obtain ⟨t, -, rfl⟩ := List.mem_map.mp hx
  exact .string t

theorem sound_splitText (s sep : Text) (n : Int) :
    Sound textless (fun _ => True) (Dyn.splitText s sep n) := by
  unfold Dyn.splitText
  split
  · exact trivial
  split
  · exact trivial
  split
  · exact trivial
  split
  · exact trivial
  · exact trivial

theorem sound_split (hv : v.HasType .string) (hw : w.HasType .string) (hx : x.HasType .int) :
    Sound textless (Dyn.HasType · (.list .string)) (v.split w x) := by
  cases hv with
  | string s =>
    cases hw with
    | string sep =>
      exact (sound_integer hx "split").bind fun n _ =>
        (sound_splitText s sep n).bind fun ts _ => hasType_strings ts

theorem sound_replaceText (s old new : Text) (n : Int) :
    Sound textless (fun _ => True) (Dyn.replaceText s old new n) := by
  unfold Dyn.replaceText
  split
  · exact trivial
  · exact trivial

theorem sound_replace (hs : s.HasType .string) (hv : v.HasType .string) (hw : w.HasType .string)
    (hx : x.HasType .int) : Sound textless (Dyn.HasType · .string) (s.replace v w x) := by
  cases hs with
  | string s =>
    cases hv with
    | string old =>
      cases hw with
      | string new =>
        exact (sound_integer hx "replace").bind fun n _ =>
          (sound_replaceText s old new n).bind fun u _ => .string u

/-- Values that are all strings have texts. -/
theorem exists_texts? : ∀ {xs : List Dyn}, (∀ x ∈ xs, x.HasType .string) →
    ∃ ts, Dyn.texts? xs = some ts
  | [], _ => ⟨[], rfl⟩
  | x :: xs, h => by
    obtain ⟨hx, hxs⟩ := List.forall_mem_cons.mp h
    obtain ⟨ts, hts⟩ := exists_texts? hxs
    cases hx with
    | string t =>
      refine ⟨t :: ts, ?_⟩
      rw [Dyn.texts?, hts]
      rfl

theorem sound_join (hv : v.HasType (.list .string)) (hw : w.HasType .string) :
    Sound textless (Dyn.HasType · .string) (v.join w) := by
  cases hv with
  | list hxs =>
    cases hw with
    | string s =>
      obtain ⟨ts, hts⟩ := exists_texts? hxs
      unfold Dyn.join
      dsimp only
      rw [hts]
      exact .string _

/-! ### Offsets -/

theorem sound_offset (hv : v.HasType .int) (name : String) (length : Nat) :
    Sound textless (fun _ => True) (Dyn.offset name length v) := by
  refine (sound_integer hv name).bind fun n _ => ?_
  split
  · exact trivial
  · exact sound_failShowing _ trivial

theorem sound_charAt (hv : v.HasType .string) (hw : w.HasType .int) :
    Sound textless (Dyn.HasType · .string) (v.charAt w) := by
  cases hv with
  | string s => exact (sound_offset hw "charAt" s.length).bind fun n _ => .string _

theorem sound_indexOf (hv : v.HasType .string) (hw : w.HasType .string) (hx : x.HasType .int) :
    Sound textless (Dyn.HasType · .int) (v.indexOf w x) := by
  cases hv with
  | string s =>
    cases hw
    exact (sound_offset hx "indexOf" s.length).bind fun n _ => .int _

theorem sound_lastIndexOf (hv : v.HasType .string) (hw : w.HasType .string)
    (hx : x = .null ∨ x.HasType .int) :
    Sound textless (Dyn.HasType · .int) (v.lastIndexOf w x) := by
  cases hv with
  | string s =>
    cases hw
    rcases hx with rfl | hx
    · exact .int _
    · cases hx with
      | int n => exact (sound_offset (.int n) "lastIndexOf" s.length).bind fun n _ => .int _

theorem sound_substring (hv : v.HasType .string) (hw : w.HasType .int)
    (hx : x = .null ∨ x.HasType .int) :
    Sound textless (Dyn.HasType · .string) (v.substring w x) := by
  cases hv with
  | string s =>
    have hpart : ∀ a b : Int, Sound textless (Dyn.HasType · .string)
        (if Dyn.inOrder s.length a b then Except.ok (Dyn.string ((s.take b.toNat).drop a.toNat))
          else Dyn.failRange a b (.substringOutOfRange a b)) := by
      intro a b
      split
      · exact .string _
      · exact sound_failShowing _ trivial
    refine (sound_integer hw "substring").bind fun a _ => ?_
    rcases hx with rfl | hx
    · exact hpart a s.length
    · cases hx with
      | int b => exact hpart a b

/-! ### Patterns -/

theorem search_ne_wrongType {p t : Text} : Regex.search p t ≠ .error (.fault .wrongType) := by
  unfold Regex.search
  split
  · nofun
  split <;> nofun

theorem sound_isMatch (hv : v.HasType .string) (hw : w.HasType .string) :
    Sound textless (Dyn.HasType · .bool) (v.isMatch w) := by
  cases hv
  cases hw
  unfold Dyn.isMatch
  dsimp only
  split
  · exact .bool _
  · exact trivial
  · exact trivial
  · next f hf =>
    cases f with
    | wrongType => exact absurd hf search_ne_wrongType
    | _ => exact trivial

end LogStream.Filter
