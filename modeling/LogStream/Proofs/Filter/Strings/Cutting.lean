import LogStream.Proofs.Filter.Application
import LogStream.Proofs.Filter.Walks
import LogStream.Proofs.Text.Cutting

/-! # Splitting, joining and replacing strings

The pieces of a string joined with the separator are the string, and there are not more of them than the limit says;
a piece holds the separator only if it is the last one that the limit leaves (`exists_pieces`). Joined with another
string they are what replacing gives. A limit that asks for more than `Dyn.maxCuts` cuts ends both in a fault
(`pieces_are_joined`), though no string has so many separators (`not_joined_of_greatLimit`). -/

namespace LogStream.Filter

open Dyn (maxCuts splitText replaceText characters)

/-! ### Pieces -/

section

variable {s sep : Text} {limit : Int} {pieces : List Text}

/-- What is said of the pieces of a string. -/
structure ArePieces (s sep : Text) (limit : Int) (pieces : List Text) : Prop where
  joined : Text.joinWith sep pieces = s
  length_le : 0 < limit → pieces.length ≤ limit
  not_infix : sep ≠ [] → ∀ p ∈ pieces.dropLast, ¬ sep <:+: p
  length_eq : sep ≠ [] → ∀ p ∈ pieces.getLast?, sep <:+: p → pieces.length = limit

/-- The limit asks for more cuts than there may be. -/
def AsksTooMuch (sep : Text) (limit : Int) : Prop := sep ≠ [] ∧ maxCuts < limit - 1

instance (sep : Text) (limit : Int) : Decidable (AsksTooMuch sep limit) := inferInstanceAs (Decidable (_ ∧ _))

/-- Without a separator the pieces are the characters. -/
theorem arePieces_characters (s : Text) (limit : Int) : ArePieces s [] limit (characters limit s) := by
  have hsingle (t : Text) : (t.map fun c => [c]).flatten = t := by
    induction t with
    | nil => rfl
    | cons c t ih => rw [List.map_cons, List.flatten_cons, ih, List.singleton_append]
  refine ⟨?_, fun hpos => ?_, fun h => absurd rfl h, fun h => absurd rfl h⟩
  · rw [Text.joinWith_nil]
    unfold characters
    split
    · rw [List.flatten_append, hsingle, List.flatten_singleton, List.take_append_drop]
    · exact hsingle s
  · unfold characters
    split
    · rw [List.length_append, List.length_map, List.length_take, List.length_singleton]
      omega
    · rw [List.length_map]
      omega

/-- At a separator the string is cut as often as the limit says, which leaves one more piece. -/
theorem arePieces_split (hsep : sep ≠ []) (s : Text) (hlimit : limit ≠ 0) : ArePieces s sep limit
    (Text.split sep (if limit < 0 then none else some (limit.toNat - 1)) s) := by
  refine ⟨Text.joinWith_split_self hsep _ s, fun hpos => ?_, fun _ => Text.not_infix_of_mem_dropLast_split hsep _ s,
    fun _ p hp hinfix => ?_⟩
  · rw [if_neg (by omega)]
    have hlength := Text.length_split_le hsep (some (limit.toNat - 1)) s _ rfl
    omega
  · obtain ⟨n, hn, hlength⟩ := Text.length_split_of_infix hsep _ s p hp hinfix
    split at hn
    · cases hn
    · have hn : limit.toNat - 1 = n := Option.some.inj hn
      omega

/-- **A string is cut into pieces**, unless the limit asks for too much. -/
theorem exists_pieces (s : Text) (hlimit : limit ≠ 0) (hcuts : ¬ AsksTooMuch sep limit) :
    ∃ pieces, splitText s sep limit = .ok pieces ∧ ArePieces s sep limit pieces := by
  unfold splitText
  rw [if_neg hlimit]
  by_cases hsep : sep = []
  · subst hsep
    exact ⟨_, if_pos rfl, arePieces_characters s limit⟩
  · have hpieces := arePieces_split hsep s hlimit
    refine ⟨_, ?_, hpieces⟩
    rw [if_neg hsep]
    by_cases hneg : limit < 0
    · rw [if_pos hneg, if_pos hneg]
    · rw [if_neg hneg, if_neg hneg, if_neg fun h => hcuts ⟨hsep, h⟩]

theorem splitText_of_asksTooMuch (s : Text) (h : AsksTooMuch sep limit) :
    splitText s sep limit = Eval.stop .overflow := by
  obtain ⟨hsep, hcuts⟩ := h
  have hmax : maxCuts = 9223372036854775807 := rfl
  unfold splitText
  rw [if_neg (by omega), if_neg hsep, if_neg (by omega), if_pos hcuts]

/-- What stands between cuts, and what is put there instead: both are limited alike. -/
theorem replaceText_eq (hold : sep ≠ []) (s new : Text) {n : Int} (hn : 0 ≤ n) : replaceText s sep new n =
    (splitText s sep (n + 1)).map (Text.joinWith new) := by
  have hmax : maxCuts = 9223372036854775807 := rfl
  unfold replaceText splitText
  rw [if_neg (by omega : ¬ n + 1 = 0), if_neg hold, if_neg (by omega : ¬ n + 1 < 0), if_neg (by omega : ¬ n < 0),
    Int.add_sub_cancel, show (n + 1).toNat - 1 = n.toNat by omega]
  by_cases hcuts : maxCuts < n
  · rw [if_pos (.inl hcuts), if_pos hcuts]
    rfl
  · rw [if_neg (by omega), if_neg hcuts, ← Text.joinWith_split hold]
    rfl

theorem replaceText_unlimited (hold : sep ≠ []) (s new : Text) : replaceText s sep new (-1) =
    (splitText s sep (-1)).map (Text.joinWith new) := by
  have hnone : splitText s sep (-1) = .ok (Text.split sep none s) := if_neg hold
  have hall : replaceText s sep new (-1) = .ok (Text.replace sep new none s) := rfl
  rw [hnone, hall, ← Text.joinWith_split hold]
  rfl

end

/-! ### Expressions -/

section

variable {env : Activation} {e sep old new : Expr} {ls : List Expr} {s t u : Text} {n limit : Int} {pieces : List Text}

/-- The limit that may stand behind the other arguments; without one it is -1. -/
inductive IsLimit (env : Activation) : List Expr → Int → Prop
  | none : IsLimit env [] (-1)
  | some {l : Expr} {n : Int} (h : eval env l = .ok (.int n)) : IsLimit env [l] n

/-- The call of `split` with a separator and perhaps a limit. -/
def splitCall (pos : Nat) (e sep : Expr) (ls : List Expr) : Expr := .method pos (Text.lit "split") e (sep :: ls)

def joinCall (pos : Nat) (e sep : Expr) : Expr := .method pos (Text.lit "join") e [sep]

/-- The call of `replace` with an old and a new string and perhaps a limit. -/
def replaceCall (pos : Nat) (e old new : Expr) (ls : List Expr) : Expr :=
  .method pos (Text.lit "replace") e (old :: new :: ls)

theorem eval_splitCall (he : eval env e = .ok (.string s)) (hsep : eval env sep = .ok (.string t))
    (hls : IsLimit env ls limit) (pos : Nat) : eval env (splitCall pos e sep ls) =
      called (Text.lit "split") ((splitText s t limit).map fun pieces => .list (pieces.map .string)) := by
  have hname : Builtin.member? (Text.lit "split") = some .split := by decide
  have hsplit : Dyn.split (.string s) (.string t) (.int limit) =
      (splitText s t limit).map fun pieces => .list (pieces.map .string) := by
    change (splitText s t limit >>= fun pieces => _) = _
    cases splitText s t limit <;> rfl
  rw [splitCall, ← hsplit]
  cases hls with
  | none => exact eval_method hname he (evalAll_cons hsep evalAll_nil) pos
  | some hl => exact eval_method hname he (evalAll_cons hsep (evalAll_cons hl evalAll_nil)) pos

theorem eval_replaceCall (he : eval env e = .ok (.string s)) (hold : eval env old = .ok (.string t))
    (hnew : eval env new = .ok (.string u)) (hls : IsLimit env ls n) (pos : Nat) :
    eval env (replaceCall pos e old new ls) =
      called (Text.lit "replace") ((replaceText s t u n).map .string) := by
  have hname : Builtin.member? (Text.lit "replace") = some .replace := by decide
  have hreplace : Dyn.replace (.string s) (.string t) (.string u) (.int n) =
      (replaceText s t u n).map .string := by
    change (replaceText s t u n >>= fun t => _) = _
    cases replaceText s t u n <;> rfl
  rw [replaceCall, ← hreplace]
  cases hls with
  | none => exact eval_method hname he (evalAll_cons hold (evalAll_cons hnew evalAll_nil)) pos
  | some hl => exact eval_method hname he (evalAll_cons hold (evalAll_cons hnew (evalAll_cons hl evalAll_nil))) pos

theorem eval_joinCall (he : eval env e = .ok (.list (pieces.map .string))) (hsep : eval env sep = .ok (.string t))
    (pos : Nat) : eval env (joinCall pos e sep) = .ok (.string (Text.joinWith t pieces)) := by
  have hname : Builtin.member? (Text.lit "join") = some .join := by decide
  have htexts (pieces : List Text) : Dyn.texts? (pieces.map .string) = some pieces := by
    induction pieces with
    | nil => rfl
    | cons p pieces ih =>
      rw [List.map_cons, Dyn.texts?, ih]
      rfl
  have hjoin : Dyn.join (.list (pieces.map .string)) (.string t) = .ok (.string (Text.joinWith t pieces)) := by
    simp only [Dyn.join, htexts]
  rw [joinCall, eval_method hname he (evalAll_cons hsep evalAll_nil)]
  exact congrArg (called _) hjoin

/-- A fault of the pieces is one of the call. -/
theorem eval_joinCall_overflow (he : eval env e = Eval.stop .overflow) (pos : Nat) :
    eval env (joinCall pos e sep) = Eval.stop .overflow :=
  eval_method_of_error he pos

/-- **Replacing does what joining the pieces does**, with one more piece than uses. -/
theorem eval_replaceCall_eq (he : eval env e = .ok (.string s)) (hold : eval env old = .ok (.string t))
    (hnew : eval env new = .ok (.string u)) {ls ls' : List Expr} (hls : IsLimit env ls n) (hls' : IsLimit env ls' limit)
    (hreplace : replaceText s t u n = (splitText s t limit).map (Text.joinWith u))
    (hpieces : splitText s t limit = .ok pieces) (i j k : Nat) :
    SameValue env (replaceCall i e old new ls) (joinCall j (splitCall k e old ls') new) := by
  have hlist : eval env (splitCall k e old ls') = .ok (.list (pieces.map .string)) := by
    rw [eval_splitCall he hold hls', hpieces]
    rfl
  refine ⟨_, ?_, eval_joinCall hlist hnew j⟩
  rw [eval_replaceCall he hold hnew hls, hreplace, hpieces]
  rfl

/-- **Splitting, joining and replacing agree.** With any limit but zero the pieces of a string are joined to the string,
unless the limit asks for too much, which is a fault. Replacing with and without a limit is joining what is left when
the old string is cut out; both end in the same fault if the limit asks for too much. -/
theorem pieces_are_joined (he : eval env e = .ok (.string s)) (hsep : eval env sep = .ok (.string t)) (i j k : Nat) :
    (∀ (l : Expr) (limit : Int), eval env l = .ok (.int limit) → limit ≠ 0 →
      if AsksTooMuch t limit then eval env (joinCall i (splitCall j e sep [l]) sep) = Eval.stop .overflow
      else ∃ pieces, eval env (splitCall j e sep [l]) = .ok (.list (pieces.map .string)) ∧
        ArePieces s t limit pieces ∧ eval env (joinCall i (splitCall j e sep [l]) sep) = .ok (.string s)) ∧
    (t ≠ [] → ∀ (new : Expr) (u : Text), eval env new = .ok (.string u) →
      SameValue env (replaceCall k e sep new []) (joinCall i (splitCall j e sep []) new) ∧
      ∀ (m l : Expr) (n : Int), eval env m = .ok (.int n) → eval env l = .ok (.int (n + 1)) → 0 ≤ n →
        if AsksTooMuch t (n + 1) then
          eval env (replaceCall k e sep new [m]) = Eval.stop .overflow ∧
            eval env (joinCall i (splitCall j e sep [l]) new) = Eval.stop .overflow
        else SameValue env (replaceCall k e sep new [m]) (joinCall i (splitCall j e sep [l]) new)) := by
  have hoverflow {l : Expr} {limit : Int} (hl : eval env l = .ok (.int limit)) (h : AsksTooMuch t limit) :
      eval env (splitCall j e sep [l]) = Eval.stop .overflow := by
    rw [eval_splitCall he hsep (.some hl), splitText_of_asksTooMuch s h]
    rfl
  refine ⟨fun l limit hl hlimit => ?_, fun ht new u hnew => ⟨?_, fun m l n hm hl hn => ?_⟩⟩
  · split
    · next h => exact eval_joinCall_overflow (hoverflow hl h) i
    · next h =>
      obtain ⟨pieces, hpieces, hare⟩ := exists_pieces s hlimit h
      have hlist : eval env (splitCall j e sep [l]) = .ok (.list (pieces.map .string)) := by
        rw [eval_splitCall he hsep (.some hl), hpieces]
        rfl
      refine ⟨pieces, hlist, hare, ?_⟩
      rw [eval_joinCall hlist hsep, hare.joined]
  · have hnone : ¬ AsksTooMuch t (-1) := fun h => absurd h.2 (by decide)
    obtain ⟨pieces, hpieces, -⟩ := exists_pieces s (by decide) hnone
    exact eval_replaceCall_eq he hsep hnew .none .none (replaceText_unlimited ht s u) hpieces k i j
  · have hreplace := replaceText_eq ht s u hn
    split
    · next h =>
      refine ⟨?_, eval_joinCall_overflow (hoverflow hl h) i⟩
      rw [eval_replaceCall he hsep hnew (.some hm), hreplace, splitText_of_asksTooMuch s h]
      rfl
    · next h =>
      obtain ⟨pieces, hpieces, -⟩ := exists_pieces s (by omega) h
      exact eval_replaceCall_eq he hsep hnew (.some hm) (.some hl) hreplace hpieces k i j

end

/-- Of two occurrences that overlap the first is cut out. -/
theorem pieces_are_joined_overlapping :
    (∃ pieces, eval [] (splitCall 0 (.literal 0 (.string (Text.lit "aaa"))) (.literal 0 (.string (Text.lit "aa")))
        [.literal 0 (.int 2)]) = .ok (.list (pieces.map .string)) ∧
      ArePieces (Text.lit "aaa") (Text.lit "aa") 2 pieces ∧
      eval [] (joinCall 0 (splitCall 0 (.literal 0 (.string (Text.lit "aaa"))) (.literal 0 (.string (Text.lit "aa")))
        [.literal 0 (.int 2)]) (.literal 0 (.string (Text.lit "aa")))) = .ok (.string (Text.lit "aaa"))) ∧
    SameValue [] (replaceCall 0 (.literal 0 (.string (Text.lit "aaa"))) (.literal 0 (.string (Text.lit "aa")))
        (.literal 0 (.string (Text.lit "b"))) [.literal 0 (.int 1)])
      (joinCall 0 (splitCall 0 (.literal 0 (.string (Text.lit "aaa"))) (.literal 0 (.string (Text.lit "aa")))
        [.literal 0 (.int 2)]) (.literal 0 (.string (Text.lit "b")))) := by
  have he : eval [] (.literal 0 (.string (Text.lit "aaa"))) = .ok (.string (Text.lit "aaa")) := rfl
  have hsep : eval [] (.literal 0 (.string (Text.lit "aa"))) = .ok (.string (Text.lit "aa")) := rfl
  have h := pieces_are_joined he hsep 0 0 0
  constructor
  · have hpieces := h.1 (.literal 0 (.int 2)) 2 rfl (by decide)
    rwa [if_neg (by decide)] at hpieces
  · have hreplace := (h.2 (by decide) (.literal 0 (.string (Text.lit "b"))) (Text.lit "b") rfl).2
      (.literal 0 (.int 1)) (.literal 0 (.int 2)) 1 rfl rfl (by decide)
    rwa [if_neg (by decide)] at hreplace

/-- A sum that is greater than the integers of 64 bits with a sign, which arithmetic lets pass. -/
def greatLimit : Expr := .binary 0 .add (.literal 0 (.int 9223372036854775807)) (.literal 0 (.int 2))

/-- With that limit there are no pieces to be joined. -/
theorem not_joined_of_greatLimit : eval [] greatLimit = .ok (.int 9223372036854775809) ∧
    eval [] (joinCall 0 (splitCall 0 (.literal 0 (.string (Text.lit "a,b"))) (.literal 0 (.string (Text.lit ",")))
      [greatLimit]) (.literal 0 (.string (Text.lit ",")))) ≠ .ok (.string (Text.lit "a,b")) := by
  have he : eval [] (.literal 0 (.string (Text.lit "a,b"))) = .ok (.string (Text.lit "a,b")) := rfl
  have hsep : eval [] (.literal 0 (.string (Text.lit ","))) = .ok (.string (Text.lit ",")) := rfl
  have hlimit : eval [] greatLimit = .ok (.int 9223372036854775809) := rfl
  refine ⟨hlimit, ?_⟩
  have hsplit := eval_splitCall he hsep (.some hlimit) 0
  rw [splitText_of_asksTooMuch _ (by decide)] at hsplit
  rw [eval_joinCall_overflow hsplit]
  exact nofun

end LogStream.Filter
