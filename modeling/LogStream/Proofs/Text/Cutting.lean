import Mathlib
import LogStream.Text.Search

/-! # Searching and cutting

A text occurs at a place if it is the part of the other one that starts there (`OccursAt`). The search from a place
on gives the least place of an occurrence (`find?_spec`), and the search up to a place the greatest one
(`findLast?_spec`).

A text is cut at the occurrences of a separator from the left (`split_append`, `split_cons`), and so all that is said
of the pieces goes by what stands at the front of the text (`cutting_induction`). Joined with another text the pieces
are what replacing gives (`joinWith_split`), and joined with the separator they are the text again
(`joinWith_split_self`). A piece holds the separator only if it is the last one and no cut is left
(`not_infix_of_mem_dropLast_split`, `length_split_of_infix`). -/

namespace LogStream.Text

/-! ### Occurrences -/

section

variable {sub s : Text} {k i : Nat}

/-- The text is the part of the other one that starts at a place. -/
def OccursAt (sub s : Text) (i : Nat) : Prop := i + sub.length ≤ s.length ∧ (s.drop i).take sub.length = sub

theorem occursAt_iff (h : i ≤ s.length) : occursAt sub s i = true ↔ OccursAt sub s i := by
  unfold occursAt OccursAt
  rw [List.isPrefixOf_iff_prefix, List.prefix_iff_eq_take, eq_comm]
  constructor
  · intro htake
    refine ⟨?_, htake⟩
    have hlength := congrArg List.length htake
    rw [List.length_take, List.length_drop] at hlength
    omega
  · exact And.right

/-- **A search through places in some order gives the first one of an occurrence.** -/
theorem search_spec (sub : Text) {R : Nat → Nat → Prop} {places : List Nat} {p : Nat → Prop}
    (horder : places.Pairwise R) (hmem : ∀ j, j ∈ places ↔ p j ∧ j ≤ s.length) :
    match places.find? (occursAt sub s) with
    | some i => (p i ∧ OccursAt sub s i) ∧ ∀ j, p j → OccursAt sub s j → j = i ∨ R i j
    | none => ∀ j, p j → ¬ OccursAt sub s j := by
  have hplace {j : Nat} (hp : p j) (hj : OccursAt sub s j) : j ∈ places ∧ occursAt sub s j = true := by
    have hle : j ≤ s.length := Nat.le_trans (Nat.le_add_right _ _) hj.1
    exact ⟨(hmem j).mpr ⟨hp, hle⟩, (occursAt_iff hle).mpr hj⟩
  split
  · next i hfound =>
    obtain ⟨hi, front, back, rfl, hfront⟩ := List.find?_eq_some_iff_append.mp hfound
    obtain ⟨hp, hle⟩ := (hmem i).mp (List.mem_append_right _ List.mem_cons_self)
    refine ⟨⟨hp, (occursAt_iff hle).mp hi⟩, fun j hpj hj => ?_⟩
    obtain ⟨hj, hoccurs⟩ := hplace hpj hj
    rcases List.mem_append.mp hj with hj | hj
    · have hno := hfront j hj
      simp [hoccurs] at hno
    · rcases List.mem_cons.mp hj with rfl | hj
      · exact .inl rfl
      · exact .inr (List.rel_of_pairwise_cons (List.pairwise_append.mp horder).2.1 hj)
  · next hnone =>
    intro j hpj hj
    obtain ⟨hj, hoccurs⟩ := hplace hpj hj
    exact List.find?_eq_none.mp hnone j hj hoccurs

/-- **The search from a place on gives the least place of an occurrence.** -/
theorem find?_spec (sub s : Text) (k : Nat) : match find? sub s k with
    | some i => IsLeast {j | k ≤ j ∧ OccursAt sub s j} i
    | none => {j | k ≤ j ∧ OccursAt sub s j} = ∅ := by
  have hmem (j : Nat) : j ∈ (List.range (s.length + 1)).drop k ↔ k ≤ j ∧ j ≤ s.length := by
    rw [List.range_eq_range', List.drop_range', List.mem_range'_1]
    omega
  have hspec := search_spec sub List.pairwise_lt_range.drop hmem
  change match find? sub s k with | some i => _ | none => _ at hspec
  split at hspec
  · exact ⟨hspec.1, fun j ⟨hkj, hj⟩ => (hspec.2 j hkj hj).elim (fun h => Nat.le_of_eq h.symm) Nat.le_of_lt⟩
  · exact Set.eq_empty_iff_forall_notMem.mpr fun j ⟨hkj, hj⟩ => hspec j hkj hj

/-- **The search up to a place gives the greatest place of an occurrence.** -/
theorem findLast?_spec (sub s : Text) (k : Nat) : match findLast? sub s k with
    | some i => IsGreatest {j | j ≤ k ∧ OccursAt sub s j} i
    | none => {j | j ≤ k ∧ OccursAt sub s j} = ∅ := by
  have hmem (j : Nat) : j ∈ ((List.range (s.length + 1)).take (k + 1)).reverse ↔ j ≤ k ∧ j ≤ s.length := by
    rw [List.mem_reverse, List.take_range, List.mem_range]
    omega
  have hspec := search_spec sub (List.pairwise_reverse.mpr List.pairwise_lt_range.take) hmem
  change match findLast? sub s k with | some i => _ | none => _ at hspec
  split at hspec
  · exact ⟨hspec.1, fun j ⟨hjk, hj⟩ => (hspec.2 j hjk hj).elim Nat.le_of_eq Nat.le_of_lt⟩
  · exact Set.eq_empty_iff_forall_notMem.mpr fun j ⟨hjk, hj⟩ => hspec j hjk hj

end

variable {sep old new s r t : Text} {limit : Option Nat} {c : CodePoint} {pieces : List Text} {n : Nat}

/-! ### One step of a cut -/

theorem splitFrom_eq : ∀ (s : Text) (skip : Nat), splitFrom sep limit skip s = split sep limit (s.drop skip)
  | [], skip => by
    rw [List.drop_nil]
    rfl
  | _ :: _, 0 => rfl
  | c :: r, skip + 1 => by
    rw [splitFrom, if_pos (Nat.succ_ne_zero _), List.drop_succ_cons]
    exact splitFrom_eq r skip

theorem replaceFrom_eq : ∀ (s : Text) (skip : Nat),
    replaceFrom old new limit skip s = replaceFrom old new limit 0 (s.drop skip)
  | [], skip => by
    rw [List.drop_nil]
    rfl
  | _ :: _, 0 => rfl
  | c :: r, skip + 1 => by
    rw [replaceFrom, if_pos (Nat.succ_ne_zero _), List.drop_succ_cons]
    exact replaceFrom_eq r skip

/-- There is a use left, and the text stands at the front. -/
def Starts (sep : Text) (limit : Option Nat) (s : Text) : Prop := useLeft limit = true ∧ sep <+: s

theorem starts_iff : (useLeft limit && sep.isPrefixOf s) = true ↔ Starts sep limit s := by
  rw [Bool.and_eq_true, List.isPrefixOf_iff_prefix, Starts]

theorem split_append (hsep : sep ≠ []) (huse : useLeft limit = true) (r : Text) :
    split sep limit (sep ++ r) = [] :: split sep (afterUse limit) r := by
  obtain ⟨c, sep, rfl⟩ := List.exists_cons_of_ne_nil hsep
  have hstarts : Starts (c :: sep) limit (c :: (sep ++ r)) := ⟨huse, List.prefix_append (c :: sep) r⟩
  rw [split, List.cons_append, splitFrom, if_neg (fun h => h rfl), if_pos (starts_iff.mpr hstarts), splitFrom_eq,
    List.length_cons, Nat.add_sub_cancel, List.drop_left]

theorem split_cons (h : ¬ Starts sep limit (c :: r)) : split sep limit (c :: r) = consHead c (split sep limit r) := by
  rw [split, splitFrom, if_neg (fun h => h rfl), if_neg (mt starts_iff.mp h)]
  rfl

theorem replace_append (hold : old ≠ []) (huse : useLeft limit = true) (r : Text) :
    replace old new limit (old ++ r) = new ++ replace old new (afterUse limit) r := by
  unfold replace
  rw [if_neg hold, if_neg hold]
  obtain ⟨c, old, rfl⟩ := List.exists_cons_of_ne_nil hold
  have hstarts : Starts (c :: old) limit (c :: (old ++ r)) := ⟨huse, List.prefix_append (c :: old) r⟩
  rw [List.cons_append, replaceFrom, if_neg (fun h => h rfl), if_pos (starts_iff.mpr hstarts), replaceFrom_eq,
    List.length_cons, Nat.add_sub_cancel, List.drop_left]

theorem replace_cons (hold : old ≠ []) (h : ¬ Starts old limit (c :: r)) :
    replace old new limit (c :: r) = c :: replace old new limit r := by
  unfold replace
  rw [if_neg hold, if_neg hold, replaceFrom, if_neg (fun h => h rfl), if_neg (mt starts_iff.mp h)]

/-- **Induction over the cuts of a text**: at its front stands a separator that is cut out, or a code point that is
kept. -/
theorem cutting_induction {motive : Option Nat → Text → Prop} (hsep : sep ≠ []) (nil : ∀ limit, motive limit [])
    (cut : ∀ limit r, useLeft limit = true → motive (afterUse limit) r → motive limit (sep ++ r))
    (keep : ∀ limit c r, ¬ Starts sep limit (c :: r) → motive limit r → motive limit (c :: r))
    (limit : Option Nat) (s : Text) : motive limit s := by
  induction hlength : s.length using Nat.strong_induction_on generalizing limit s with
  | h k ih =>
    by_cases hstarts : Starts sep limit s
    · obtain ⟨huse, r, rfl⟩ := hstarts
      have hpos := List.length_pos_iff.mpr hsep
      rw [List.length_append] at hlength
      exact cut limit r huse (ih r.length (by omega) _ r rfl)
    · cases s with
      | nil => exact nil limit
      | cons c r =>
        rw [List.length_cons] at hlength
        exact keep limit c r hstarts (ih r.length (by omega) limit r rfl)

/-! ### Joining the pieces -/

theorem consHead_ne_nil (c : CodePoint) (pieces : List Text) : consHead c pieces ≠ [] := by
  cases pieces <;> exact List.cons_ne_nil _ _

theorem length_consHead (h : pieces ≠ []) : (consHead c pieces).length = pieces.length := by
  cases pieces with
  | nil => exact absurd rfl h
  | cons p pieces => rfl

theorem split_ne_nil (sep : Text) (limit : Option Nat) : ∀ s : Text, split sep limit s ≠ []
  | [] => List.cons_ne_nil _ _
  | c :: r => by
    rw [split, splitFrom, if_neg (fun h => h rfl)]
    split
    · exact List.cons_ne_nil _ _
    · exact consHead_ne_nil _ _

theorem joinWith_nil_cons (h : pieces ≠ []) : joinWith t ([] :: pieces) = t ++ joinWith t pieces := by
  obtain ⟨p, pieces, rfl⟩ := List.exists_cons_of_ne_nil h
  rfl

theorem joinWith_consHead (h : pieces ≠ []) : joinWith t (consHead c pieces) = c :: joinWith t pieces := by
  match pieces, h with
  | [p], _ => rfl
  | p :: q :: pieces, _ => rfl

theorem joinWith_nil : ∀ (pieces : List Text), joinWith [] pieces = pieces.flatten
  | [] => rfl
  | [p] => (List.append_nil p).symm
  | p :: q :: pieces => by
    change p ++ [] ++ joinWith [] (q :: pieces) = p ++ (q :: pieces).flatten
    rw [List.append_nil, joinWith_nil (q :: pieces)]

/-- **The pieces joined with a text are what comes of putting it for the separator.** -/
theorem joinWith_split (hold : old ≠ []) (new : Text) (limit : Option Nat) (s : Text) :
    joinWith new (split old limit s) = replace old new limit s := by
  induction limit, s using cutting_induction hold with
  | nil limit =>
    unfold replace
    rw [if_neg hold]
    rfl
  | cut limit r huse ih =>
    rw [split_append hold huse, replace_append hold huse, joinWith_nil_cons (split_ne_nil _ _ r), ih]
  | keep limit c r hstarts ih =>
    rw [split_cons hstarts, replace_cons hold hstarts, joinWith_consHead (split_ne_nil _ _ r), ih]

theorem joinWith_split_self (hsep : sep ≠ []) (limit : Option Nat) (s : Text) :
    joinWith sep (split sep limit s) = s := by
  induction limit, s using cutting_induction hsep with
  | nil limit => rfl
  | cut limit r huse ih => rw [split_append hsep huse, joinWith_nil_cons (split_ne_nil _ _ r), ih]
  | keep limit c r hstarts ih => rw [split_cons hstarts, joinWith_consHead (split_ne_nil _ _ r), ih]

/-! ### The pieces themselves -/

/-- No more cuts are made than there may be. -/
theorem length_split_le (hsep : sep ≠ []) (limit : Option Nat) (s : Text) :
    ∀ n, limit = some n → (split sep limit s).length ≤ n + 1 := by
  induction limit, s using cutting_induction hsep with
  | nil limit => exact fun n _ => Nat.le_add_left 1 n
  | cut limit r huse ih =>
    rintro n rfl
    have hn : n ≠ 0 := bne_iff_ne.mp huse
    have hrest := ih (n - 1) rfl
    rw [split_append hsep huse, List.length_cons]
    omega
  | keep limit c r hstarts ih =>
    rw [split_cons hstarts, length_consHead (split_ne_nil _ _ r)]
    exact ih

theorem eq_zero_of_not_useLeft (h : ¬ useLeft limit = true) : limit = some 0 := by
  cases limit with
  | none => exact absurd rfl h
  | some n =>
    have hn : n = 0 := by simpa [useLeft] using h
    rw [hn]

/-- The first piece stands at the front of the text. -/
theorem head_split_prefix (hsep : sep ≠ []) (limit : Option Nat) (s : Text) :
    ∀ p ∈ (split sep limit s).head?, p <+: s := by
  induction limit, s using cutting_induction hsep with
  | nil limit =>
    rintro p ⟨⟩
    exact List.prefix_rfl
  | cut limit r huse ih =>
    rw [split_append hsep huse]
    rintro p ⟨⟩
    exact List.nil_prefix
  | keep limit c r hstarts ih =>
    obtain ⟨q, pieces, hsplit⟩ := List.exists_cons_of_ne_nil (split_ne_nil sep limit r)
    rw [hsplit] at ih
    rw [split_cons hstarts, hsplit]
    rintro p ⟨⟩
    exact List.cons_prefix_cons.mpr ⟨rfl, ih q rfl⟩

/-- A code point in front makes no separator, where the text does not start with one. -/
theorem infix_of_infix_cons (hstarts : ¬ Starts sep limit (c :: r)) (huse : useLeft limit = true) (ht : t <+: r)
    (h : sep <:+: c :: t) : sep <:+: t := by
  rcases List.infix_cons_iff.mp h with hprefix | hinfix
  · exact absurd ⟨huse, hprefix.trans (List.cons_prefix_cons.mpr ⟨rfl, ht⟩)⟩ hstarts
  · exact hinfix

/-- **No piece but the last one holds the separator.** -/
theorem not_infix_of_mem_dropLast_split (hsep : sep ≠ []) (limit : Option Nat) (s : Text) :
    ∀ p ∈ (split sep limit s).dropLast, ¬ sep <:+: p := by
  induction limit, s using cutting_induction hsep with
  | nil limit => exact List.forall_mem_nil _
  | cut limit r huse ih =>
    rw [split_append hsep huse, List.dropLast_cons_of_ne_nil (split_ne_nil _ _ r)]
    exact List.forall_mem_cons.mpr ⟨fun h => hsep (List.infix_nil.mp h), ih⟩
  | keep limit c r hstarts ih =>
    have hhead := head_split_prefix hsep limit r
    have hlength := length_split_le hsep limit r
    rw [split_cons hstarts]
    match hsplit : split sep limit r, split_ne_nil sep limit r with
    | [q], _ => exact List.forall_mem_nil _
    | q :: q' :: pieces, _ =>
      rw [hsplit] at ih hhead hlength
      obtain ⟨hq, hpieces⟩ := List.forall_mem_cons.mp ih
      -- There are two pieces, and so there was a use left.
      have huse : useLeft limit = true := by
        by_contra huse
        have hle := hlength 0 (eq_zero_of_not_useLeft huse)
        simp at hle
      exact List.forall_mem_cons.mpr ⟨fun h => hq (infix_of_infix_cons hstarts huse (hhead q rfl) h), hpieces⟩

/-- **The last piece holds the separator only if no cut is left.** -/
theorem length_split_of_infix (hsep : sep ≠ []) (limit : Option Nat) (s : Text) :
    ∀ p ∈ (split sep limit s).getLast?, sep <:+: p → ∃ n, limit = some n ∧ (split sep limit s).length = n + 1 := by
  induction limit, s using cutting_induction hsep with
  | nil limit =>
    rintro p ⟨⟩ h
    exact absurd (List.infix_nil.mp h) hsep
  | cut limit r huse ih =>
    intro p hp h
    rw [split_append hsep huse, List.getLast?_cons_of_ne_nil (split_ne_nil _ _ r)] at hp
    obtain ⟨n, hn, hlength⟩ := ih p hp h
    cases limit with
    | none => cases hn
    | some m =>
      have hm : m ≠ 0 := bne_iff_ne.mp huse
      have hmn : m - 1 = n := Option.some.inj hn
      refine ⟨m, rfl, ?_⟩
      rw [split_append hsep huse, List.length_cons]
      omega
  | keep limit c r hstarts ih =>
    have hhead := head_split_prefix hsep limit r
    rw [split_cons hstarts, length_consHead (split_ne_nil _ _ r)]
    match hsplit : split sep limit r, split_ne_nil sep limit r with
    | [q], _ =>
      rw [hsplit] at ih hhead
      rintro p ⟨⟩ h
      by_cases huse : useLeft limit = true
      · exact ih q rfl (infix_of_infix_cons hstarts huse (hhead q rfl) h)
      · exact ⟨0, eq_zero_of_not_useLeft huse, rfl⟩
    | q :: q' :: pieces, _ =>
      rw [hsplit] at ih
      exact ih

end LogStream.Text
