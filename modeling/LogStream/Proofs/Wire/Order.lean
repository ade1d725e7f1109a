import Mathlib.Data.List.Nodup
import Mathlib.Order.Defs.LinearOrder
import LogStream.Proofs.Wire.Message

/-! # The order of entries

Entries are written in the order of their keys, which is that of the bytes of these. So as long as no key
stands twice, what is written does not depend on the order in which entries stand in a message, at any
level (`Member.Fits.toBytes_ordered`, `RecordMessage.toBytes_of_perm`). -/

namespace LogStream

/-! ### The order of bytes -/

namespace Bytes

theorem compare_eq_compareLex : ∀ a b : Bytes,
    Bytes.compare a b = List.compareLex (compareOn UInt8.toNat) a b
  | [], [] => rfl
  | [], _ :: _ => rfl
  | _ :: _, [] => rfl
  | x :: a, y :: b => by
    rw [Bytes.compare, List.compareLex_cons_cons, compare_eq_compareLex a b]
    rfl

/-- One string of bytes stands before another or is the same. -/
def le (a b : Bytes) : Bool := (Bytes.compare a b).isLE

theorem le_trans {a b c : Bytes} (hab : le a b = true) (hbc : le b c = true) : le a c = true := by
  unfold le at *
  rw [compare_eq_compareLex] at *
  exact Std.TransCmp.isLE_trans hab hbc

theorem compare_swap (a b : Bytes) : (Bytes.compare a b).swap = Bytes.compare b a := by
  rw [compare_eq_compareLex, compare_eq_compareLex]
  exact Std.OrientedCmp.eq_swap.symm

theorem le_total (a b : Bytes) : (le a b || le b a) = true := by
  unfold le
  rw [← compare_swap a b]
  cases Bytes.compare a b <;> rfl

theorem eq_of_compare : ∀ {a b : Bytes}, Bytes.compare a b = .eq → a = b
  | [], [], _ => rfl
  | x :: a, y :: b, h => by
    obtain ⟨hxy, hab⟩ := Ordering.then_eq_eq.mp h
    rw [UInt8.toNat_inj.mp (Nat.compare_eq_eq.mp hxy), eq_of_compare hab]

theorem le_antisymm {a b : Bytes} (hab : le a b = true) (hba : le b a = true) : a = b := by
  unfold le at *
  rw [← compare_swap a b] at hba
  refine eq_of_compare ?_
  cases hc : Bytes.compare a b with
  | eq => rfl
  | lt => rw [hc] at hba; cases hba
  | gt => rw [hc] at hab; cases hab

end Bytes

theorem Utf8.encodeAll_inj {s t : Text} (hs : (Utf8.encode? s).isSome)
    (ht : (Utf8.encode? t).isSome) (h : Utf8.encodeAll s = Utf8.encodeAll t) : s = t := by
  have hdecode := decode?_encodeAll hs
  rw [h, decode?_encodeAll ht] at hdecode
  exact (Option.some.inj hdecode).symm

namespace Wire

/-! ### Entries -/

/-- **Entries with distinct keys are written in one way**, whatever their order. -/
theorem mapBytes_perm (number : Nat) {es es' : List (Bytes × Bytes)} (hp : es.Perm es')
    (hn : (es.map Prod.fst).Nodup) : mapBytes number es = mapBytes number es' := by
  let before (a b : Bytes × Bytes) : Bool := Bytes.le a.1 b.1
  have hsorted : ∀ l : List (Bytes × Bytes),
      (l.mergeSort before).Pairwise fun a b => before a b = true :=
    List.pairwise_mergeSort (fun _ _ _ => Bytes.le_trans) fun _ _ => Bytes.le_total _ _
  have hperm : (es.mergeSort before).Perm (es'.mergeSort before) :=
    (List.mergeSort_perm es before).trans (hp.trans (List.mergeSort_perm es' before).symm)
  have heq : es.mergeSort before = es'.mergeSort before := by
    refine List.Perm.eq_of_pairwise (fun a b ha hb hab hba => ?_) (hsorted es) (hsorted es') hperm
    have ha : a ∈ es := List.mem_mergeSort.mp ha
    have hb : b ∈ es := hp.mem_iff.mpr (List.mem_mergeSort.mp hb)
    exact List.inj_on_of_nodup_map hn ha hb (Bytes.le_antisymm hab hba)
  exact congrArg (List.flatMap fun e => Field.ofBytes number (entryBytes e.1 e.2)) heq

theorem map_fst_entries (as : List (Text × Member)) :
    (Member.entries as).map Prod.fst = (as.map Prod.fst).map Utf8.encodeAll := by
  rw [Member.entries_eq_map, List.map_map, List.map_map]
  rfl

theorem nodup_entries {as : List (Text × Member)} (hn : (as.map Prod.fst).Nodup)
    (hk : ∀ a ∈ as, (Utf8.encode? a.1).isSome) : ((Member.entries as).map Prod.fst).Nodup := by
  have hkeys : ∀ k ∈ as.map Prod.fst, (Utf8.encode? k).isSome := List.forall_mem_map.mpr hk
  rw [map_fst_entries]
  exact List.Nodup.map_on (fun k hk' l hl h => Utf8.encodeAll_inj (hkeys k hk') (hkeys l hl) h) hn

theorem entries_perm {as as' : List (Text × Member)} (h : as.Perm as') :
    (Member.entries as).Perm (Member.entries as') := by
  rw [Member.entries_eq_map, Member.entries_eq_map]
  exact h.map _

theorem entries_inOrder_perm {as : List (Text × Member)}
    (h : ∀ a ∈ as, a.2.ordered.toBytes = a.2.toBytes) :
    (Member.entries (inOrder as)).Perm (Member.entries as) := by
  have hsame : Member.entries (as.map fun a => (a.1, a.2.ordered)) = Member.entries as := by
    rw [Member.entries_eq_map, Member.entries_eq_map, List.map_map]
    exact List.map_congr_left fun a ha => congrArg (Prod.mk _) (h a ha)
  exact hsame ▸ entries_perm (inOrder_perm as)

/-- **A member is written as it is with its attributes in order.** -/
theorem Member.Fits.toBytes_ordered {m : Member} (h : m.Fits) : m.ordered.toBytes = m.toBytes := by
  induction h with
  | @group as hn hk _ ih =>
    have ho : (Member.group as).ordered = .group (inOrder as) := rfl
    rw [ho, Member.toBytes, Member.toBytes,
      mapBytes_perm 1 (entries_inOrder_perm ih).symm (nodup_entries hn hk)]
  | _ => rfl

/-- **A record is written in one way**, whatever the order of its attributes and of those of its
groups. -/
theorem RecordMessage.toBytes_of_perm {m : RecordMessage} {as : List (Text × Member)}
    (hp : as.Perm (inOrder m.attrs)) (hn : (m.attrs.map Prod.fst).Nodup)
    (hk : ∀ a ∈ m.attrs, (Utf8.encode? a.1).isSome) (hm : ∀ a ∈ m.attrs, a.2.Fits) :
    ({ m with attrs := as } : RecordMessage).toBytes = m.toBytes := by
  have hentries : (Member.entries as).Perm (Member.entries m.attrs) :=
    (entries_perm hp).trans (entries_inOrder_perm fun a ha => (hm a ha).toBytes_ordered)
  unfold toBytes
  rw [mapBytes_perm 4 hentries.symm (nodup_entries hn hk)]

end Wire

end LogStream
