import LogStream.Value.Resolve

/-! # Merging attributes

Attributes are put into a mapping one after the other, later ones in the place of earlier ones with the
same key. A group is merged on its own first; an empty one is dropped, and one with an empty key is put
into the mapping member by member. Other attributes with an empty key are dropped. A lazy value that
fails stops the merge and leaves what was put in before it. -/

namespace LogStream

/-- A mapping after a merge, and the failure that stopped it if one did. -/
structure Merged where
  attrs : List Attr
  error : Option ResolveError := none

/-- A value that is no group put under a key, unless that is empty. -/
def putPlain (target : List Attr) (key : Text) (v : Value) : List Attr :=
  if key = [] then target else Attrs.put target key v

/-- The members of a group put under its key, or each under its own where the key is empty. -/
def putGroup (target : List Attr) (key : Text) (members : List Attr) : List Attr :=
  if members = [] then target
  else if key = [] then Attrs.putAll target members
  else Attrs.put target key (.group members)

mutual

/-- Puts one attribute into a mapping. -/
def mergeOne (target : List Attr) (key : Text) : Settled → Merged
  | .empty => ⟨putPlain target key .empty, none⟩
  | .held kind d => ⟨putPlain target key (.held kind d), none⟩
  | .foreign name => ⟨putPlain target key (.foreign name), none⟩
  | .failed e => ⟨target, some e⟩
  | .group ms =>
    let inner := mergeSettled [] ms
    match inner.error with
    | some e => ⟨target, some e⟩
    | none => ⟨putGroup target key inner.attrs, none⟩
termination_by structural s => s

/-- Puts attributes into a mapping one after the other. -/
def mergeSettled (target : List Attr) : List (Text × Settled) → Merged
  | [] => ⟨target, none⟩
  | (k, s) :: ms =>
    let first := mergeOne target k s
    match first.error with
    | some e => ⟨first.attrs, some e⟩
    | none => mergeSettled first.attrs ms
termination_by structural ms => ms

end

/-- Merges attributes into a mapping. -/
def mergeAttrs (target attrs : List Attr) : Merged :=
  mergeSettled target (Value.settleMembers attrs)

/-- Merges attributes into a mapping, unless a lazy value fails. -/
def merge? (target attrs : List Attr) : Except ResolveError (List Attr) :=
  let m := mergeAttrs target attrs
  match m.error with
  | some e => .error e
  | none => .ok m.attrs

end LogStream
