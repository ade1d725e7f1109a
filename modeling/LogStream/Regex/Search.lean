import LogStream.Fault
import LogStream.Regex.Dialect
import LogStream.Regex.Matcher
import LogStream.Regex.Parser

/-! # Searching

A text is searched for a match of a pattern at any of its places. A pattern that opens with a set is tried
only in front of code points that the set holds under the options of the whole pattern; under the options of
a group the set may hold others, and those are passed over. -/

namespace LogStream.Regex

/-- Why no search is made. -/
inductive SearchError
  /-- The pattern uses a construct that is refused. -/
  | unsupported (construct : String)
  | malformed
  | fault (f : Fault)
deriving DecidableEq, Repr

/-! ### Opening sets -/

/-- A member of a set differs from others in case alone, or may do so. -/
def SetItem.hasCase (o : Options) : SetItem → Bool
  | char c => o.hasCase c
  | range low high =>
    !isBasic high || (List.range' low.val (high.val + 1 - low.val)).any fun n => o.hasCase (CodePoint.ofNat n)
  | category _ _ => false

/-- The set that a pattern opens with. A set in which case matters is none where case is ignored. -/
def Pattern.openingSet? : Options → Pattern → Option (Bool × List SetItem)
  | o, single (.set negated items) =>
    if o.ignoreCase && items.any (·.hasCase o) then none else some (negated, items)
  | o, seq p _ => p.openingSet? o
  | o, capture _ p => p.openingSet? o
  | o, under added removed p => p.openingSet? (o.change added removed)
  | _, _ => none

namespace Parsed

/-- A match may start in front of a text: no set opens the pattern, or it holds the next code point. -/
def mayStart (r : Parsed) (opening : Option (Bool × List SetItem)) (t : Text) : Bool :=
  match opening with
  | none => true
  | some (negated, items) => (t.take 1).any fun x => items.any (·.holds r.options.ascii x) != negated

/-- The pattern matches at a place. -/
def matchesAt (r : Parsed) (s : Cursor) : Bool := (r.pattern.run r.widthOf r.options s some).isSome

/-- The pattern matches at a place where a match may start, or at a later one. -/
def matchesFrom (r : Parsed) (mayStart : Text → Bool) (before : Text) (offset : Nat) : Text → Bool
  | [] => mayStart [] && r.matchesAt ⟨before, [], offset, []⟩
  | c :: rest =>
    (mayStart (c :: rest) && r.matchesAt ⟨before, c :: rest, offset, []⟩) ||
      matchesFrom r mayStart (c :: before) (offset + 1) rest

/-- The pattern matches somewhere in a text. -/
def isFoundIn (r : Parsed) (t : Text) : Bool :=
  r.matchesFrom (r.mayStart (r.pattern.openingSet? r.options)) [] 0 t

end Parsed

/-- A text has a match of a pattern. -/
def search (pattern t : Text) : Except SearchError Bool :=
  match refused? pattern with
  | some construct => .error (.unsupported construct)
  | none =>
    match parse pattern with
    | .ok r => .ok (r.isFoundIn t)
    | .error .malformed => .error .malformed
    | .error .overflow => .error (.fault .overflow)
    | .error .badValue => .error (.fault .badValue)

end LogStream.Regex
