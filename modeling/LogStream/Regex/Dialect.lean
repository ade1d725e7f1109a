import LogStream.Text.Classes

/-! # The supported dialect

Patterns are refused if they use a construct that cannot be matched in linear time. The check reads a
pattern once from the left and knows escapes and sets, so that a bracket within a set opens nothing. -/

namespace LogStream.Regex

/-- The openings of groups that are refused, and what they are. -/
def refusedGroups : List (String × String) :=
  [("(?=", "lookahead"), ("(?!", "lookahead"), ("(?<=", "lookbehind"), ("(?<!", "lookbehind"),
    ("(?P=", "backreference"), ("(?>", "atomic group"), ("(?(", "conditional group"),
    ("(?#", "comment group")]

/-- A digit that makes an escape a reference to a group. -/
def isReferenceDigit (c : CodePoint) : Bool := c.isDigit && !c.is '0'

/-- How many code points open a set, without those that follow and are members: the bracket, a negation,
and a closing bracket that stands first. -/
def setOpening (r : Text) : Nat :=
  let negation := if (r.take 1).any (·.is '^') then 1 else 0
  let member := if ((r.drop negation).take 1).any (·.is ']') then 1 else 0
  1 + negation + member

/-- The first refused construct from a place on, within a set or outside; `skip` code points are still to
be passed over. -/
def refusedFrom (inSet : Bool) (skip : Nat) : Text → Option String
  | [] => none
  | c :: r =>
    if skip ≠ 0 then refusedFrom inSet (skip - 1) r
    else if c.is '\\' then
      if !inSet && (r.take 1).any isReferenceDigit then some "backreference"
      else refusedFrom inSet 1 r
    else if inSet then refusedFrom (!c.is ']') 0 r
    else if c.is '[' then refusedFrom true (setOpening r - 1) r
    else if c.is '(' then
      match refusedGroups.find? fun g => (Text.lit g.1).isPrefixOf (c :: r) with
      | some g => some g.2
      | none => refusedFrom false 0 r
    else refusedFrom false 0 r

/-- The first construct of a pattern that is refused. -/
def refused? (pattern : Text) : Option String := refusedFrom false 0 pattern

end LogStream.Regex
