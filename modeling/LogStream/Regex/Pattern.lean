import LogStream.Text.Basic

/-! # Patterns

The tree of a pattern, the options under which it is matched, and how long its matches can be. -/

namespace LogStream.Regex

/-! ### Options -/

/-- How a pattern is read and matched. -/
structure Options where
  ignoreCase : Bool := false
  multiline : Bool := false
  dotAll : Bool := false
  verbose : Bool := false
  ascii : Bool := false
  unicode : Bool := false
  /-- An option under which nothing may be repeated. -/
  template : Bool := false
deriving DecidableEq, Repr

namespace Options

/-- The options that are in both. -/
def both (o p : Options) : Options where
  ignoreCase := o.ignoreCase && p.ignoreCase
  multiline := o.multiline && p.multiline
  dotAll := o.dotAll && p.dotAll
  verbose := o.verbose && p.verbose
  ascii := o.ascii && p.ascii
  unicode := o.unicode && p.unicode
  template := o.template && p.template

/-- The options of either. -/
def either (o p : Options) : Options where
  ignoreCase := o.ignoreCase || p.ignoreCase
  multiline := o.multiline || p.multiline
  dotAll := o.dotAll || p.dotAll
  verbose := o.verbose || p.verbose
  ascii := o.ascii || p.ascii
  unicode := o.unicode || p.unicode
  template := o.template || p.template

/-- The options of the first without those of the second. -/
def without (o p : Options) : Options where
  ignoreCase := o.ignoreCase && !p.ignoreCase
  multiline := o.multiline && !p.multiline
  dotAll := o.dotAll && !p.dotAll
  verbose := o.verbose && !p.verbose
  ascii := o.ascii && !p.ascii
  unicode := o.unicode && !p.unicode
  template := o.template && !p.template

/-- One of the options that say what a letter is. -/
def hasAlphabet (o : Options) : Bool := o.ascii || o.unicode

/-- The options within a group that adds and removes some: a new alphabet takes the place of the old
one. -/
def change (o added removed : Options) : Options :=
  let o := if added.hasAlphabet then { o with ascii := false, unicode := false } else o
  (o.either added).without removed

/-- The option of a letter. -/
def ofLetter? (c : CodePoint) : Option Options :=
  if c.is 'i' then some { ignoreCase := true }
  else if c.is 'm' then some { multiline := true }
  else if c.is 's' then some { dotAll := true }
  else if c.is 'x' then some { verbose := true }
  else if c.is 'a' then some { ascii := true }
  else if c.is 'u' then some { unicode := true }
  else if c.is 't' then some { template := true }
  else none

end Options

/-! ### Trees -/

/-- A class of code points. -/
inductive Category
  | digit
  | space
  | word
deriving DecidableEq, Repr

/-- A member of a set. -/
inductive SetItem
  | char (c : CodePoint)
  | range (low high : CodePoint)
  | category (kind : Category) (negated : Bool)
deriving DecidableEq

/-- What matches exactly one code point. -/
inductive Single
  | any
  | char (c : CodePoint)
  | notChar (c : CodePoint)
  | set (negated : Bool) (items : List SetItem)
deriving DecidableEq

/-- A condition on a place in the text. -/
inductive Anchor
  /-- The start of the text, or of a line. -/
  | start
  /-- The end of the text, before its last line end, or the end of a line. -/
  | stop
  | textStart
  | textEnd
  | boundary
  | notBoundary
deriving DecidableEq, Repr

/-- In which order repetitions are tried: the most first, the fewest first, or the most alone. -/
inductive Greed
  | greedy
  | lazy
  | possessive
deriving DecidableEq, Repr

/-- A pattern. -/
inductive Pattern
  | empty
  | single (s : Single)
  | anchor (a : Anchor)
  | seq (p q : Pattern)
  | alt (p q : Pattern)
  | capture (group : Nat) (p : Pattern)
  /-- A pattern under changed options. -/
  | under (added removed : Options) (p : Pattern)
  /-- Repetitions; without a greatest number there may be any. -/
  | repeated (greed : Greed) (least : Nat) (most : Option Nat) (p : Pattern)
  | look (behind negated : Bool) (p : Pattern)
  /-- A pattern of which only the first match counts. -/
  | atomic (p : Pattern)
  | backref (group : Nat)
  /-- The first pattern if the group has matched, else the second. -/
  | conditional (group : Nat) (yes no : Pattern)
deriving DecidableEq

namespace Pattern

/-- Patterns one after the other. -/
def ofList : List Pattern → Pattern
  | [] => empty
  | [p] => p
  | p :: ps => seq p (ofList ps)

/-- Patterns of which the earlier ones are tried first. -/
def ofAlternatives : List Pattern → Pattern
  | [] => empty
  | [p] => p
  | p :: ps => alt p (ofAlternatives ps)

end Pattern

/-! ### Widths -/

/-- The least and the greatest length of a match; without a greatest one there is no bound. -/
structure Width where
  least : Nat
  most : Option Nat
deriving DecidableEq, Repr

namespace Width

def exactly (n : Nat) : Width := ⟨n, some n⟩

def add (a b : Width) : Width := ⟨a.least + b.least, do return (← a.most) + (← b.most)⟩

/-- The widths of either. -/
def union (a b : Width) : Width :=
  ⟨min a.least b.least, do return max (← a.most) (← b.most)⟩

/-- The width of repetitions. -/
def times (a : Width) (least : Nat) (most : Option Nat) : Width :=
  ⟨a.least * least,
    match most with
    | none => if a.most = some 0 then some 0 else none
    | some n => if n = 0 then some 0 else a.most.map (· * n)⟩

/-- The greatest length that can be looked back. -/
def maxLookback : Nat := 0xFFFFFFFF

/-- All matches have one length, which is not too great to look back. -/
def isFixed (a : Width) : Bool := a.most == some a.least && a.least ≤ maxLookback

end Width

namespace Pattern

/-- The width of a pattern, from those of its groups. -/
def width (groups : Nat → Width) : Pattern → Width
  | empty => .exactly 0
  | single _ => .exactly 1
  | anchor _ => .exactly 0
  | seq p q => (p.width groups).add (q.width groups)
  | alt p q => (p.width groups).union (q.width groups)
  | capture _ p => p.width groups
  | under _ _ p => p.width groups
  | repeated _ least most p => (p.width groups).times least most
  | look _ _ _ => .exactly 0
  | atomic p => p.width groups
  | backref n => groups n
  | conditional _ p q => (p.width groups).union (q.width groups)

/-- Every pattern that is looked for behind a place has one width, and nothing is repeated under the option
that forbids it. -/
def isSound (groups : Nat → Width) (o : Options) : Pattern → Bool
  | empty => true
  | single _ => true
  | anchor _ => true
  | seq p q => p.isSound groups o && q.isSound groups o
  | alt p q => p.isSound groups o && q.isSound groups o
  | capture _ p => p.isSound groups o
  | under added removed p => p.isSound groups (o.change added removed)
  | repeated _ _ _ p => !o.template && p.isSound groups o
  | look behind _ p => (!behind || (p.width groups).isFixed) && p.isSound groups o
  | atomic p => p.isSound groups o
  | backref _ => true
  | conditional _ p q => p.isSound groups o && q.isSound groups o

end Pattern

end LogStream.Regex
