import LogStream.Regex.Single

/-! # Matching

A pattern is matched at a place in a text and goes on with what has to match behind it. What is tried first
counts: earlier alternatives before later ones, and repetitions in the order of their greed. A repetition
that has matched nothing is not tried again, so the length of the text bounds how often a pattern is
repeated beyond the least number. -/

namespace LogStream.Regex

/-- A part of a text: the text from its start on, and its length. -/
structure Span where
  start : Text
  length : Nat
deriving DecidableEq

/-- The text of a span. -/
def Span.text (s : Span) : Text := s.start.take s.length

/-- A place in a text, and what the groups have matched on the way to it. -/
structure Cursor where
  /-- The text before the place, its last code point first. -/
  before : Text
  rest : Text
  /-- The length of the text before the place. -/
  offset : Nat
  /-- The groups that have matched, the latest first. -/
  groups : List (Nat × Span)

namespace Cursor

/-- The place in front of a text. -/
def ofText (t : Text) : Cursor := ⟨[], t, 0, []⟩

/-- The place behind the next code point, which has to be of a class. -/
def step? (p : CodePoint → Bool) (s : Cursor) : Option Cursor :=
  match s.rest with
  | [] => none
  | c :: rest => if p c then some { s with before := c :: s.before, rest, offset := s.offset + 1 } else none

/-- The place behind the next code points, which have to be of classes in turn. -/
def steps? : List (CodePoint → Bool) → Cursor → Option Cursor
  | [], s => some s
  | p :: ps, s => (s.step? p).bind (steps? ps)

/-- The place some code points back, if there are so many. -/
def back? (n : Nat) (s : Cursor) : Option Cursor :=
  if n ≤ s.offset then
    some { s with
      before := s.before.drop n, rest := (s.before.take n).reverse ++ s.rest, offset := s.offset - n }
  else none

/-- What a group has matched last. -/
def group? (s : Cursor) (n : Nat) : Option Text := (s.groups.lookup n).map Span.text

/-- Notes that a group has matched from another place to this one. -/
def close (s : Cursor) (n : Nat) (start : Cursor) : Cursor :=
  { s with groups := (n, ⟨start.rest, s.offset - start.offset⟩) :: s.groups }

end Cursor

/-- The anchor holds at a place. An empty text has no word boundary, and no place
beside one either. -/
def Anchor.holds (o : Options) (s : Cursor) : Anchor → Bool
  | start => s.before.isEmpty || (o.multiline && (s.before.take 1).any (·.is '\n'))
  | stop =>
    s.rest.isEmpty || ((o.multiline || s.rest.length == 1) && (s.rest.take 1).any (·.is '\n'))
  | textStart => s.before.isEmpty
  | textEnd => s.rest.isEmpty
  | boundary => atWordEdge? == some true
  | notBoundary => atWordEdge? == some false
where
  isWordAt (t : Text) : Bool := (t.take 1).any (Category.word.holds o.ascii)
  atWordEdge? : Option Bool :=
    if s.before.isEmpty && s.rest.isEmpty then none
    else some (isWordAt s.before != isWordAt s.rest)

/-! ### Repetitions -/

/-- How a pattern is matched: from a place, and with what has to match behind it. -/
abbrev Step := Cursor → (Cursor → Option Cursor) → Option Cursor

/-- The first answer, or else the second. -/
def orElse (a : Option Cursor) (b : Unit → Option Cursor) : Option Cursor :=
  match a with
  | some s => some s
  | none => b ()

/-- How often something is repeated. -/
structure Bounds where
  least : Nat
  most : Option Nat

namespace Bounds

/-- One more repetition is allowed at a place, after some that ended or began at another. -/
def allows (b : Bounds) (count : Nat) (last : Option Nat) (s : Cursor) : Bool :=
  b.most.all (count < ·) && last != some s.offset

/-- As many repetitions as can be, then fewer. -/
def greedily (b : Bounds) (step : Step) (k : Cursor → Option Cursor) :
    Nat → Nat → Option Nat → Cursor → Option Cursor
  | 0, _, _, _ => none
  | fuel + 1, count, last, s =>
    if count < b.least then step s (greedily b step k fuel (count + 1) last)
    else if b.allows count last s then
      orElse (step s (greedily b step k fuel (count + 1) (some s.offset))) fun _ => k s
    else k s

/-- As few repetitions as can be, then more. -/
def lazily (b : Bounds) (step : Step) (k : Cursor → Option Cursor) :
    Nat → Nat → Option Nat → Cursor → Option Cursor
  | 0, _, _, _ => none
  | fuel + 1, count, last, s =>
    if count < b.least then step s (lazily b step k fuel (count + 1) last)
    else orElse (k s) fun _ =>
      if b.allows count last s then step s (lazily b step k fuel (count + 1) (some s.offset)) else none

/-- The place behind as many repetitions as can be, each matched for itself. -/
def possessively (b : Bounds) (step : Step) : Nat → Nat → Option Nat → Cursor → Option Cursor
  | 0, _, _, _ => none
  | fuel + 1, count, last, s =>
    if count < b.least then (step s some).bind (possessively b step fuel (count + 1) last)
    else if b.allows count last s then
      match step s some with
      | some t => possessively b step fuel (count + 1) (some s.offset) t
      | none => some s
    else some s

/-- More steps than repetitions can take. -/
def fuel (b : Bounds) (s : Cursor) : Nat := b.least + s.rest.length + 2

end Bounds

/-! ### Patterns -/

/-- Matches a pattern at a place, under options, and then what has to match behind it. -/
def Pattern.run (widths : Nat → Width) : Options → Pattern → Step
  | _, empty, s, k => k s
  | o, single x, s, k => (s.step? (x.accepts o)).bind k
  | o, anchor a, s, k => if a.holds o s then k s else none
  | o, seq p q, s, k => p.run widths o s fun s => q.run widths o s k
  | o, alt p q, s, k => orElse (p.run widths o s k) fun _ => q.run widths o s k
  | o, capture n p, s, k => p.run widths o s fun t => k (t.close n s)
  | o, under added removed p, s, k => p.run widths (o.change added removed) s k
  | o, repeated greed least most p, s, k =>
    let b : Bounds := ⟨least, most⟩
    match greed with
    | .greedy => b.greedily (p.run widths o) k (b.fuel s) 0 none s
    | .lazy => b.lazily (p.run widths o) k (b.fuel s) 0 none s
    | .possessive => (b.possessively (p.run widths o) (b.fuel s) 0 none s).bind k
  | o, look behind negated p, s, k =>
    let start := if behind then s.back? (p.width widths).least else some s
    match start.bind fun t => p.run widths o t some, negated with
    | some t, false => k { s with groups := t.groups }
    | none, true => k s
    | _, _ => none
  | o, atomic p, s, k => (p.run widths o s some).bind k
  | o, backref n, s, k =>
    (s.group? n).bind fun t =>
      let sameAs (c x : CodePoint) : Bool := if o.ignoreCase then o.fold c = o.fold x else c = x
      (s.steps? (t.map sameAs)).bind k
  | o, conditional n p q, s, k =>
    if (s.groups.lookup n).isSome then p.run widths o s k else q.run widths o s k

end LogStream.Regex
