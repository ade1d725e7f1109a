import LogStream.Text.Identifier
import LogStream.Text.Numeral
import LogStream.Regex.Pattern

/-! # Reading patterns

A pattern is read from the left as a sequence of lexemes, a lexeme being one code point or a backslash with
the code point behind it. The fuel bounds the depth of the calls; twice the length of the pattern is
enough. -/

namespace LogStream.Regex

/-- Why a text is no pattern. -/
inductive PatternError
  | malformed
  /-- A number in the pattern is too great. -/
  | overflow
  /-- A number is too long to be read, or the options contradict one another. -/
  | badValue
deriving DecidableEq, Repr

/-- A code point alone, or behind a backslash. -/
inductive Lexeme
  | plain (c : CodePoint)
  | escaped (c : CodePoint)
deriving DecidableEq

/-- What is known while a pattern is read. -/
structure Reading where
  rest : Text
  /-- The options of the pattern as a whole. -/
  options : Options := {}
  names : List (Text × Nat) := []
  /-- The widths of the groups, none while a group is open. -/
  widths : List (Option Width) := []
  /-- How many groups there were before the outermost look behind that is open, counted from one. -/
  behind : Option Nat := none
  /-- The groups that conditions ask about by number. -/
  conditions : List Nat := []
  /-- The code points that have names. -/
  named : Text → Option CodePoint := fun _ => none

/-- What a rule gives: a result and what is known behind it. -/
abbrev Read (α : Type) := Except PatternError (α × Reading)

def malformed {α : Type} : Except PatternError α := .error .malformed

namespace Reading

/-! ### Lexemes -/

/-- The next lexeme, none at the end. -/
def peek (s : Reading) : Option Lexeme :=
  match s.rest with
  | [] => none
  | [c] => some (.plain c)
  | c :: d :: _ => some (if c.is '\\' then .escaped d else .plain c)

/-- The next lexeme is the given character. -/
def isAt (s : Reading) (ch : Char) : Bool :=
  match s.peek with
  | some (.plain c) => c.is ch
  | _ => false

/-- Passes over a lexeme; a backslash alone may not be next. -/
def next (s : Reading) : Except PatternError Reading :=
  let rest := match s.peek with
    | some (.escaped _) => s.rest.drop 2
    | _ => s.rest.drop 1
  if rest = [CodePoint.ofChar '\\'] then malformed else .ok { s with rest }

/-- Takes the next lexeme, which has to be there. -/
def get (s : Reading) : Except PatternError (Lexeme × Reading) :=
  match s.peek with
  | some l => do return (l, ← s.next)
  | none => malformed

/-- Passes over the given character, if it is next. -/
def accept (s : Reading) (ch : Char) : Except PatternError (Bool × Reading) :=
  if s.isAt ch then do return (true, ← s.next) else .ok (false, s)

/-- Passes over the given character. -/
def expect (s : Reading) (ch : Char) : Except PatternError Reading :=
  if s.isAt ch then s.next else malformed

/-- Takes up to `n` characters of a class. -/
def takeUpTo (p : CodePoint → Bool) : Nat → Reading → Except PatternError (Text × Reading)
  | 0, s => .ok ([], s)
  | n + 1, s =>
    match s.peek with
    | some (.plain c) =>
      if p c then do
        let (t, s) ← takeUpTo p n (← s.next)
        return (c :: t, s)
      else .ok ([], s)
    | _ => .ok ([], s)

/-- Takes what comes before a closing character, and passes over that. -/
def takeUntil (close : Char) : Nat → Reading → Except PatternError (Text × Reading)
  | 0, _ => malformed
  | fuel + 1, s => do
    let (l, s) ← s.get
    match l with
    | .plain c =>
      if c.is close then return ([], s)
      else
        let (t, s) ← takeUntil close fuel s
        return (c :: t, s)
    | .escaped c =>
      let (t, s) ← takeUntil close fuel s
      return (CodePoint.ofChar '\\' :: c :: t, s)

/-- Takes a name before a closing character. -/
def takeName (s : Reading) (close : Char) : Except PatternError (Text × Reading) := do
  let (name, s) ← takeUntil close (s.rest.length + 1) s
  if Text.isName name then return (name, s) else malformed

/-! ### Groups -/

/-- The number of the next group. -/
def groups (s : Reading) : Nat := s.widths.length + 1

/-- The group has been closed. -/
def isClosed (s : Reading) (group : Nat) : Bool :=
  group != 0 && (s.widths[group - 1]?).any Option.isSome

/-- A group may be asked about here: behind a place only groups that were closed before count. -/
def mayAsk (s : Reading) (group : Nat) : Bool :=
  s.behind.all fun n => s.isClosed group && group < n

/-- Opens a group, which may have a new name. -/
def openGroup (s : Reading) (name : Option Text) : Except PatternError (Nat × Reading) :=
  let n := s.groups
  let s := { s with widths := s.widths ++ [none] }
  match name with
  | none => .ok (n, s)
  | some name =>
    if (s.names.lookup name).isSome then malformed
    else .ok (n, { s with names := (name, n) :: s.names })

/-- The width of a group. -/
def widthOf (s : Reading) (group : Nat) : Width :=
  ((s.widths[group - 1]?).getD none).getD (.exactly 0)

/-- Closes a group around a pattern. -/
def closeGroup (s : Reading) (group : Nat) (p : Pattern) : Reading :=
  { s with widths := s.widths.set (group - 1) (some (p.width s.widthOf)) }

/-- A reference to a closed group. -/
def reference (s : Reading) (group : Nat) : Except PatternError Pattern :=
  if s.isClosed group && s.mayAsk group then .ok (.backref group) else malformed

end Reading

/-! ### Escapes -/

/-- The letters of escapes for control characters, and their code points. -/
def controlEscapes : List (Char × Nat) :=
  [('a', 7), ('f', 12), ('n', 10), ('r', 13), ('t', 9), ('v', 11), ('\\', 92)]

/-- The class of a letter; a capital stands for all else. -/
def category? (c : CodePoint) : Option SetItem :=
  if c.is 'd' then some (.category .digit false)
  else if c.is 'D' then some (.category .digit true)
  else if c.is 's' then some (.category .space false)
  else if c.is 'S' then some (.category .space true)
  else if c.is 'w' then some (.category .word false)
  else if c.is 'W' then some (.category .word true)
  else none

/-- The anchor of a letter. -/
def anchor? (c : CodePoint) : Option Anchor :=
  if c.is 'A' then some .textStart
  else if c.is 'b' then some .boundary
  else if c.is 'B' then some .notBoundary
  else if c.is 'Z' then some .textEnd
  else none

/-- A code point by its number, if there is one. -/
def codePoint (n : Nat) : Except PatternError CodePoint :=
  if n < 0x110000 then .ok (CodePoint.ofNat n)
  else if n < 0x80000000 then malformed
  else .error .overflow

/-- The code point of exactly `n` digits in base sixteen. -/
def readHex (s : Reading) (n : Nat) : Except PatternError (CodePoint × Reading) := do
  let (t, s) ← s.takeUpTo CodePoint.isHexDigit n
  if t.length = n then
    return (← codePoint (Text.numberOf 16 (t.map fun c => c.hexValue?.getD 0)), s)
  else malformed

/-- The number of octal digits. -/
def octal (t : Text) : Nat := Text.numberOf 8 (t.map fun c => c.val - 48)

/-- The code point of octal digits, which has to fit a byte. -/
def octalPoint (t : Text) : Except PatternError CodePoint :=
  if octal t ≤ 0xFF then .ok (CodePoint.ofNat (octal t)) else malformed

/-- The code point of a name between braces. -/
def readCharacterName (s : Reading) : Except PatternError (CodePoint × Reading) := do
  let t ← s.expect '\x7b'
  let (name, t) ← Reading.takeUntil '\x7d' (t.rest.length + 1) t
  match s.named name with
  | some c => return (c, t)
  | none => malformed

/-- The code point of an escape that means the same within sets and outside, apart from digits. -/
def readPlainEscape (s : Reading) (c : CodePoint) : Except PatternError (CodePoint × Reading) :=
  match controlEscapes.find? fun e => c.is e.1 with
  | some e => .ok (CodePoint.ofNat e.2, s)
  | none =>
    if c.is 'x' then readHex s 2
    else if c.is 'u' then readHex s 4
    else if c.is 'U' then readHex s 8
    else if c.is 'N' then readCharacterName s
    else if c.isAsciiLetter then malformed
    else .ok (c, s)

/-- The member that an escape within a set stands for. -/
def readSetEscape (s : Reading) (c : CodePoint) : Except PatternError (SetItem × Reading) :=
  match category? c with
  | some item => .ok (item, s)
  | none =>
    if c.is 'b' then .ok (.char (CodePoint.ofNat 8), s)
    else if c.isOctalDigit then do
      let (t, s) ← s.takeUpTo CodePoint.isOctalDigit 2
      return (.char (← octalPoint (c :: t)), s)
    else if c.isAsciiDigit then malformed
    else do
      let (x, s) ← readPlainEscape s c
      return (.char x, s)

/-- The pattern of an escape that starts with a digit other than zero: an octal number of three digits, or
a reference of one or two. -/
def readReference (s : Reading) (c : CodePoint) : Except PatternError (Pattern × Reading) := do
  let (second, s) ← s.takeUpTo CodePoint.isAsciiDigit 1
  let digits := c :: second
  let (third, s') ← if digits.length = 2 && digits.all CodePoint.isOctalDigit then
      s.takeUpTo CodePoint.isOctalDigit 1
    else .ok ([], s)
  if third = [] then
    return (← s.reference (Text.numberOf 10 (digits.map fun c => c.val - 48)), s)
  else return (.single (.char (← octalPoint (digits ++ third))), s')

/-- The pattern that an escape stands for. -/
def readEscape (s : Reading) (c : CodePoint) : Except PatternError (Pattern × Reading) :=
  match category? c, anchor? c with
  | some item, _ => .ok (.single (.set false [item]), s)
  | none, some a => .ok (.anchor a, s)
  | none, none =>
    if c.is '0' then do
      let (t, s) ← s.takeUpTo CodePoint.isOctalDigit 2
      return (.single (.char (CodePoint.ofNat (octal t))), s)
    else if c.isAsciiDigit then readReference s c
    else do
      let (x, s) ← readPlainEscape s c
      return (.single (.char x), s)

/-! ### Sets -/

/-- A member of a set, or the start of a range. -/
def readMember (s : Reading) (l : Lexeme) : Except PatternError (SetItem × Reading) :=
  match l with
  | .plain c => .ok (.char c, s)
  | .escaped c => readSetEscape s c

/-- A range between two characters in order. -/
def rangeOf : SetItem → SetItem → Except PatternError SetItem
  | .char a, .char b => if b < a then malformed else .ok (.range a b)
  | _, _ => malformed

/-- The members up to the closing bracket, which is a member itself where it stands first. -/
def readMembers : Nat → List SetItem → Reading → Except PatternError (List SetItem × Reading)
  | 0, _, _ => malformed
  | fuel + 1, items, s => do
    let closes := s.isAt ']' && items != []
    let (l, s) ← s.get
    if closes then return (items, s)
    else
      let (item, s) ← readMember s l
      let (hyphen, s) ← s.accept '-'
      if !hyphen then readMembers fuel (items ++ [item]) s
      else
        let closes := s.isAt ']'
        let (l, s) ← s.get
        if closes then return (items ++ [item, .char (CodePoint.ofChar '-')], s)
        else
          let (high, s) ← readMember s l
          readMembers fuel (items ++ [← rangeOf item high]) s

/-- A set; one character alone is no set. -/
def setOf (negated : Bool) (items : List SetItem) : Single :=
  match items.eraseDups with
  | [.char c] => if negated then .notChar c else .char c
  | items => .set negated items

/-- A set behind its opening bracket. -/
def readSet (s : Reading) : Except PatternError (Pattern × Reading) := do
  let (negated, s) ← s.accept '^'
  let (items, s) ← readMembers (s.rest.length + 1) [] s
  return (.single (setOf negated items), s)

/-! ### Repetitions -/

/-- The least number of repetitions that is too great. -/
def repeatLimit : Nat := 0xFFFFFFFF

/-- A number of repetitions, none where no digits stand. -/
def repeatCount (digits : Text) : Except PatternError (Option Nat) :=
  if digits = [] then .ok none
  else
    match Text.readInt? digits with
    | none => .error .badValue
    | some n => if repeatLimit ≤ n.toNat then .error .overflow else .ok (some n.toNat)

/-- The bounds between braces, or nothing if this is no repetition; the reading then stands still. -/
def readBounds (s : Reading) : Except PatternError (Option (Nat × Option Nat) × Reading) := do
  if s.isAt '\x7d' then return (none, s)
  else
    let (low, t) ← s.takeUpTo CodePoint.isAsciiDigit s.rest.length
    let (comma, t) ← t.accept ','
    let (high, t) ← if comma then t.takeUpTo CodePoint.isAsciiDigit t.rest.length else .ok (low, t)
    if t.isAt '\x7d' then
      let t ← t.next
      let least := (← repeatCount low).getD 0
      let most ← repeatCount high
      if most.any (· < least) then malformed else return (some (least, most), t)
    else return (none, s)

/-- The bounds of a repetition sign. -/
def readRepeat (s : Reading) (c : CodePoint) :
    Except PatternError (Option (Nat × Option Nat) × Reading) :=
  if c.is '?' then .ok (some (0, some 1), s)
  else if c.is '*' then .ok (some (0, none), s)
  else if c.is '+' then .ok (some (1, none), s)
  else readBounds s

/-- The sign behind a repetition that says in which order to try. -/
def readGreed (s : Reading) : Except PatternError (Greed × Reading) := do
  let (isLazy, s) ← s.accept '?'
  if isLazy then return (.lazy, s)
  else
    let (possessive, s) ← s.accept '+'
    return (if possessive then .possessive else .greedy, s)

/-- A piece of a sequence: a pattern, or those of a plain group, which stand in the sequence itself unless
they are repeated. -/
inductive Piece
  | one (p : Pattern)
  | group (ps : List Pattern)

/-- The patterns of some pieces. -/
def patternsOf (pieces : List Piece) : List Pattern :=
  pieces.flatMap fun p => match p with
    | .one p => [p]
    | .group ps => ps

/-- The pattern that a repetition repeats: an anchor or another repetition may not be repeated as it
stands. -/
def repeatable : Piece → Except PatternError Pattern
  | .one (.anchor _) => malformed
  | .one (.repeated ..) => malformed
  | .one p => .ok p
  | .group ps => .ok (.ofList ps)

/-- Pieces of which the last one is repeated. -/
def repeatLast (pieces : List Piece) (s : Reading) (bounds : Nat × Option Nat) :
    Except PatternError (List Piece × Reading) :=
  match pieces.getLast? with
  | none => malformed
  | some last => do
    let p ← repeatable last
    let (greed, s) ← readGreed s
    return (pieces.dropLast ++ [.one (.repeated greed bounds.1 bounds.2 p)], s)

/-! ### Alternatives -/

/-- A pattern that can be told from others at a glance. -/
def isSimple : Pattern → Bool
  | .single _ => true
  | .anchor _ => true
  | .backref _ => true
  | _ => false

/-- The pattern that all sequences start with. -/
def commonHead? : List (List Pattern) → Option Pattern
  | [] => none
  | items =>
    match items.head?.bind List.head? with
    | some p => if isSimple p && items.all (fun i => i.head? = some p) then some p else none
    | none => none

/-- The patterns that all sequences start with, and what is left of the sequences. -/
def factor : Nat → List (List Pattern) → List Pattern × List (List Pattern)
  | 0, items => ([], items)
  | fuel + 1, items =>
    match commonHead? items with
    | some p =>
      let (ps, items) := factor fuel (items.map List.tail)
      (p :: ps, items)
    | none => ([], items)

/-- The members of a sequence that is one character or one set. -/
def membersOf? : List Pattern → Option (List SetItem)
  | [.single (.char c)] => some [.char c]
  | [.single (.set false items)] => some items
  | _ => none

/-- Alternatives: what they start with comes first, and characters and sets alone become one set. -/
def alternatives (items : List (List Pattern)) : List Pattern :=
  match items with
  | [ps] => ps
  | items =>
    let (front, items) := factor (items.head?.elim 0 List.length) items
    front ++ [match items.mapM membersOf? with
      | some sets => .single (.set false sets.flatten.eraseDups)
      | none => .ofAlternatives (items.map Pattern.ofList)]

/-! ### Options of groups -/

/-- The options named up to one of the closing characters, and that character. -/
def readLetters (closing : String) : Nat → Options → CodePoint → Reading →
    Except PatternError (Options × CodePoint × Reading)
  | 0, _, _, _ => malformed
  | fuel + 1, named, c, s =>
    match Options.ofLetter? c with
    | none => malformed
    | some o => do
      let named := named.either o
      if o.hasAlphabet && named.ascii && named.unicode then malformed
      else
        match ← s.get with
        | (.plain c, s) =>
          if c.isIn closing then return (named, c, s) else readLetters closing fuel named c s
        | _ => malformed

/-- The options that a group adds and removes, or adds to the pattern as a whole. -/
inductive GroupOptions
  | whole (o : Options)
  | within (added removed : Options)

/-- The options that are removed, up to the colon. -/
def readRemoved (s : Reading) (added : Options) : Except PatternError (GroupOptions × Reading) := do
  match ← s.get with
  | (.plain c, s) =>
    let (removed, _, s) ← readLetters ":" (s.rest.length + 1) {} c s
    if removed.hasAlphabet || removed.template || (added.both removed) != {} then malformed
    else return (.within added removed, s)
  | _ => malformed

/-- The options of a group, of which the first letter or the hyphen was read. -/
def readOptions (s : Reading) (c : CodePoint) : Except PatternError (GroupOptions × Reading) := do
  if c.is '-' then readRemoved s {}
  else
    let (added, close, s) ← readLetters ")-:" (s.rest.length + 1) {} c s
    if close.is ')' then return (.whole added, s)
    else if added.template then malformed
    else if close.is '-' then readRemoved s added
    else return (.within added {}, s)

/-- What stands between the parenthesis and the content of a group. -/
inductive Opening
  | capture (name : Option Text)
  | plain
  | within (added removed : Options)
  | atomic
  | look (behind negated : Bool)
  | conditional (group : Nat)
  /-- No group: a reference to one by name. -/
  | reference (p : Pattern)
  /-- No group: a comment. -/
  | comment
  /-- No group: options of the pattern as a whole. -/
  | options (o : Options)

/-- A comment up to its closing parenthesis. -/
def readComment (s : Reading) : Except PatternError (Opening × Reading) := do
  let (_, s) ← Reading.takeUntil ')' (s.rest.length + 1) s
  return (.comment, s)

/-- A name behind the letter that starts extensions. -/
def readNamed (s : Reading) : Except PatternError (Opening × Reading) := do
  let (opens, s) ← s.accept '<'
  if opens then
    let (name, s) ← s.takeName '>'
    return (.capture (some name), s)
  else
    let s ← s.expect '='
    let (name, s) ← s.takeName ')'
    match s.names.lookup name with
    | some n => return (.reference (← s.reference n), s)
    | none => malformed

/-- The group that a condition asks about, by name or by number. -/
def readCondition (s : Reading) : Except PatternError (Opening × Reading) := do
  let (name, s) ← Reading.takeUntil ')' (s.rest.length + 1) s
  let (group, s) ← if Text.isName name then
      match s.names.lookup name with
      | some n => pure (n, s)
      | none => malformed
    else
      match Text.readInt? name with
      | some n =>
        if 0 < n then pure (n.toNat, { s with conditions := n.toNat :: s.conditions }) else malformed
      | none => malformed
  if s.mayAsk group then return (.conditional group, s) else malformed

/-- A look behind a place. -/
def readLookbehind (s : Reading) : Except PatternError (Opening × Reading) := do
  match ← s.get with
  | (.plain c, s) =>
    if c.is '=' then return (.look true false, s)
    else if c.is '!' then return (.look true true, s)
    else malformed
  | _ => malformed

/-- What stands between an opening parenthesis and the content of its group. -/
def readOpening (s : Reading) : Except PatternError (Opening × Reading) := do
  let (special, s) ← s.accept '?'
  if !special then return (.capture none, s)
  else
    match ← s.get with
    | (.escaped _, _) => malformed
    | (.plain c, s) =>
      if c.is 'P' then readNamed s
      else if c.is ':' then return (.plain, s)
      else if c.is '#' then readComment s
      else if c.is '=' then return (.look false false, s)
      else if c.is '!' then return (.look false true, s)
      else if c.is '<' then readLookbehind s
      else if c.is '(' then readCondition s
      else if c.is '>' then return (.atomic, s)
      else
        match ← readOptions s c with
        | (.whole o, s) => return (.options o, s)
        | (.within added removed, s) => return (.within added removed, s)

/-! ### Sequences -/

/-- Where a sequence stands: in a group or not, in the first alternative or not. -/
structure Place where
  nested : Bool
  first : Bool
  verbose : Bool

/-- Passes over the rest of a line. -/
def skipLine : Nat → Reading → Except PatternError Reading
  | 0, s => .ok s
  | fuel + 1, s =>
    match s.peek with
    | none => .ok s
    | some l => do
      let s ← s.next
      if l = .plain (CodePoint.ofChar '\n') then return s else skipLine fuel s

/-- The characters that do not stand for themselves. -/
def specialChars : String := ".\\[\x7b()*+?^$|"

mutual

/-- Alternatives up to a closing parenthesis or the end. -/
def readAlternatives : Nat → Place → Reading → Except PatternError (List Pattern × Reading)
  | 0, _, _ => malformed
  | fuel + 1, place, s => do
    let (items, s) ← readBranches fuel place s
    return (alternatives items, s)
termination_by structural fuel => fuel

/-- The sequences of some alternatives. -/
def readBranches : Nat → Place → Reading → Except PatternError (List (List Pattern) × Reading)
  | 0, _, _ => malformed
  | fuel + 1, place, s => do
    let (item, s) ← readSequence fuel place [] s
    if s.isAt '|' then
      let s ← s.next
      let verbose := if place.nested then place.verbose else s.options.verbose
      let (items, s) ← readBranches fuel { place with first := false, verbose } s
      return (item :: items, s)
    else return ([item], s)
termination_by structural fuel => fuel

/-- A sequence behind the given pieces. -/
def readSequence : Nat → Place → List Piece → Reading → Except PatternError (List Pattern × Reading)
  | 0, _, _, _ => malformed
  | fuel + 1, place, pieces, s =>
    if s.rest = [] ∨ s.isAt '|' ∨ s.isAt ')' then .ok (patternsOf pieces, s)
    else do
      let one (p : Pattern) (s : Reading) : Except PatternError (List Pattern × Reading) :=
        readSequence fuel place (pieces ++ [.one p]) s
      match ← s.get with
      | (.escaped c, s) =>
        let (p, s) ← readEscape s c
        one p s
      | (.plain c, s) =>
        if place.verbose && c.isAsciiSpace then readSequence fuel place pieces s
        else if place.verbose && c.is '#' then
          readSequence fuel place pieces (← skipLine s.rest.length s)
        else if !c.isIn specialChars then one (.single (.char c)) s
        else if c.is '.' then one (.single .any) s
        else if c.is '^' then one (.anchor .start) s
        else if c.is '$' then one (.anchor .stop) s
        else if c.is '[' then
          let (p, s) ← readSet s
          one p s
        else if c.is '(' then
          let (opening, s) ← readOpening s
          match opening with
          | .comment => readSequence fuel place pieces s
          | .reference p => one p s
          | .options o =>
            if place.nested || !place.first || !pieces.isEmpty then malformed
            else
              let s := { s with options := s.options.either o }
              readSequence fuel { place with verbose := s.options.verbose } pieces s
          | opening =>
            let (piece, s) ← readGroup fuel place.verbose opening s
            readSequence fuel place (pieces ++ [piece]) s
        else
          match ← readRepeat s c with
          | (none, s) => one (.single (.char c)) s
          | (some bounds, s) =>
            let (pieces, s) ← repeatLast pieces s bounds
            readSequence fuel place pieces s
termination_by structural fuel => fuel

/-- The content of a group behind its opening, and the closing parenthesis. -/
def readGroup : Nat → Bool → Opening → Reading → Except PatternError (Piece × Reading)
  | 0, _, _, _ => malformed
  | fuel + 1, verbose, opening, s =>
    let place : Place := ⟨true, false, verbose⟩
    match opening with
    | .capture name => do
      let (n, s) ← s.openGroup name
      let (ps, s) ← readAlternatives fuel place s
      let p := Pattern.ofList ps
      return (.one (.capture n p), (← s.expect ')').closeGroup n p)
    | .within added removed => do
      let inner := (verbose || added.verbose) && !removed.verbose
      let (ps, s) ← readAlternatives fuel { place with verbose := inner } s
      let s ← s.expect ')'
      if added = {} ∧ removed = {} then return (.group ps, s)
      else return (.one (.under added removed (.ofList ps)), s)
    | .atomic => do
      let (ps, s) ← readAlternatives fuel place s
      return (.one (.atomic (.ofList ps)), ← s.expect ')')
    | .look behind negated => do
      let outer := s.behind
      let s := if behind then { s with behind := some (outer.getD s.groups) } else s
      let (ps, s) ← readAlternatives fuel place s
      let s := if behind then { s with behind := outer } else s
      return (.one (.look behind negated (.ofList ps)), ← s.expect ')')
    | .conditional n => do
      let (yes, s) ← readSequence fuel place [] s
      if s.isAt '|' then
        let (no, s) ← readSequence fuel place [] (← s.next)
        return (.one (.conditional n (.ofList yes) (.ofList no)), ← s.expect ')')
      else return (.one (.conditional n (.ofList yes) .empty), ← s.expect ')')
    | _ => do
      let (ps, s) ← readAlternatives fuel place s
      return (.group ps, ← s.expect ')')
termination_by structural fuel => fuel

end

/-! ### Whole patterns -/

/-- A pattern with the options of the whole. -/
structure Parsed where
  options : Options
  pattern : Pattern
  /-- The widths of the groups, the first group first. -/
  widths : List Width
deriving DecidableEq

/-- The width of a group. -/
def Parsed.widthOf (r : Parsed) (group : Nat) : Width := (r.widths[group - 1]?).getD (.exactly 0)

/-- Reads a pattern, where code points have the given names. -/
def parseNaming (named : Text → Option CodePoint) (t : Text) : Except PatternError Parsed := do
  if t = [CodePoint.ofChar '\\'] then malformed
  else
    let (ps, s) ← readAlternatives (4 * (t.length + 2)) ⟨false, true, false⟩ { rest := t, named }
    let p := Pattern.ofList ps
    if s.options.ascii && s.options.unicode then .error .badValue
    else if s.rest ≠ [] then malformed
    else if s.conditions.any (s.groups ≤ ·) then malformed
    else if p.isSound s.widthOf s.options then return ⟨s.options, p, s.widths.map (·.getD (.exactly 0))⟩
    else malformed

/-- Reads a pattern without names of code points. -/
def parse (t : Text) : Except PatternError Parsed := parseNaming (fun _ => none) t

end LogStream.Regex
