import LogStream.Text.Case
import LogStream.Text.Classes
import LogStream.Regex.Pattern

/-! # Matching one code point

Which code points a set or a character stands for. Where case is ignored both sides are folded to lower
case, and letters that share an upper case letter stand for each other. Sets are folded within the basic
plane alone: beyond it a single member is taken as it is written, and a range holds what it holds in lower
or in upper case. -/

namespace LogStream.Regex

/-- The class holds of a code point, within ASCII or of all of Unicode. -/
def Category.holds (ascii : Bool) : Category → CodePoint → Bool
  | digit, c => if ascii then c.isAsciiDigit else c.isDecimal
  | space, c => if ascii then c.isAsciiSpace else c.isSpace
  | word, c => if ascii then c.isAsciiLetter || c.isAsciiDigit || c.is '_' else c.isWord

namespace Options

/-- A code point without its case. -/
def fold (o : Options) (c : CodePoint) : CodePoint := if o.ascii then c.lowerAscii else c.lower

/-- The folded code points that a folded one is taken for, itself first. -/
def variants (o : Options) (c : CodePoint) : List CodePoint :=
  if o.ascii then [c] else c :: c.companions

/-- The code points that are folded to the given one. -/
def sources (o : Options) (c : CodePoint) : List CodePoint :=
  if o.ascii then c.lowerAsciiSources else c.lowerSources

/-- There are code points that differ from this one in case alone. -/
def hasCase (o : Options) (c : CodePoint) : Bool := if o.ascii then c.isAsciiLetter else c.hasCase

/-- Two code points are the same but for their case. -/
def sameLetter (o : Options) (c x : CodePoint) : Bool := (o.variants (o.fold c)).contains (o.fold x)

end Options

/-! ### Sets -/

/-- A code point of the basic plane. -/
def isBasic (c : CodePoint) : Bool := c.val ≤ 0xFFFF

namespace SetItem

/-- A code point between two others, the ends included. -/
def between (low high c : CodePoint) : Bool := low ≤ c && c ≤ high

/-- A member of a set stands for a code point as it is written. -/
def holds (ascii : Bool) : SetItem → CodePoint → Bool
  | char c, x => x = c
  | range low high, x => between low high x
  | category kind negated, x => kind.holds ascii x != negated

/-- A member of a set stands for a folded code point in any case. -/
def holdsFolded (o : Options) : SetItem → CodePoint → Bool
  | char c, x => if isBasic c then o.sameLetter c x else x = c
  | range low high, x =>
    ((o.variants x).any fun v => (o.sources v).any fun c => isBasic c && between low high c) ||
      (!isBasic high && (between low high x || between low high x.upper))
  | category kind negated, x => kind.holds o.ascii x != negated

end SetItem

/-- What a single stands for. -/
def Single.accepts (o : Options) (s : Single) (x : CodePoint) : Bool :=
  match s with
  | any => o.dotAll || !x.is '\n'
  | char c => if o.ignoreCase then o.sameLetter c x else x = c
  | notChar c => !(if o.ignoreCase then o.sameLetter c x else x = c)
  | set negated items =>
    (if o.ignoreCase then items.any (·.holdsFolded o (o.fold x))
      else items.any (·.holds o.ascii x)) != negated

end LogStream.Regex
