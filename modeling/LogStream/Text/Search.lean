import LogStream.Text.Classes

/-! # Searching, cutting and joining

Occurrences are found from the left and do not overlap in `split` and `replace`. An empty pattern
occurs at every offset from zero to the length. -/

namespace LogStream.Text

/-- The pattern stands at the offset. -/
def occursAt (sub s : Text) (i : Nat) : Bool := sub.isPrefixOf (s.drop i)

/-- The least offset from `k` on where the pattern stands. -/
def find? (sub s : Text) (k : Nat) : Option Nat :=
  ((List.range (s.length + 1)).drop k).find? (occursAt sub s)

/-- The greatest offset up to `k` where the pattern stands. -/
def findLast? (sub s : Text) (k : Nat) : Option Nat :=
  ((List.range (s.length + 1)).take (k + 1)).reverse.find? (occursAt sub s)

/-- The pattern stands somewhere. -/
def hasInfix (sub s : Text) : Bool := (find? sub s 0).isSome

/-- A code point put before the first text of a list. -/
def consHead (c : CodePoint) : List Text → List Text
  | [] => [[c]]
  | t :: ts => (c :: t) :: ts

/-- A limit that has one use left. -/
def useLeft : Option Nat → Bool
  | none => true
  | some n => n != 0

/-- The limit after one use. -/
def afterUse (limit : Option Nat) : Option Nat := limit.map (· - 1)

/-- Cuts at the separator, at most `limit` times; `skip` code points of a separator are still to be
dropped. -/
def splitFrom (sep : Text) (limit : Option Nat) (skip : Nat) : Text → List Text
  | [] => [[]]
  | c :: r =>
    if skip ≠ 0 then splitFrom sep limit (skip - 1) r
    else if useLeft limit && sep.isPrefixOf (c :: r) then
      [] :: splitFrom sep (afterUse limit) (sep.length - 1) r
    else consHead c (splitFrom sep limit 0 r)

/-- The pieces between the occurrences of a separator that is not empty, cut at most `limit`
times. -/
def split (sep : Text) (limit : Option Nat) (s : Text) : List Text := splitFrom sep limit 0 s

/-- Puts `new` for `old`, at most `limit` times; `skip` code points of an occurrence are still to be
dropped. -/
def replaceFrom (old new : Text) (limit : Option Nat) (skip : Nat) : Text → Text
  | [] => []
  | c :: r =>
    if skip ≠ 0 then replaceFrom old new limit (skip - 1) r
    else if useLeft limit && old.isPrefixOf (c :: r) then
      new ++ replaceFrom old new (afterUse limit) (old.length - 1) r
    else c :: replaceFrom old new limit 0 r

/-- Puts `new` before every code point and at the end, at most `limit` times. -/
def interleave (new : Text) (limit : Option Nat) : Text → Text
  | [] => if useLeft limit then new else []
  | c :: r =>
    if useLeft limit then new ++ c :: interleave new (afterUse limit) r
    else c :: r

/-- Puts `new` for the occurrences of `old`, at most `limit` times. -/
def replace (old new : Text) (limit : Option Nat) (s : Text) : Text :=
  if old = [] then interleave new limit s else replaceFrom old new limit 0 s

/-- Drops what satisfies a test at both ends. -/
def stripWhile (p : CodePoint → Bool) (s : Text) : Text :=
  ((s.dropWhile p).reverse.dropWhile p).reverse

/-- Drops white space at both ends. -/
def strip (s : Text) : Text := stripWhile CodePoint.isSpace s

end LogStream.Text
