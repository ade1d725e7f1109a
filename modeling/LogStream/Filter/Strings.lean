import LogStream.Text.Search
import LogStream.Filter.EvalError
import LogStream.Filter.Literal

/-! # Strings

The functions on strings. Offsets count code points; an offset has to lie within the string. -/

namespace LogStream.Filter.Dyn

/-- Two strings. -/
def strings2 (name : String) (f : Text → Text → Dyn) : Dyn → Dyn → Eval Dyn
  | string s, string t => .ok (f s t)
  | v, w => Eval.noOverload name [v, w]

/-- One string. -/
def strings1 (name : String) (f : Text → Dyn) : Dyn → Eval Dyn
  | string s => .ok (f s)
  | v => Eval.noOverload name [v]

/-- An integer. -/
def integer (name : String) : Dyn → Eval Int
  | int n => .ok n
  | v => Eval.noOverload name [v]

def contains : Dyn → Dyn → Eval Dyn := strings2 "contains" fun s sub => bool (Text.hasInfix sub s)

def startsWith : Dyn → Dyn → Eval Dyn := strings2 "startsWith" fun s sub => bool (sub.isPrefixOf s)

def endsWith : Dyn → Dyn → Eval Dyn := strings2 "endsWith" fun s sub => bool (sub.isSuffixOf s)

def lowerAscii : Dyn → Eval Dyn := strings1 "lowerAscii" fun s => string (Text.lowerAscii s)

def upperAscii : Dyn → Eval Dyn := strings1 "upperAscii" fun s => string (Text.upperAscii s)

def trim : Dyn → Eval Dyn := strings1 "trim" fun s => string (Text.strip s)

def quote : Dyn → Eval Dyn := strings1 "strings.quote" fun s => string (writeString s)

/-! ### Cutting and joining -/

/-- The characters of a text as pieces; the last of at most `limit` pieces holds the rest. -/
def characters (limit : Int) (s : Text) : List Text :=
  if 0 < limit ∧ limit < s.length then
    let n := limit.toNat - 1
    (s.take n).map (fun c => [c]) ++ [s.drop n]
  else s.map fun c => [c]

/-- The greatest number of cuts that may be asked for. -/
def maxCuts : Int := int64Max

/-- The pieces of a string between separators, at most `limit` of them if that is positive. -/
def splitText (s sep : Text) (limit : Int) : Eval (List Text) :=
  if limit = 0 then .ok []
  else if sep = [] then .ok (characters limit s)
  else if limit < 0 then .ok (Text.split sep none s)
  else if maxCuts < limit - 1 then Eval.stop .overflow
  else .ok (Text.split sep (some (limit.toNat - 1)) s)

def split (s sep limit : Dyn) : Eval Dyn :=
  match s, sep with
  | string s, string sep => do
    let n ← integer "split" limit
    return list ((← splitText s sep n).map string)
  | s, sep => Eval.noOverload "split" [s, sep]

/-- Puts a text for another one, at most `limit` times unless that is negative. -/
def replaceText (s old new : Text) (limit : Int) : Eval Text :=
  if maxCuts < limit ∨ limit < -maxCuts - 1 then Eval.stop .overflow
  else .ok (Text.replace old new (if limit < 0 then none else some limit.toNat) s)

def replace (s old new limit : Dyn) : Eval Dyn :=
  match s, old, new with
  | string s, string old, string new => do
    let n ← integer "replace" limit
    return string (← replaceText s old new n)
  | s, old, new => Eval.noOverload "replace" [s, old, new]

/-- The texts of values that are all strings. -/
def texts? : List Dyn → Option (List Text)
  | [] => some []
  | string t :: vs => (texts? vs).map (t :: ·)
  | _ => none

def join (items sep : Dyn) : Eval Dyn :=
  match items with
  | list xs =>
    match sep, texts? xs with
    | string s, some ts => .ok (string (Text.joinWith s ts))
    | _, _ => Eval.noOverload "join" (sep :: xs)
  | v => Eval.noOverload "join" [v, sep]

/-! ### Offsets -/

/-- An offset within a text of the given length. -/
def offset (name : String) (length : Nat) (v : Dyn) : Eval Nat := do
  let n ← integer name v
  if 0 ≤ n ∧ n ≤ length then return n.toNat else Eval.failShowing (int n) (.indexOutOfRange n)

def charAt (s i : Dyn) : Eval Dyn :=
  match s with
  | string s => do
    let n ← offset "charAt" s.length i
    return string ((s.drop n).take 1)
  | v => Eval.noOverload "charAt" [v]

/-- An offset, or -1 if there is none. -/
def found (i : Option Nat) : Dyn := int (i.elim (-1) fun n => n)

def indexOf (s sub from_ : Dyn) : Eval Dyn :=
  match s, sub with
  | string s, string sub => do
    let n ← offset "indexOf" s.length from_
    return found (Text.find? sub s n)
  | s, sub => Eval.noOverload "indexOf" [s, sub]

/-- The last occurrence that starts at an offset or before it; without an offset the last of all. -/
def lastIndexOf (s sub upTo : Dyn) : Eval Dyn :=
  match s, sub with
  | string s, string sub =>
    match upTo with
    | null => .ok (found (Text.findLast? sub s s.length))
    | v => do
      let n ← offset "lastIndexOf" s.length v
      return found (Text.findLast? sub s n)
  | s, sub => Eval.noOverload "lastIndexOf" [s, sub]

/-- Two offsets in order, within a length. -/
def inOrder (length : Nat) (start stop : Int) : Bool := 0 ≤ start && start ≤ stop && stop ≤ length

/-- An error that shows a range. -/
def failRange {α : Type} (start stop : Int) (e : EvalError) : Eval α :=
  Eval.failShowing (list [int start, int stop]) e

/-- The part of a string from one offset to another, or to the end. -/
def substring (s start stop : Dyn) : Eval Dyn :=
  match s with
  | string s => do
    let a ← integer "substring" start
    let b ← match stop with
      | null => pure (s.length : Int)
      | v => integer "substring" v
    if inOrder s.length a b then return string ((s.take b.toNat).drop a.toNat)
    else failRange a b (.substringOutOfRange a b)
  | v => Eval.noOverload "substring" [v]

end LogStream.Filter.Dyn
