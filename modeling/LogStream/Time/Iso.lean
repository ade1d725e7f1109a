import LogStream.Text.Utf8
import LogStream.Time.Basic

/-! # Times in ISO 8601

Reading of a date, any one separator, a clock and a zone. Dates are written as year, month and day or
as year, week and day of the week, with or without hyphens; the clock stops after hours, minutes or
seconds, with or without colons, and has an optional fraction of which six digits count; the zone is
`Z` or an offset with the same parts as a clock. Reading works on the bytes of the text and takes a
zero byte for the end of it. -/

namespace LogStream.Iso

/-- Why a text is no time with a zone. -/
inductive ReadError
  | malformed
  | withoutZone
  | outOfRange
deriving DecidableEq, Repr

def isDigit (b : UInt8) : Bool := 48 ≤ b.toNat && b.toNat ≤ 57

/-- A byte is the given ASCII character. -/
def isChar (b : UInt8) (c : Char) : Bool := b.toNat == c.toNat

/-- The number of exactly `n` digits and the rest. -/
def takeNumber? : Nat → Nat → Bytes → Option (Nat × Bytes)
  | 0, acc, bs => some (acc, bs)
  | _ + 1, _, [] => none
  | n + 1, acc, b :: r => if isDigit b then takeNumber? n (acc * 10 + (b.toNat - 48)) r else none

/-- The byte at an index; a zero byte behind the end. -/
def at' (bs : Bytes) (i : Nat) : UInt8 := bs.getD i 0

/-- Where the date ends, told from the bytes at the places of hyphens and the week mark. -/
def dateLength? (bs : Bytes) : Option Nat :=
  if bs.length = 7 then some 7
  else if isChar (at' bs 4) '-' then
    if isChar (at' bs 5) 'W' then
      if bs.length < 8 then none
      else if 8 < bs.length ∧ isChar (at' bs 8) '-' then
        if bs.length = 9 then none
        else if 10 < bs.length ∧ isDigit (at' bs 10) then some 8
        else some 10
      else some 8
    else some 10
  else if isChar (at' bs 4) 'W' then
    let digitsEnd := 7 + ((bs.drop 7).takeWhile isDigit).length
    if digitsEnd < 9 then some digitsEnd
    else if digitsEnd % 2 = 0 then some 7 else some 8
  else some 8

/-- A hyphen dropped where the date uses hyphens. -/
def dropHyphen? (hyphens : Bool) : Bytes → Option Bytes
  | [] => if hyphens then none else some []
  | b :: r => if hyphens then if isChar b '-' then some r else none else some (b :: r)

/-- Reads the date in the first `n` bytes. -/
def readDate? (bs : Bytes) (n : Nat) : Option Date := do
  let (year, r) ← takeNumber? 4 0 bs
  let hyphens := isChar (at' r 0) '-'
  let r := if hyphens then r.drop 1 else r
  if isChar (at' r 0) 'W' then
    let (week, r) ← takeNumber? 2 0 (r.drop 1)
    if bs.length - r.length < n then
      let r ← dropHyphen? hyphens r
      let (day, _) ← takeNumber? 1 0 r
      Date.ofWeek? year week day
    else Date.ofWeek? year week 1
  else
    let (month, r) ← takeNumber? 2 0 r
    let r ← dropHyphen? hyphens r
    let (day, _) ← takeNumber? 2 0 r
    some ⟨year, month, day⟩

/-- The parts of a clock or of an offset. -/
structure Clock where
  hour : Nat := 0
  minute : Nat := 0
  second : Nat := 0
  micro : Nat := 0
deriving DecidableEq, Repr

namespace Clock

/-- The clock with its part of the given rank set: hours, minutes, seconds. -/
def set (c : Clock) : Nat → Nat → Clock
  | 0, n => { c with hour := n }
  | 1, n => { c with minute := n }
  | _, n => { c with second := n }

end Clock

/-- Reads the digits behind the point; the flag says that something follows them. -/
def readFraction? (c : Clock) (bs : Bytes) : Option (Clock × Bool) :=
  let count := min bs.length 6
  match takeNumber? count 0 bs with
  | none => none
  | some (n, r) =>
    let rest := r.dropWhile isDigit
    some ({ c with micro := n * Nat.pow 10 (6 - count) }, at' rest 0 != 0)

/-- Reads the parts from the given rank on; `colons` says whether colons stand between them. The flag
says that something is left over. -/
def readParts? (colons : Bool) (c : Clock) (rank : Nat) : Nat → Bytes → Option (Clock × Bool)
  | 0, bs => readFraction? c bs
  | more + 1, bs => do
    let (n, r) ← takeNumber? 2 0 bs
    let c := c.set rank n
    let colons := if rank = 0 then isChar (at' r 0) ':' else colons
    match r with
    | [] => some (c, false)
    | [b] => some (c, b != 0)
    | b :: r' =>
      if colons && isChar b ':' then readParts? colons c (rank + 1) more r'
      else if isChar b '.' || isChar b ',' then readFraction? c r'
      else if colons then none
      else readParts? colons c (rank + 1) more r

/-- Reads a clock or an offset. -/
def readClock? (bs : Bytes) : Option (Clock × Bool) := readParts? true {} 0 3 bs

/-- A zone sign or the mark of UTC. -/
def startsZone (b : UInt8) : Bool := isChar b '+' || isChar b '-' || isChar b 'Z'

/-- Reads a zone; the result is the offset in microseconds. -/
def readZone? : Bytes → Option Int
  | [] => none
  | b :: r =>
    if isChar b 'Z' then if at' r 0 = 0 then some 0 else none
    else
      match readClock? r with
      | none => none
      | some (c, leftOver) =>
        let seconds : Nat := (c.hour * 60 + c.minute) * 60 + c.second
        let micros : Int := if seconds = 0 then 0 else (seconds * microsPerSecond + c.micro : Nat)
        if leftOver || (microsPerDay : Int) ≤ micros then none
        else some (if isChar b '-' then -micros else micros)

/-- Reads a clock and the zone behind it; without a zone nothing may be left over. -/
def readTime? (bs : Bytes) : Option (Clock × Option Int) := do
  let clock := bs.takeWhile (!startsZone ·)
  let (c, leftOver) ← readClock? clock
  match bs.dropWhile (!startsZone ·) with
  | [] => if leftOver then none else some (c, none)
  | zone => (readZone? zone).map fun offset => (c, some offset)

/-- The bytes of a separator that starts with the given byte. -/
def separatorWidth (b : UInt8) : Nat :=
  if b.toNat < 0x80 then 1
  else if 0xE0 ≤ b.toNat ∧ b.toNat < 0xF0 then 3
  else if 0xF0 ≤ b.toNat then 4
  else 2

/-- A surrogate where a separator may stand is read as the letter T. -/
def plainSeparator (t : Text) : Text :=
  match [7, 8, 10].find? fun i => (t[i]?).any CodePoint.isSurrogate with
  | some i => t.set i (CodePoint.ofChar 'T')
  | none => t

/-- Reads a text as date, clock and offset in microseconds. -/
def readFields? (t : Text) : Option (Date × Clock × Option Int) := do
  if t.length < 7 then none
  else
    let bs ← Utf8.encode? (plainSeparator t)
    let n ← dateLength? bs
    let date ← readDate? bs n
    if n < bs.length then
      let (c, zone) ← readTime? (bs.drop (n + separatorWidth (at' bs n)))
      some (date, c, zone)
    else some (date, {}, none)

/-- Reads a text as a time and gives it in UTC. -/
def read (t : Text) : Except ReadError Time :=
  match readFields? t with
  | none => .error .malformed
  | some (date, c, zone) =>
    match Time.ofFields? date c.hour c.minute c.second c.micro none with
    | none => .error .malformed
    | some wall =>
      match zone with
      | none => .error .withoutZone
      | some offset =>
        match Time.ofInstant? (wall.instant - offset) with
        | none => .error .outOfRange
        | some u => .ok u

end LogStream.Iso
