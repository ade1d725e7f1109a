import LogStream.Text.Quoted
import LogStream.Number.Decimal
import LogStream.Datum.Basic

/-! # How data are shown

A datum is shown on its own, as a text shows its content, or inside another one, as a text is quoted
there. A datum is printable if every integer in it is short enough to be written out. -/

namespace LogStream

namespace Duration

/-- Whole days, rounded down. -/
def days (d : Duration) : Int := Int.fdiv d.micros microsPerDay

/-- The microseconds behind the whole days. -/
def restMicros (d : Duration) : Nat := (Int.fmod d.micros microsPerDay).toNat

/-- Days, hours, minutes and seconds, the days only where there are any. -/
def clockText (d : Duration) : Text :=
  let n := d.days
  let s := d.restMicros / microsPerSecond
  (if n = 0 then [] else Text.ofInt n ++ Text.lit (if n.natAbs = 1 then " day, " else " days, ")) ++
    Text.ofNat (s / 3600) ++ Text.lit ":" ++ Time.padded 2 (s / 60 % 60) ++ Text.lit ":" ++
    Time.padded 2 (s % 60) ++ Time.fractionText (d.restMicros % microsPerSecond)

/-- The parts of a duration that are not zero, each with its name. -/
def partsText (d : Duration) : Text :=
  let part (name : String) (n : Int) : List Text :=
    if n = 0 then [] else [Text.lit name ++ Text.ofInt n]
  let parts := part "days=" d.days ++ part "seconds=" (d.restMicros / microsPerSecond : Nat) ++
    part "microseconds=" (d.restMicros % microsPerSecond : Nat)
  Text.lit "datetime.timedelta(" ++
    (if parts = [] then Text.lit "0" else Text.commaList parts) ++ Text.lit ")"

/-- The duration of a number of minutes, zero if that is out of range. -/
def ofMinutes (n : Int) : Duration := (ofMicros? (n * (60 * microsPerSecond : Nat))).getD zero

end Duration

namespace Time

/-- A zone by its offset. -/
def zoneText (minutes : Int) : Text :=
  if minutes = 0 then Text.lit "datetime.timezone.utc"
  else Text.lit "datetime.timezone(" ++ (Duration.ofMinutes minutes).partsText ++ Text.lit ")"

/-- The fields of a time; seconds and microseconds are left out where nothing follows that is not
zero. -/
def fieldsText (t : Time) : Text :=
  let seconds := if t.micro ≠ 0 then [t.second, t.micro] else if t.second ≠ 0 then [t.second] else []
  let fields := [t.date.year, t.date.month, t.date.day, t.hour, t.minute] ++ seconds
  let zone := match t.offset with
    | none => []
    | some m => [Text.lit "tzinfo=" ++ zoneText m]
  Text.lit "datetime.datetime(" ++ Text.commaList (fields.map Text.ofNat ++ zone) ++ Text.lit ")"

end Time

/-- A truth value by name. -/
def truthText (b : Bool) : Text := Text.lit (if b then "True" else "False")

/-- The items of a tuple in parentheses; one item alone has a comma behind it. -/
def tupleText : List Text → Text
  | [t] => Text.lit "(" ++ t ++ Text.lit ",)"
  | ts => Text.lit "(" ++ Text.commaList ts ++ Text.lit ")"

/-- A kind by member name and name. -/
def kindText (memberName name : Text) : Text :=
  Text.lit "<Kind." ++ memberName ++ Text.lit ": " ++ Text.quoted name ++ Text.lit ">"

/-- A value by kind and payload. -/
def valueText (kind payload : Text) : Text :=
  Text.lit "Value(kind=" ++ kind ++ Text.lit ", payload=" ++ payload ++ Text.lit ")"

mutual

/-- A datum as it is shown inside another one. -/
def Datum.shown : Datum → Text
  | .null => Text.lit "None"
  | .bool b => truthText b
  | .int n => Text.ofInt n
  | .float x => x.toText
  | .text t => Text.quoted t
  | .bytes bs => Bytes.quoted bs
  | .time t => t.fieldsText
  | .duration d => d.partsText
  | .list xs => Text.lit "[" ++ Text.commaList (Datum.shownAll xs) ++ Text.lit "]"
  | .tuple xs => tupleText (Datum.shownAll xs)
  | .map es => Text.lit "\x7b" ++ Text.commaList (Datum.shownEntries es) ++ Text.lit "\x7d"
  | .sealed tag data =>
    Text.lit "Opaque(type_tag=" ++ Text.quoted tag ++ Text.lit ", data=" ++ Bytes.quoted data ++
      Text.lit ")"
  | .lazy _ => Text.lit "<Lazy>"
  | .loop => Text.lit "<Loop>"
  | .broken => Text.lit "<Broken>"
  | .thing => Text.lit "<Thing>"
  | .value v => Value.shown v
termination_by structural d => d

def Datum.shownAll : List Datum → List Text
  | [] => []
  | x :: xs => Datum.shown x :: Datum.shownAll xs
termination_by structural xs => xs

def Datum.shownEntries : List (Datum × Datum) → List Text
  | [] => []
  | (k, d) :: es =>
    (Datum.shown k ++ Text.lit ": " ++ Datum.shown d) :: Datum.shownEntries es
termination_by structural es => es

/-- A value as it is shown. -/
def Value.shown : Value → Text
  | .empty => valueText (kindText (Text.lit "EMPTY") (Text.lit "empty")) (Text.lit "None")
  | .held k d => valueText (kindText k.memberName (Text.lit k.name)) (Datum.shown d)
  | .group ms =>
    valueText (kindText (Text.lit "GROUP") (Text.lit "group")) (tupleText (Value.shownMembers ms))
  | .foreign name => valueText (Text.quoted name) (Text.lit "None")
termination_by structural v => v

def Value.shownMembers : List (Text × Value) → List Text
  | [] => []
  | (k, v) :: ms =>
    (Text.lit "Attr(key=" ++ Text.quoted k ++ Text.lit ", value=" ++ Value.shown v ++ Text.lit ")") ::
      Value.shownMembers ms
termination_by structural ms => ms

end

mutual

/-- No integer in the datum is too long to be written out. -/
def Datum.isPrintable : Datum → Bool
  | .int n => (Text.ofNat n.natAbs).length ≤ Text.maxDigits
  | .list xs => Datum.allPrintable xs
  | .tuple xs => Datum.allPrintable xs
  | .map es => Datum.entriesPrintable es
  | .value v => Value.isPrintable v
  | _ => true
termination_by structural d => d

def Datum.allPrintable : List Datum → Bool
  | [] => true
  | x :: xs => Datum.isPrintable x && Datum.allPrintable xs
termination_by structural xs => xs

def Datum.entriesPrintable : List (Datum × Datum) → Bool
  | [] => true
  | (k, d) :: es => Datum.isPrintable k && Datum.isPrintable d && Datum.entriesPrintable es
termination_by structural es => es

def Value.isPrintable : Value → Bool
  | .held _ d => Datum.isPrintable d
  | .group ms => Value.membersPrintable ms
  | _ => true
termination_by structural v => v

def Value.membersPrintable : List (Text × Value) → Bool
  | [] => true
  | (_, v) :: ms => Value.isPrintable v && Value.membersPrintable ms
termination_by structural ms => ms

end

namespace Datum

/-- A datum as it is shown on its own. -/
def display : Datum → Text
  | text t => t
  | time t => t.isoWith " "
  | duration d => d.clockText
  | d => d.shown

end Datum

end LogStream
