import LogStream.Fault
import LogStream.Text.Utf16
import LogStream.Datum.Display

/-! # JSON text

Data written as JSON in ASCII. Code points beyond ASCII are written as units of UTF-16. Doubles that
are no JSON numbers are written by name. Keys of dictionaries are texts, numbers, truth values or
nothing. What JSON has no form for is refused, or written as the text that shows it. -/

namespace LogStream.Json

/-- How JSON is laid out. -/
structure Layout where
  /-- What stands between items. -/
  comma : String := ", "
  /-- What stands between a key and its content. -/
  colon : String := ": "
  /-- Data without a form in JSON are written as the text that shows them. -/
  showsOthers : Bool := false

/-- Without blanks. -/
def Layout.compact : Layout := { comma := ",", colon := ":" }

/-- One code point in a string. -/
def escapePoint (c : CodePoint) : Text :=
  if c.is '"' then Text.lit "\\\""
  else if c.is '\\' then Text.lit "\\\\"
  else if c.is '\n' then Text.lit "\\n"
  else if c.is '\r' then Text.lit "\\r"
  else if c.is '\t' then Text.lit "\\t"
  else if c.val = 12 then Text.lit "\\f"
  else if c.val = 8 then Text.lit "\\b"
  else if 32 ≤ c.val ∧ c.val < 127 then [c]
  else (Utf16.encodePoint c).flatMap fun u => Text.lit "\\u" ++ Text.hex 4 u

/-- A text as a string. -/
def string (t : Text) : Text := Text.lit "\"" ++ t.flatMap escapePoint ++ Text.lit "\""

/-- An integer, unless it is too long to be written out. -/
def integer (n : Int) : Except Fault Text :=
  if (Datum.int n).isPrintable then .ok (Text.ofInt n) else .error .badValue

/-- A double as a number, or by name. -/
def number (x : Double) : Text :=
  if x.isNaN then Text.lit "NaN"
  else if x.isInfinite then Text.lit (if x.isNegative then "-Infinity" else "Infinity")
  else x.toText

def truth (b : Bool) : Text := Text.lit (if b then "true" else "false")

/-- The text of a key. -/
def key : Datum → Except Fault Text
  | .text t => .ok t
  | .float x => .ok (number x)
  | .bool b => .ok (truth b)
  | .null => .ok (Text.lit "null")
  | .int n => integer n
  | _ => .error .wrongType

/-- A datum without a form in JSON. -/
def other (layout : Layout) (d : Datum) : Except Fault Text :=
  if !layout.showsOthers then .error .wrongType
  else if d.isPrintable then .ok (string d.display)
  else .error .badValue

/-- Written items between brackets. -/
def array (layout : Layout) (items : List Text) : Text :=
  Text.lit "[" ++ Text.joinWith (Text.lit layout.comma) items ++ Text.lit "]"

/-- Written entries between braces. -/
def object (layout : Layout) (entries : List Text) : Text :=
  Text.lit "\x7b" ++ Text.joinWith (Text.lit layout.comma) entries ++ Text.lit "\x7d"

mutual

/-- A datum as JSON. -/
def print (layout : Layout) : Datum → Except Fault Text
  | .null => .ok (Text.lit "null")
  | .bool b => .ok (truth b)
  | .int n => integer n
  | .float x => .ok (number x)
  | .text t => .ok (string t)
  | .list xs => (printItems layout xs).map (array layout)
  | .tuple xs => (printItems layout xs).map (array layout)
  | .map es => (printEntries layout es).map (object layout)
  | d => other layout d
termination_by structural d => d

def printItems (layout : Layout) : List Datum → Except Fault (List Text)
  | [] => .ok []
  | x :: xs => do
    let t ← print layout x
    let ts ← printItems layout xs
    return t :: ts
termination_by structural xs => xs

def printEntries (layout : Layout) : List (Datum × Datum) → Except Fault (List Text)
  | [] => .ok []
  | (k, d) :: es => do
    let name ← key k
    let t ← print layout d
    let ts ← printEntries layout es
    return (string name ++ Text.lit layout.colon ++ t) :: ts
termination_by structural es => es

end

end LogStream.Json
