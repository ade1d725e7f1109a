import LogStream.Datum.Display

/-! # Dynamic values

What expressions evaluate to, and what the attributes of a record are to them. Two relations are kept
apart: values are equal by type, numbers together; keys of a map are the same by the rule of
dictionaries, where truth values count as numbers. -/

namespace LogStream.Filter

/-- A value of an expression. Unsigned integers are integers here. -/
inductive Dyn
  | null
  | bool (b : Bool)
  | int (n : Int)
  | double (x : Double)
  | string (t : Text)
  | bytes (bs : Bytes)
  | list (xs : List Dyn)
  | map (entries : List (Dyn × Dyn))
  | timestamp (t : Time)
  | duration (d : Duration)
  | optional (content : Option Dyn)
  /-- The members of a group that a lazy value gave. -/
  | members (ms : List Attr)
  /-- A datum that expressions can only hand on. -/
  | foreign (d : Datum)

namespace Dyn

instance : Inhabited Dyn := ⟨null⟩

/-- The name of the type of a value in messages of the evaluator. -/
def typeName : Dyn → String
  | null => "null_type"
  | bool _ => "bool"
  | int _ => "int"
  | double _ => "double"
  | string _ => "string"
  | bytes _ => "bytes"
  | list _ => "list"
  | map _ => "map"
  | timestamp _ => "timestamp"
  | duration _ => "duration"
  | optional _ => "optional"
  | members _ => "tuple"
  | foreign d => d.typeName

/-- The name of the type of a value that a program gave instead of a truth value. -/
def outputName : Dyn → String
  | null => "NoneType"
  | bool _ => "bool"
  | int _ => "int"
  | double _ => "float"
  | string _ => "str"
  | bytes _ => "bytes"
  | list _ => "list"
  | map _ => "dict"
  | timestamp _ => "datetime"
  | duration _ => "timedelta"
  | optional _ => "OptionalValue"
  | members _ => "tuple"
  | foreign d => d.typeName

/-- The number that a value is; truth values are none. -/
def number? : Dyn → Option Number
  | int n => some (.int n)
  | double x => some (.double x)
  | _ => none

def isNumber (v : Dyn) : Bool := v.number?.isSome

end Dyn

/-! ### Data as values -/

mutual

/-- The value of a datum: lists and dictionaries all the way down. -/
def Dyn.ofDatum : Datum → Dyn
  | .null => .null
  | .bool b => .bool b
  | .int n => .int n
  | .float x => .double x
  | .text t => .string t
  | .bytes bs => .bytes bs
  | .time t => .timestamp t
  | .duration d => .duration d
  | .list xs => .list (Dyn.ofData xs)
  | .map es => .map (Dyn.ofEntries es)
  | d => .foreign d
termination_by structural d => d

def Dyn.ofData : List Datum → List Dyn
  | [] => []
  | d :: ds => Dyn.ofDatum d :: Dyn.ofData ds
termination_by structural ds => ds

def Dyn.ofEntries : List (Datum × Datum) → List (Dyn × Dyn)
  | [] => []
  | (k, d) :: es => (Dyn.ofDatum k, Dyn.ofDatum d) :: Dyn.ofEntries es
termination_by structural es => es

end

/-! ### Keys -/

namespace Dyn

/-- The number that a key counts as; truth values count as one and zero. -/
def keyNumber? : Dyn → Option Number
  | bool b => some (.int (if b then 1 else 0))
  | v => v.number?

end Dyn

mutual

/-- The same as keys of a map: numbers and truth values by value, all else by type and content. A
not-a-number is the same as no key. -/
def Dyn.sameKey : Dyn → Dyn → Bool
  | .null, w => match w with | .null => true | _ => false
  | .bool b, w => w.keyNumber?.any (Number.equal (.int (if b then 1 else 0)))
  | .int n, w => w.keyNumber?.any (Number.equal (.int n))
  | .double x, w => w.keyNumber?.any (Number.equal (.double x))
  | .string t, w => match w with | .string u => t == u | _ => false
  | .bytes b, w => match w with | .bytes c => b == c | _ => false
  | .list xs, w => match w with | .list ys => Dyn.sameKeys xs ys | _ => false
  | .map es, w => match w with
    | .map fs => es.length == fs.length && Dyn.sameKeyEntries es fs
    | _ => false
  | .timestamp t, w => match w with | .timestamp u => t.same u | _ => false
  | .duration d, w => match w with | .duration c => d = c | _ => false
  | .optional none, w => match w with | .optional none => true | _ => false
  | .optional (some v), w => match w with | .optional (some u) => Dyn.sameKey v u | _ => false
  | .members ms, w => match w with
    | .members ns => Value.sameMembers ms ns
    | .foreign (.tuple []) => ms.isEmpty
    | _ => false
  | .foreign d, w => match w with
    | .foreign e => d.same e
    | .members [] => match d with | .tuple [] => true | _ => false
    | _ => false
termination_by structural v => v

def Dyn.sameKeys : List Dyn → List Dyn → Bool
  | [], ys => ys.isEmpty
  | x :: xs, ys => match ys with
    | [] => false
    | y :: ys => Dyn.sameKey x y && Dyn.sameKeys xs ys
termination_by structural xs => xs

def Dyn.sameKeyEntries : List (Dyn × Dyn) → List (Dyn × Dyn) → Bool
  | [], _ => true
  | (k, v) :: es, fs =>
    fs.any (fun f => Dyn.sameKey k f.1 && Dyn.sameKey v f.2) && Dyn.sameKeyEntries es fs
termination_by structural es => es

end

namespace Dyn

/-- A value can be a key: it is and holds no list and no map. -/
def isHashable : Dyn → Bool
  | list _ => false
  | map _ => false
  | optional none => true
  | optional (some v) => isHashable v
  | members ms => Value.membersHashable ms
  | foreign d => d.isHashable
  | _ => true

/-- The entry of a map under a key. -/
def binding? (key : Dyn) (entries : List (Dyn × Dyn)) : Option (Dyn × Dyn) :=
  entries.find? fun e => key.sameKey e.1

/-- The content of a map under a key. -/
def lookup? (key : Dyn) (entries : List (Dyn × Dyn)) : Option Dyn := (binding? key entries).map Prod.snd

end Dyn

/-! ### Equality -/

mutual

/-- Equal as values: numbers by value, all else only to values of the same type. -/
def Dyn.equals : Dyn → Dyn → Bool
  | .int n, w => w.number?.any (Number.equal (.int n))
  | .double x, w => w.number?.any (Number.equal (.double x))
  | .bool b, w => match w with | .bool c => b == c | _ => false
  | .list xs, w => match w with | .list ys => Dyn.equalLists xs ys | _ => false
  | .map es, w => match w with
    | .map fs => es.length == fs.length && Dyn.equalEntries es fs
    | _ => false
  | .optional none, w => match w with | .optional none => true | _ => false
  | .optional (some v), w => match w with | .optional (some u) => Dyn.equals v u | _ => false
  | v, w => Dyn.sameKey v w
termination_by structural v => v

def Dyn.equalLists : List Dyn → List Dyn → Bool
  | [], ys => ys.isEmpty
  | x :: xs, ys => match ys with
    | [] => false
    | y :: ys => Dyn.equals x y && Dyn.equalLists xs ys
termination_by structural xs => xs

/-- Each key is a key of the other map, with an equal content there. -/
def Dyn.equalEntries : List (Dyn × Dyn) → List (Dyn × Dyn) → Bool
  | [], _ => true
  | (k, v) :: es, fs =>
    (match Dyn.lookup? k fs with
      | some w => Dyn.equals v w
      | none => false) && Dyn.equalEntries es fs
termination_by structural es => es

end

/-! ### Order -/

namespace Dyn

/-- The order of two values, if they are of one ordered type and neither is a not-a-number; `none` says
that they are of no ordered type, `some none` that one is a not-a-number. -/
def compare? : Dyn → Dyn → Option (Option Ordering)
  | string t, string u => some (some (Text.compare t u))
  | bytes b, bytes c => some (some (Bytes.compare b c))
  | bool b, bool c => some (some (Ord.compare b.toNat c.toNat))
  | timestamp t, timestamp u => some (some (t.compare u))
  | duration d, duration c => some (some (Ord.compare d.micros c.micros))
  | v, w =>
    match v.number?, w.number? with
    | some a, some b => some (Number.compare? a b)
    | _, _ => none

/-- The first value is less than the second. -/
def less (v w : Dyn) : Bool := compare? v w == some (some .lt)

/-- The name of the ordered type that a value belongs to, numbers taken together. -/
def sortName (v : Dyn) : String := if v.isNumber then "number" else v.typeName

/-- The names of the ordered types. -/
def ordered : List String := ["number", "string", "bytes", "bool", "timestamp", "duration"]

end Dyn

/-! ### Text -/

mutual

/-- A value as it is shown inside another one. -/
def Dyn.shown : Dyn → Text
  | .null => Text.lit "None"
  | .bool b => truthText b
  | .int n => Text.ofInt n
  | .double x => x.toText
  | .string t => Text.quoted t
  | .bytes bs => Bytes.quoted bs
  | .list xs => Text.lit "[" ++ Text.commaList (Dyn.shownAll xs) ++ Text.lit "]"
  | .map es => Text.lit "\x7b" ++ Text.commaList (Dyn.shownEntries es) ++ Text.lit "\x7d"
  | .timestamp t => t.fieldsText
  | .duration d => d.partsText
  | .optional none => Text.lit "OptionalValue(present=False, value=None)"
  | .optional (some v) => Text.lit "OptionalValue(present=True, value=" ++ Dyn.shown v ++ Text.lit ")"
  | .members ms => tupleText (Value.shownMembers ms)
  | .foreign d => d.shown
termination_by structural v => v

def Dyn.shownAll : List Dyn → List Text
  | [] => []
  | x :: xs => Dyn.shown x :: Dyn.shownAll xs
termination_by structural xs => xs

def Dyn.shownEntries : List (Dyn × Dyn) → List Text
  | [] => []
  | (k, v) :: es => (Dyn.shown k ++ Text.lit ": " ++ Dyn.shown v) :: Dyn.shownEntries es
termination_by structural es => es

end

mutual

/-- No integer in the value is too long to be written out. -/
def Dyn.isPrintable : Dyn → Bool
  | .int n => (Datum.int n).isPrintable
  | .list xs => Dyn.allPrintable xs
  | .map es => Dyn.entriesPrintable es
  | .optional (some v) => Dyn.isPrintable v
  | .members ms => Value.membersPrintable ms
  | .foreign d => d.isPrintable
  | _ => true
termination_by structural v => v

def Dyn.allPrintable : List Dyn → Bool
  | [] => true
  | x :: xs => Dyn.isPrintable x && Dyn.allPrintable xs
termination_by structural xs => xs

def Dyn.entriesPrintable : List (Dyn × Dyn) → Bool
  | [] => true
  | (k, v) :: es => Dyn.isPrintable k && Dyn.isPrintable v && Dyn.entriesPrintable es
termination_by structural es => es

end

namespace Dyn

/-- A value as it is shown on its own. -/
def display : Dyn → Text
  | string t => t
  | timestamp t => t.isoWith " "
  | duration d => d.clockText
  | v => v.shown

end Dyn

end LogStream.Filter
