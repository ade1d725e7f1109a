import LogStream.Text.Basic
import LogStream.Number.Basic
import LogStream.Time.Basic

/-! # Data and values

A datum is whatever a program hands to the logger. A value is a datum with the kind that decides how
it is written; a group holds further values under keys. A value of the lazy kind holds a datum that
is asked for what to log when the record is written. -/

namespace LogStream

/-- Which variant a value is, groups and empty values apart. -/
inductive Kind
  | bool
  | int
  | uint
  | float
  | string
  | time
  | duration
  | any
  | lazy
deriving DecidableEq, Repr

mutual

/-- What a program may hand to the logger. -/
inductive Datum
  | null
  | bool (b : Bool)
  | int (n : Int)
  | float (x : Double)
  | text (t : Text)
  | bytes (bs : Bytes)
  | time (t : Time)
  | duration (d : Duration)
  | list (xs : List Datum)
  | tuple (xs : List Datum)
  | map (entries : List (Datum × Datum))
  /-- A payload that is encoded already, under a tag that says how. -/
  | sealed (tag : Text) (data : Bytes)
  /-- An object that gives the datum to log in its place. -/
  | lazy (inner : Datum)
  /-- An object that gives itself to log in its place. -/
  | loop
  /-- An object that fails when asked for what to log. -/
  | broken
  /-- An object that cannot be asked and cannot be serialized. -/
  | thing
  | value (v : Value)

/-- A value to log. -/
inductive Value
  | empty
  /-- A value of a kind with a payload that is checked when it is encoded. -/
  | held (kind : Kind) (payload : Datum)
  | group (members : List (Text × Value))
  /-- A value whose kind is a name that nobody knows. -/
  | foreign (name : Text)

end

instance : Inhabited Datum := ⟨.null⟩
instance : Inhabited Value := ⟨.empty⟩

/-- A value under a key. -/
abbrev Attr := Text × Value

namespace Kind

/-- The name of a kind. -/
def name : Kind → String
  | bool => "bool"
  | int => "int"
  | uint => "uint"
  | float => "float"
  | string => "string"
  | time => "time"
  | duration => "duration"
  | any => "any"
  | lazy => "log_valuer"

/-- The name of a kind as a member of its enumeration. -/
def memberName (k : Kind) : Text := Text.upperAscii (Text.lit k.name)

end Kind

namespace Datum

/-- The name of the type of a datum. -/
def typeName : Datum → String
  | null => "NoneType"
  | bool _ => "bool"
  | int _ => "int"
  | float _ => "float"
  | text _ => "str"
  | bytes _ => "bytes"
  | time _ => "datetime"
  | duration _ => "timedelta"
  | list _ => "list"
  | tuple _ => "tuple"
  | map _ => "dict"
  | sealed _ _ => "Opaque"
  | lazy _ => "Lazy"
  | loop => "Loop"
  | broken => "Broken"
  | thing => "Thing"
  | value _ => "Value"

/-- The datum is asked for what to log in its place. -/
def isLazy : Datum → Bool
  | lazy _ => true
  | loop => true
  | broken => true
  | _ => false

/-- The number that a datum is; truth values count as one and zero. -/
def number? : Datum → Option Number
  | bool b => some (.int (if b then 1 else 0))
  | int n => some (.int n)
  | float x => some (.double x)
  | _ => none

/-- The datum counts as true. -/
def truth : Datum → Bool
  | null => false
  | bool b => b
  | int n => n != 0
  | float x => !x.isZero
  | text t => !t.isEmpty
  | bytes bs => !bs.isEmpty
  | duration d => d.micros != 0
  | list xs => !xs.isEmpty
  | tuple xs => !xs.isEmpty
  | map es => !es.isEmpty
  | _ => true

end Datum

/-! ### Equality

Data are the same if they are equal as keys of a dictionary: numbers by value, whatever their type,
times by instant, dictionaries whatever the order of their entries. A not-a-number is the same as
one with the same bits, and objects are the same if they are of one sort with the same content; as
keys, though, both are told apart from all others. -/

namespace Time

/-- Equal as times: by instant, or by wall clock where both have no offset. -/
def same (t u : Time) : Bool :=
  t.offset.isSome == u.offset.isSome && t.instant == u.instant

end Time

mutual

def Datum.same : Datum → Datum → Bool
  | .null, e => match e with | .null => true | _ => false
  | .bool b, e => match e.number? with
    | some n => Number.equal (.int (if b then 1 else 0)) n
    | none => false
  | .int m, e => match e.number? with
    | some n => Number.equal (.int m) n
    | none => false
  | .float x, e => match e with
    | .float y => x = y || x.equal y
    | e => match e.number? with
      | some n => Number.equal (.double x) n
      | none => false
  | .text t, e => match e with | .text u => t == u | _ => false
  | .bytes b, e => match e with | .bytes c => b == c | _ => false
  | .time t, e => match e with | .time u => t.same u | _ => false
  | .duration d, e => match e with | .duration c => d = c | _ => false
  | .list xs, e => match e with | .list ys => Datum.sameList xs ys | _ => false
  | .tuple xs, e => match e with | .tuple ys => Datum.sameList xs ys | _ => false
  | .map es, e => match e with
    | .map fs => es.length == fs.length && Datum.sameEntries es fs
    | _ => false
  | .sealed t b, e => match e with | .sealed u c => t == u && b == c | _ => false
  | .lazy d, e => match e with | .lazy c => Datum.same d c | _ => false
  | .loop, e => match e with | .loop => true | _ => false
  | .broken, e => match e with | .broken => true | _ => false
  | .thing, e => match e with | .thing => true | _ => false
  | .value v, e => match e with | .value w => Value.same v w | _ => false
termination_by structural d => d

/-- Lists of the same data. -/
def Datum.sameList : List Datum → List Datum → Bool
  | [], ys => ys.isEmpty
  | x :: xs, ys => match ys with
    | [] => false
    | y :: ys => Datum.same x y && Datum.sameList xs ys
termination_by structural xs => xs

/-- Every entry has one with the same key and the same content. -/
def Datum.sameEntries : List (Datum × Datum) → List (Datum × Datum) → Bool
  | [], _ => true
  | (k, d) :: es, fs =>
    fs.any (fun f => Datum.same k f.1 && Datum.same d f.2) && Datum.sameEntries es fs
termination_by structural es => es

def Value.same : Value → Value → Bool
  | .empty, w => match w with | .empty => true | _ => false
  | .held k d, w => match w with | .held l e => k = l && Datum.same d e | _ => false
  | .group ms, w => match w with | .group ns => Value.sameMembers ms ns | _ => false
  | .foreign n, w => match w with | .foreign m => n == m | _ => false
termination_by structural v => v

/-- Lists of the same attributes. -/
def Value.sameMembers : List (Text × Value) → List (Text × Value) → Bool
  | [], ns => ns.isEmpty
  | (k, v) :: ms, ns => match ns with
    | [] => false
    | (l, w) :: ns => k == l && Value.same v w && Value.sameMembers ms ns
termination_by structural ms => ms

end

mutual

/-- As a key the datum is told apart from all others: it is or holds a not-a-number or an object. -/
def Datum.isUnique : Datum → Bool
  | .float x => x.isNaN
  | .tuple xs => Datum.anyUnique xs
  | .lazy _ => true
  | .loop => true
  | .broken => true
  | .thing => true
  | _ => false
termination_by structural d => d

def Datum.anyUnique : List Datum → Bool
  | [] => false
  | x :: xs => Datum.isUnique x || Datum.anyUnique xs
termination_by structural xs => xs

end

mutual

/-- The datum can be a key: it is and holds no list and no dictionary. -/
def Datum.isHashable : Datum → Bool
  | .list _ => false
  | .map _ => false
  | .tuple xs => Datum.allHashable xs
  | .value v => Value.isHashable v
  | _ => true
termination_by structural d => d

def Datum.allHashable : List Datum → Bool
  | [] => true
  | x :: xs => Datum.isHashable x && Datum.allHashable xs
termination_by structural xs => xs

/-- A value of which the payload can be a key. -/
def Value.isHashable : Value → Bool
  | .held _ d => Datum.isHashable d
  | .group ms => Value.membersHashable ms
  | _ => true
termination_by structural v => v

def Value.membersHashable : List (Text × Value) → Bool
  | [] => true
  | (_, v) :: ms => Value.isHashable v && Value.membersHashable ms
termination_by structural ms => ms

end

namespace Datum

/-- A dictionary with a key bound: an equal key keeps its place and its form. -/
def putEntry (entries : List (Datum × Datum)) (key content : Datum) : List (Datum × Datum) :=
  if !key.isUnique && entries.any fun e => e.1.same key then
    entries.map fun e => if e.1.same key then (e.1, content) else e
  else entries ++ [(key, content)]

/-- The dictionary of a list of entries, of which the later win. -/
def mapOf (entries : List (Datum × Datum)) : Datum :=
  map (entries.foldl (fun es e => putEntry es e.1 e.2) [])

end Datum

/-! ### Attributes as a mapping -/

namespace Attrs

variable {α : Type}

/-- A mapping with a key bound: an equal key keeps its place. -/
def put (attrs : List (Text × α)) (key : Text) (v : α) : List (Text × α) :=
  if attrs.any fun a => a.1 == key then attrs.map fun a => if a.1 == key then (key, v) else a
  else attrs ++ [(key, v)]

/-- A key that was bound already keeps its place, and a new one is the last. -/
theorem map_fst_put (attrs : List (Text × α)) (key : Text) (v : α) :
    (put attrs key v).map Prod.fst =
      if attrs.any fun a => a.1 == key then attrs.map Prod.fst
      else attrs.map Prod.fst ++ [key] := by
  unfold put
  split
  · rw [List.map_map]
    apply List.map_congr_left
    intro a _
    by_cases h : a.1 = key <;> simp [h]
  · simp

/-- Binding a key anew leaves the others. -/
theorem lookup_rebound {key k : Text} (h : k ≠ key) (v : α) (attrs : List (Text × α)) :
    (attrs.map fun a => if a.1 = key then (key, v) else a).lookup k = attrs.lookup k := by
  induction attrs with
  | nil => rfl
  | cons a as ih =>
    obtain ⟨x, w⟩ := a
    by_cases hx : x = key
    · subst hx
      simp [List.lookup_cons, beq_false_of_ne h, ih]
    · by_cases hk : k = x
      · subst hk
        simp [hx]
      · simp [List.lookup_cons, hx, beq_false_of_ne hk, ih]

/-- A key has the content that was bound last, and all other keys have what they had. -/
theorem lookup_put (attrs : List (Text × α)) (key k : Text) (v : α) :
    (put attrs key v).lookup k = if k = key then some v else attrs.lookup k := by
  induction attrs with
  | nil => by_cases hk : k = key <;> simp [put, List.lookup_cons, hk, beq_false_of_ne]
  | cons a as ih =>
    obtain ⟨x, w⟩ := a
    by_cases hx : x = key
    · subst hx
      by_cases hk : k = x
      · subst hk
        simp [put]
      · simp [put, List.lookup_cons, beq_false_of_ne hk, hk, lookup_rebound hk]
    · have hp : put ((x, w) :: as) key v = (x, w) :: put as key v := by
        unfold put
        simp only [List.any_cons, beq_false_of_ne hx, Bool.false_or, List.map_cons, List.cons_append]
        split <;> simp
      rw [hp]
      by_cases hk : k = x
      · subst hk
        simp [hx]
      · simp [List.lookup_cons, beq_false_of_ne hk, ih]

/-- A mapping with the bindings of another one put into it in order. -/
def putAll (attrs more : List (Text × α)) : List (Text × α) :=
  more.foldl (fun as a => put as a.1 a.2) attrs

end Attrs

end LogStream
