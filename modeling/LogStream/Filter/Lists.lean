import LogStream.Filter.Access
import LogStream.Filter.Strings

/-! # Lists

The functions on lists, and on lists as sets. Elements are compared as values. Sorting is stable; it asks
for elements of one ordered type. -/

namespace LogStream.Filter.Dyn

/-- A list. -/
def elements (name : String) (args : List Dyn) : Dyn → Eval (List Dyn)
  | list xs => .ok xs
  | _ => Eval.noOverload name args

def size : Dyn → Eval Dyn
  | string t => .ok (int t.length)
  | bytes bs => .ok (int bs.length)
  | list xs => .ok (int xs.length)
  | map es => .ok (int es.length)
  | v => Eval.noOverload "size" [v]

def reverse : Dyn → Eval Dyn
  | string t => .ok (string t.reverse)
  | list xs => .ok (list xs.reverse)
  | v => Eval.noOverload "reverse" [v]

/-! ### Parts -/

/-- The part of a list from one place to another. -/
def slice (v start stop : Dyn) : Eval Dyn := do
  let xs ← elements "slice" [v] v
  let a ← integer "slice" start
  let b ← integer "slice" stop
  if inOrder xs.length a b then return list ((xs.take b.toNat).drop a.toNat)
  else failRange a b (.sliceOutOfRange a b)

def first (v : Dyn) : Eval Dyn := do return optional (← elements "first" [v] v).head?

def last (v : Dyn) : Eval Dyn := do return optional (← elements "last" [v] v).getLast?

mutual

/-- A value as a list of elements, lists opened up to a depth. -/
def flat (depth : Nat) : Dyn → List Dyn
  | .list xs => if depth = 0 then [.list xs] else flatAll (depth - 1) xs
  | v => [v]
termination_by structural v => v

/-- Elements with the lists among them opened up to a depth. -/
def flatAll (depth : Nat) : List Dyn → List Dyn
  | [] => []
  | x :: xs => flat depth x ++ flatAll depth xs
termination_by structural xs => xs

end

def flatten (v depth : Dyn) : Eval Dyn := do
  let xs ← elements "flatten" [v] v
  let n ← integer "flatten" depth
  if n < 0 then Eval.fail .negativeDepth else return list (flatAll n.toNat xs)

/-- How many integers there is no room for. -/
def rangeLimit : Int := 0x100000000

/-- A list of the integers from zero up to a bound; bounds that are too great are faults. -/
def range (v : Dyn) : Eval Dyn := do
  let n ← integer "lists.range" v
  if int64Max < n then Eval.stop .overflow
  else if rangeLimit ≤ n then Eval.stop .noMemory
  else return list ((List.range n.toNat).map fun (i : Nat) => int i)

/-! ### Sets -/

/-- The elements of which none equals an earlier one. -/
def distinctOf (seen : List Dyn) : List Dyn → List Dyn
  | [] => seen
  | x :: xs => distinctOf (if x.isAmong seen then seen else seen ++ [x]) xs

def distinct (v : Dyn) : Eval Dyn := do
  return list (distinctOf [] (← elements "distinct" [v] v))

/-- Every element of the second list is among those of the first. -/
def containsAll (xs ys : List Dyn) : Bool := ys.all (·.isAmong xs)

/-- A relation of two lists. -/
def relation (name : String) (holds : List Dyn → List Dyn → Bool) (v w : Dyn) : Eval Dyn := do
  let xs ← elements name [v, w] v
  let ys ← elements name [v, w] w
  return bool (holds xs ys)

def setContains : Dyn → Dyn → Eval Dyn := relation "sets.contains" containsAll

def setEquivalent : Dyn → Dyn → Eval Dyn :=
  relation "sets.equivalent" fun xs ys => containsAll xs ys && containsAll ys xs

def setIntersects : Dyn → Dyn → Eval Dyn :=
  relation "sets.intersects" fun xs ys => ys.any (·.isAmong xs)

/-! ### Sorting -/

/-- The names of the ordered types that values belong to, sorted and without repetition. -/
def sortNames (keys : List Dyn) : List String :=
  ((keys.map sortName).eraseDups).mergeSort fun a b => a ≤ b

/-- The keys are of one ordered type. -/
def sameOrder (keys : List Dyn) : Bool :=
  match sortNames keys with
  | [] => true
  | [n] => ordered.contains n
  | _ => false

/-- The length of the run at the front of which each key but the first is less than the one before it, or
of which none is. -/
def sortedRun {α : Type} (down : Bool) : List (Dyn × α) → Nat
  | a :: b :: r => if less b.1 a.1 = down then sortedRun down (b :: r) + 1 else 1
  | r => r.length

/-- Where a key is put in, found by halving. -/
def placeFor {α : Type} (key : Dyn) (sorted : List (Dyn × α)) : Nat → Nat → Nat → Nat
  | 0, low, _ => low
  | fuel + 1, low, high =>
    if low < high then
      let middle := low + (high - low) / 2
      if (sorted[middle]?).any fun s => less key s.1 then placeFor key sorted fuel low middle
      else placeFor key sorted fuel (middle + 1) high
    else low

/-- Items put one after the other into a sorted list by halving. -/
def insertAll {α : Type} (sorted : List (Dyn × α)) : List (Dyn × α) → List (Dyn × α)
  | [] => sorted
  | a :: r =>
    let i := placeFor a.1 sorted (sorted.length + 1) 0 sorted.length
    insertAll (sorted.take i ++ a :: sorted.drop i) r

/-- The second item goes before the first. -/
def startsDown {α : Type} : List (Dyn × α) → Bool
  | a :: b :: _ => less b.1 a.1
  | _ => false

/-- Items in an order that respects the comparisons made, where some keys are not ordered: the run at the
front, turned round if it goes down, takes in the others one by one. -/
def sortPartly {α : Type} (items : List (Dyn × α)) : List (Dyn × α) :=
  let n := sortedRun (startsDown items) items
  let front := items.take n
  insertAll (if startsDown items then front.reverse else front) (items.drop n)

/-- Items in the order of their keys, equal ones in the order they came in. -/
def sortItems {α : Type} (items : List (Dyn × α)) : List (Dyn × α) :=
  if items.any fun a => a.1.number?.any Number.isNaN then sortPartly items
  else items.mergeSort fun a b => !less b.1 a.1

/-- Items in the order of their keys, which have to be of one ordered type. -/
def sortBy {α : Type} (name : String) (items : List (Dyn × α)) : Eval (List α) :=
  let keys := items.map Prod.fst
  if sameOrder keys then .ok ((sortItems items).map Prod.snd)
  else Eval.fail (.notOrderable name (sortNames keys))

def sort (v : Dyn) : Eval Dyn := do
  let xs ← elements "sort" [v] v
  return list (← sortBy "sort" (xs.map fun x => (x, x)))

end LogStream.Filter.Dyn
