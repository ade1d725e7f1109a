import LogStream.Wire.Message

/-! # Pools of messages

Messages are lent and come back blank. The message that came back last is lent first; a new one is
made where none is free. A pool keeps up to a limit of free messages, all of them if the limit is not
positive. -/

namespace LogStream.Wire

/-- A message with the number of messages that its pool made before it. -/
structure PooledMessage where
  number : Nat
  content : RecordMessage

/-- Messages that are free, the one that is lent next in front. -/
structure Pool where
  limit : Int := 64
  free : List PooledMessage := []
  made : Nat := 0

namespace Pool

/-- Lends a message. -/
def borrow (p : Pool) : PooledMessage × Pool :=
  match p.free with
  | m :: free => (m, { p with free })
  | [] => (⟨p.made, .blank⟩, { p with made := p.made + 1 })

/-- A pool keeps no more free messages. -/
def isFull (p : Pool) : Bool := 0 < p.limit && p.limit ≤ p.free.length

/-- Takes a message back, cleared. -/
def giveBack (p : Pool) (m : PooledMessage) : Pool :=
  if p.isFull then p else { p with free := { m with content := .blank } :: p.free }

end Pool

/-- Messages that were lent one after the other, each in a slot, and their pool. -/
structure Loans where
  pool : Pool := {}
  slots : List PooledMessage := []

namespace Loans

/-- Lends a message into a new slot. -/
def borrow (l : Loans) : PooledMessage × Loans :=
  let (m, pool) := l.pool.borrow
  (m, { pool, slots := l.slots ++ [m] })

/-- Changes the content of a message, wherever it is. -/
def change (l : Loans) (number : Nat) (f : RecordMessage → RecordMessage) : Loans :=
  let changed (m : PooledMessage) : PooledMessage :=
    if m.number = number then { m with content := f m.content } else m
  { pool := { l.pool with free := l.pool.free.map changed }, slots := l.slots.map changed }

/-- Sets the message text in a slot, if the text has an encoding. -/
def write? (l : Loans) (slot : Nat) (t : Text) : Option Loans :=
  if (Utf8.encode? t).isSome then
    some ((l.slots[slot]?).elim l fun m => l.change m.number fun c => { c with message := t })
  else none

/-- Ends the loan of a slot, which stays a name of its message. -/
def release (l : Loans) (slot : Nat) : Loans :=
  (l.slots[slot]?).elim l fun m =>
    { l with pool := l.pool.giveBack m }.change m.number fun _ => .blank

/-- The message text in a slot. -/
def text (l : Loans) (slot : Nat) : Text := (l.slots[slot]?).elim [] fun m => m.content.message

end Loans

end LogStream.Wire
