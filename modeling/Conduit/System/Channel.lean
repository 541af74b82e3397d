/-!
Channels: first-in, first-out queues between holders of writing ends and holders of reading
ends.  A writer first offers an item and then waits until the channel has room for it, or,
where there is no room at all, until a reader has taken it.
-/

namespace Conduit

/-- How many hold a side when one more of them takes hold of it.  A hold is only ever copied, so a
side that nobody holds stays given up. -/
def oneMore (holders : Nat) : Nat := if holders = 0 then 0 else holders + 1

structure Channel (α : Type) where
  queue : List α := []
  taken : Nat := 0
  capacity : Option Nat
  writers : Nat := 1
  readers : Nat := 1
  deriving Inhabited, Repr

namespace Channel

variable {α : Type}

def offered (c : Channel α) : Nat := c.taken + c.queue.length

def offer? (c : Channel α) (x : α) : Option (Channel α) :=
  if c.readers = 0 ∨ c.writers = 0 then none else some { c with queue := c.queue ++ [x] }

def hasRoomFor (c : Channel α) (ticket : Nat) : Bool :=
  match c.capacity with
  | none => true
  | some k => ticket ≤ c.taken + k

/-- What has become of the item with the ticket (it was the ticket-th to be offered): accepted,
given up because no reader is left, or, as none, still waiting. -/
def settled? (c : Channel α) (ticket : Nat) : Option Bool :=
  if c.hasRoomFor ticket then some true
  else if c.readers = 0 then some false
  else none

def take? (c : Channel α) : Option (Option α × Channel α) :=
  match c.queue with
  | x :: rest => some (some x, { c with queue := rest, taken := c.taken + 1 })
  | [] => if c.writers = 0 then some (none, c) else none

def addWriter (c : Channel α) : Channel α := { c with writers := oneMore c.writers }

def dropWriter (c : Channel α) : Channel α := { c with writers := c.writers - 1 }

def addReader (c : Channel α) : Channel α := { c with readers := oneMore c.readers }

def dropReader (c : Channel α) : Channel α := { c with readers := c.readers - 1 }

def ofList (items : List α) : Channel α := { queue := items, capacity := none, writers := 0 }

end Channel

end Conduit
