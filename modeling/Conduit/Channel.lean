/-!
# Bounded Channels

A channel is a first-in first-out queue of bounded length that can be closed.  Once it is closed no
value is accepted and the queued values can still be taken.  A send to a full open channel and a
receive from an empty open one cannot be completed yet; the operations say so by returning nothing,
and whoever runs them decides what waiting means.
-/

namespace Conduit

/-- A bounded queue that can be closed. -/
structure Channel (α : Type) where
  capacity : Nat
  queue : List α := []
  closed : Bool := false
  deriving DecidableEq, Repr

namespace Channel

variable {α : Type}

/-- An open empty channel.  Capacity zero behaves as capacity one. -/
def ofCapacity (capacity : Nat) : Channel α := { capacity := max 1 capacity }

/-- Whether the queue has room for one more value. -/
def hasRoom (c : Channel α) : Bool := c.queue.length < c.capacity

/-- The channel with a value put at the end of its queue. -/
def enqueue (c : Channel α) (v : α) : Channel α := { c with queue := c.queue ++ [v] }

/-- Sends a value: says whether it was accepted, or nothing when the send has to wait. -/
def send? (c : Channel α) (v : α) : Option (Channel α × Bool) :=
  if c.closed then some (c, false)
  else if c.hasRoom then some (c.enqueue v, true)
  else none

/-- Takes the first queued value, if there is one. -/
def pop (c : Channel α) : Channel α × Option α :=
  match c.queue with
  | [] => (c, none)
  | v :: rest => ({ c with queue := rest }, some v)

/-- Receives a value: none once the channel is closed and drained, and nothing at all when the
receive has to wait. -/
def recv? (c : Channel α) : Option (Channel α × Option α) :=
  if c.closed || !c.queue.isEmpty then some c.pop else none

/-- The channel closed.  Closing again changes nothing. -/
def close (c : Channel α) : Channel α := { c with closed := true }

/-- The channel with its queue taken, and the values that were in it. -/
def drain (c : Channel α) : Channel α × List α := ({ c with queue := [] }, c.queue)

end Channel

end Conduit
