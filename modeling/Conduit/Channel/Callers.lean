import Conduit.Channel

/-!
# Calls that Wait on a Channel

Any number of calls can use one channel at the same time.  A call that cannot be completed falls
asleep.  A completed send marks one sleeping receiver and a completed receive one sleeping sender,
if there is an unmarked one; closing marks every sleeper.  A marked call, and a timed receive whose
time is up, looks at the channel again when it runs: it completes if it can, and otherwise the
marked call falls asleep unmarked while the timed receive gives up.

Which unmarked sleeper a completion marks is left open, and is a parameter of every operation here.
-/

namespace Conduit.Channel

variable {α : Type}

/-- A call that may have to wait. -/
inductive Call (α : Type) where
  | send (v : α)
  | recv
  | recvFor
  deriving DecidableEq, Repr

/-- Whether a call waits for room. -/
def Call.isSend : Call α → Bool
  | .send _ => true
  | _ => false

/-- How a call is answered: a send is accepted or not, a receive gets a value or none. -/
inductive Reply (α : Type) where
  | sent (accepted : Bool)
  | received (v : Option α)
  deriving DecidableEq, Repr

/-- Completes a call if the state of the channel allows it. -/
def attempt (c : Channel α) : Call α → Option (Channel α × Reply α)
  | .send v => (c.send? v).map fun (c, accepted) => (c, .sent accepted)
  | .recv | .recvFor => c.recv?.map fun (c, v) => (c, .received v)

/-- A sleeping call.  It is marked once it has been told to look again. -/
structure Sleeper (α : Type) where
  id : Nat
  call : Call α
  marked : Bool := false
  deriving DecidableEq, Repr

/-- A channel and the calls that sleep on it. -/
structure Callers (α : Type) where
  channel : Channel α
  sleepers : List (Sleeper α) := []
  deriving DecidableEq, Repr

/-- A way to choose among sleepers: the identity of one of them. -/
abbrev Choice (α : Type) := List (Sleeper α) → Option Nat

/-- The choice of the call that has slept longest. -/
def Choice.first : Choice α := fun sleepers => sleepers.head?.map (·.id)

namespace Callers

/-- No calls on an empty channel. -/
def ofCapacity (capacity : Nat) : Callers α := { channel := .ofCapacity capacity }

/-- The unmarked sleepers that send, or the unmarked ones that receive. -/
def unmarked (s : Callers α) (sending : Bool) : List (Sleeper α) :=
  s.sleepers.filter fun sleeper => !sleeper.marked && sleeper.call.isSend == sending

/-- Marks the sleeper with an identity. -/
def mark (s : Callers α) (id : Nat) : Callers α :=
  { s with sleepers := s.sleepers.map fun sleeper =>
      if sleeper.id = id then { sleeper with marked := true } else sleeper }

/-- Marks one unmarked sender or receiver, if there is one. -/
def notifyOne (choose : Choice α) (sending : Bool) (s : Callers α) : Callers α :=
  match choose (s.unmarked sending) with
  | some id => s.mark id
  | none => s

/-- Marks every sleeper. -/
def notifyAll (s : Callers α) : Callers α :=
  { s with sleepers := s.sleepers.map fun sleeper => { sleeper with marked := true } }

/-- Tells the other side about a completed call.  An accepted value wakes a receiver and a taken one
a sender; a refused send and an empty receive change nothing. -/
def announce (choose : Choice α) (s : Callers α) : Reply α → Callers α
  | .sent true => s.notifyOne choose false
  | .received (some _) => s.notifyOne choose true
  | _ => s

/-- A new call.  It is answered at once or falls asleep. -/
def enter (choose : Choice α) (s : Callers α) (id : Nat) (call : Call α) :
    Callers α × Option (Reply α) :=
  match s.channel.attempt call with
  | some (channel, reply) => (announce choose { s with channel } reply, some reply)
  | none => ({ s with sleepers := s.sleepers ++ [{ id, call }] }, none)

/-- A receive that never waits. -/
def tryRecv (choose : Choice α) (s : Callers α) : Callers α × Reply α :=
  let (channel, v) := s.channel.pop
  (announce choose { s with channel } (.received v), .received v)

/-- Closes the channel. -/
def close (s : Callers α) : Callers α := notifyAll { s with channel := s.channel.close }

/-- The sleepers without the one of an identity. -/
def remove (s : Callers α) (id : Nat) : Callers α :=
  { s with sleepers := s.sleepers.filter fun sleeper => sleeper.id ≠ id }

/-- A marked sleeper looks again: it is answered, or sleeps on unmarked. -/
def resume (choose : Choice α) (s : Callers α) (sleeper : Sleeper α) :
    Callers α × Option (Reply α) :=
  match s.channel.attempt sleeper.call with
  | some (channel, reply) =>
    (announce choose { s.remove sleeper.id with channel } reply, some reply)
  | none =>
    ({ s with sleepers := s.sleepers.map fun other =>
        if other.id = sleeper.id then { other with marked := false } else other }, none)

/-- The time of a sleeping timed receive is up: it takes a value if there is one, and leaves. -/
def expire (choose : Choice α) (s : Callers α) (id : Nat) : Callers α × Reply α :=
  tryRecv choose (s.remove id)

/-- The first marked sleeper, if there is one, looks again.  Answers with its reply. -/
def resumeFirst (choose : Choice α) (s : Callers α) : Callers α × Option (Reply α) :=
  match s.sleepers.find? (·.marked) with
  | some sleeper => s.resume choose sleeper
  | none => (s, none)

end Callers

end Conduit.Channel
