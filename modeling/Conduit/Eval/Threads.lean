import Conduit.Channel
import Conduit.Eval.Pipeline

/-!
# Stages as Threads

The stages of a pipeline run side by side, each in a thread of its own.  Here a stage is a program
that exchanges values with the channel it reads from and the one it writes to, and what it does next
follows from what it has exchanged.  A thread takes one step after another, and any other thread may
take steps in between: it receives or sends a value once the channel lets it, comes to its end, closes
the channel it was writing to, and closes the channel it was reading from.  The first stage reads from
a closed channel.  The last one writes to the output of the pipeline, which never makes it wait, and
leaves it open.

The bytes that stages may pass on as well are not part of this, and neither is how a thread that waits
is woken.
-/

namespace Conduit.Threads

open Eval (StageResult linkCapacity)

variable {α : Type}

/-! ## Programs -/

/-- What a program has exchanged with a channel: a value that it has received, or none since the
channel was closed and drained; or a value that it has sent, and whether the channel accepted it. -/
inductive Exchange (α : Type) where
  | received (v : Option α)
  | sent (v : α) (accepted : Bool)
  deriving DecidableEq, Repr

/-- The value that was received, if there is one. -/
def Exchange.taken? : Exchange α → Option α
  | .received v => v
  | .sent _ _ => none

/-- The value that was sent, if it was accepted. -/
def Exchange.accepted? : Exchange α → Option α
  | .sent v true => some v
  | _ => none

/-- The values received. -/
def taken (history : List (Exchange α)) : List α := history.filterMap Exchange.taken?

/-- The values sent and accepted. -/
def accepted (history : List (Exchange α)) : List α := history.filterMap Exchange.accepted?

/-- What a program does next. -/
inductive Move (α : Type) where
  | receive
  | send (v : α)
  | finish (result : StageResult)
  deriving DecidableEq, Repr

/-- A deterministic program: what it has exchanged tells what it does next. -/
abbrev Program (α : Type) := List (Exchange α) → Move α

/-! ## Threads -/

/-- How far a thread has come: it runs its program, or the program has ended, or its output has been
closed as well, or it is done. -/
inductive Phase where
  | running
  | ended (result : StageResult)
  | released (result : StageResult)
  | done (result : StageResult)
  deriving DecidableEq, Repr

namespace Phase

/-- How the program has ended, if it has. -/
def result? : Phase → Option StageResult
  | .running => none
  | .ended r => some r
  | .released r => some r
  | .done r => some r

/-- Whether the thread has closed its output. -/
def isReleased : Phase → Bool
  | .released _ => true
  | .done _ => true
  | _ => false

/-- Whether the thread is done. -/
def isDone : Phase → Bool
  | .done _ => true
  | _ => false

end Phase

/-- A thread and what it has exchanged so far. -/
structure Thread (α : Type) where
  history : List (Exchange α) := []
  phase : Phase := .running

/-- The threads of a pipeline, and the links between them: each thread reads from the link of its own
number and writes to the next one. -/
structure State (α : Type) where
  threads : Nat → Thread α
  links : Nat → Channel α

namespace State

/-- The state after a thread has exchanged a value with a link. -/
def exchange (s : State α) (i : Nat) (e : Exchange α) (link : Nat) (c : Channel α) : State α where
  threads j := if j = i then { s.threads i with history := (s.threads i).history ++ [e] } else s.threads j
  links j := if j = link then c else s.links j

/-- The state after a thread has come to a phase. -/
def enter (s : State α) (i : Nat) (phase : Phase) : State α :=
  { s with threads := fun j => if j = i then { s.threads i with phase } else s.threads j }

/-- The state after a link has been closed. -/
def closeLink (s : State α) (link : Nat) : State α :=
  { s with links := fun j => if j = link then (s.links link).close else s.links j }

/-- The results of the first threads. -/
def results (s : State α) (n : Nat) : List StageResult :=
  (List.range n).filterMap fun i => (s.threads i).phase.result?

end State

/-- Sends a value on behalf of a thread.  The output of the last of them never makes it wait. -/
def offer (n i : Nat) (c : Channel α) (v : α) : Option (Channel α × Bool) :=
  if i + 1 = n then some (if c.closed then (c, false) else (c.enqueue v, true)) else c.send? v

/-- One step of a thread, if it can take one. -/
def step? (n : Nat) (program : Nat → Program α) (s : State α) (i : Nat) : Option (State α) :=
  if i < n then
    match (s.threads i).phase with
    | .running =>
      match program i (s.threads i).history with
      | .receive => (s.links i).recv?.map fun (c, v) => s.exchange i (.received v) i c
      | .send v =>
        (offer n i (s.links (i + 1)) v).map fun (c, ok) => s.exchange i (.sent v ok) (i + 1) c
      | .finish r => some (s.enter i (.ended r))
    | .ended r => some ((if i + 1 < n then s.closeLink (i + 1) else s).enter i (.released r))
    | .released r => some ((if 0 < i then s.closeLink i else s).enter i (.done r))
    | .done _ => none
  else none

/-- The steps of the threads that a schedule names, one after another, if they can be taken. -/
def run (n : Nat) (program : Nat → Program α) (s : State α) : List Nat → Option (State α)
  | [] => some s
  | i :: rest => (step? n program s i).bind fun s => run n program s rest

/-- The threads at the start: the first one has all of its input, and the links between them are
empty. -/
def start (n : Nat) (input : List α) (output : Channel α) : State α where
  threads _ := {}
  links i :=
    if i = 0 then { capacity := linkCapacity, queue := input, closed := true }
    else if i = n then output
    else .ofCapacity linkCapacity

/-! ## One stage after another -/

/-- Whether one more value is accepted where a limit is set on how many are. -/
def admits (limit : Option Nat) (count : Nat) : Bool := limit.all (count < ·)

/-- What comes of a move of a program that runs alone on a given input. -/
def reply? (limit : Option Nat) (input : List α) (history : List (Exchange α)) :
    Move α → Option (Exchange α)
  | .receive => some (.received input[(taken history).length]?)
  | .send v => some (.sent v (admits limit (accepted history).length))
  | .finish _ => none

namespace Program

/-- What a program can have exchanged that runs alone: all of its input is there, and what it sends
is accepted up to a limit. -/
inductive Reaches (p : Program α) (limit : Option Nat) (input : List α) :
    List (Exchange α) → Prop
  | start : Reaches p limit input []
  | step {h : List (Exchange α)} {e : Exchange α} :
      Reaches p limit input h → reply? limit input h (p h) = some e → Reaches p limit input (h ++ [e])

/-- What a program has exchanged that has run alone to its end, and how it has ended. -/
structure Ends (p : Program α) (limit : Option Nat) (input : List α) (h : List (Exchange α))
    (r : StageResult) : Prop where
  reaches : p.Reaches limit input h
  finish : p h = .finish r

/-- A program that ends on every finite input, however many of its values are accepted, and whose
result does not depend on how many are. -/
structure Regular (p : Program α) : Prop where
  ends : ∀ input limit, ∃ h r, p.Ends limit input h r
  heedless : ∀ {input limit h h' r r'}, p.Ends none input h r → p.Ends limit input h' r' → r' = r

end Program

/-- How many values a stage can send when the stages run one after another: as many as it likes,
unless it is the last one and the output of the pipeline is closed. -/
def sendLimit (n : Nat) (output : Channel α) (i : Nat) : Option Nat :=
  if i + 1 = n ∧ output.closed = true then some 0 else none

/-- The stages of a pipeline run one after another, from left to right.  Each one has all of what the
one before it has sent as its input, and the links never fill up. -/
structure InOrder (n : Nat) (program : Nat → Program α) (input : List α) (output : Channel α) where
  inputs : Nat → List α
  histories : Nat → List (Exchange α)
  outcomes : Nat → StageResult
  first : inputs 0 = input
  next : ∀ i, inputs (i + 1) = accepted (histories i)
  ends : ∀ i < n, (program i).Ends (sendLimit n output i) (inputs i) (histories i) (outcomes i)

namespace InOrder

variable {n : Nat} {program : Nat → Program α} {input : List α} {output : Channel α}

/-- The values on the output of the pipeline. -/
def delivered (q : InOrder n program input output) : List α := output.queue ++ q.inputs n

/-- The results of the stages. -/
def results (q : InOrder n program input output) : List StageResult :=
  (List.range n).map q.outcomes

end InOrder

end Conduit.Threads
