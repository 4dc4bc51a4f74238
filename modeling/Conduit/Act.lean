import Conduit.World

/-!
# Actions

Evaluation is made of actions, which read and change the state of the shell and end in one of four
ways: with a result, with a raised script error, with a foreign exception of the host, or not at
all.  The state reached is kept in every case.  Not ending has a reason of its own: the bound on
nested calls was reached, an operation would wait for good, or the kind of an absent value was asked
for.
-/

namespace Conduit

/-- Why an action does not end. -/
inductive Halt where
  | outOfFuel
  | blocked
  | absentValue
  deriving DecidableEq, Repr

/-- How an action ends. -/
inductive Outcome (α : Type) where
  | done (a : α)
  | raised (e : Error)
  | foreign (what : Bytes)
  | halted (reason : Halt)

/-- An action on the state of the shell. -/
def Act (α : Type) := World → Outcome α × World

namespace Act

variable {α β : Type}

/-- The action that only yields a result. -/
protected def pure (a : α) : Act α := fun w => (.done a, w)

/-- One action after another.  The second runs only if the first yields a result. -/
protected def bind (act : Act α) (next : α → Act β) : Act β := fun w =>
  match act w with
  | (.done a, w) => next a w
  | (.raised e, w) => (.raised e, w)
  | (.foreign what, w) => (.foreign what, w)
  | (.halted reason, w) => (.halted reason, w)

instance : Monad Act where
  pure := Act.pure
  bind := Act.bind

/-- The current state. -/
def world : Act World := fun w => (.done w, w)

/-- Changes the state. -/
def modify (f : World → World) : Act Unit := fun w => (.done (), f w)

/-- Changes the state and yields a result. -/
def change (f : World → α × World) : Act α := fun w =>
  let (a, w) := f w
  (.done a, w)

/-- Raises a script error. -/
def raise (e : Error) : Act α := fun w => (.raised e, w)

/-- Raises a foreign exception. -/
def throwForeign (what : Bytes) : Act α := fun w => (.foreign what, w)

/-- Does not end. -/
def halt (reason : Halt) : Act α := fun w => (.halted reason, w)

/-- Raises a plain error blamed on the span under evaluation. -/
def fail (message : Bytes) : Act α := fun w => (.raised (.blaming w.here message), w)

/-- The result of a pure computation, or the error it gives. -/
def ofExcept : Except Error α → Act α
  | .ok a => pure a
  | .error e => raise e

/-- The result that is there, or not ending for a reason. -/
def orHalt (reason : Halt) : Option α → Act α
  | some a => pure a
  | none => halt reason

/-- An action followed by a change of state, however the action ends. -/
def ensuring (act : Act α) (cleanup : World → World) : Act α := fun w =>
  let (outcome, w) := act w
  (outcome, cleanup w)

/-- An action followed by a change of state unless the action yields a result. -/
def orElseChange (act : Act α) (cleanup : World → World) : Act α := fun w =>
  match act w with
  | (.done a, w) => (.done a, w)
  | (outcome, w) => (outcome, cleanup w)

/-- An action that starts with a span under evaluation of its own and leaves the caller's in
place. -/
def within (span : Span) (act : Act α) : Act α := fun w =>
  let (outcome, after) := act { w with here := span }
  (outcome, { after with here := w.here })

/-- An action that starts with the caller's span under evaluation and leaves it in place. -/
def apart (act : Act α) : Act α := fun w => within w.here act w

/-- Protected evaluation: a raised error becomes a result, blamed on the span under evaluation if it
is blamed on none. -/
def attempt (act : Act Unit) : Act (Option Error) := fun w =>
  match act w with
  | (.done (), w) => (.done none, w)
  | (.raised e, w) => (.done (some (e.orSpan w.here)), w)
  | (.foreign what, w) => (.foreign what, w)
  | (.halted reason, w) => (.halted reason, w)

/-- Raises `Interrupted` when the interrupt flag is set. -/
def checkInterrupt : Act Unit := fun w =>
  if w.interrupted then (.raised .interrupted, w) else (.done (), w)

end Act

end Conduit
