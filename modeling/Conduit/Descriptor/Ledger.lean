import Conduit.Descriptor.Handle

/-!
# Books on Descriptors

A ledger is a rack of handles with books on the descriptors that were opened for them: who owns each
since it was last opened, whether it has been released, and how many times handles have closed it.
The host hands out a number only while it is not open, so a number that has been closed may be
handed out again, and so may one that was released, which somebody else may have closed.

The books follow the closings that the rack asks for, and the rack does not look at them.
-/

namespace Conduit.Descriptor

/-- The handle of a name; an empty one where there is none. -/
def Rack.handle (r : Rack) (name : Bytes) : Handle := (r.get? name).getD {}

/-- An operation on handles.  A descriptor that has just been opened is adopted by a handle; a
handle without a descriptor may be made as well. -/
inductive Operation where
  | adopt (name : Bytes) (descriptor : Int) (owned : Bool)
  | blank (name : Bytes) (h : Handle)
  | assign (source target : Bytes)
  | construct (source target : Bytes)
  | release (name : Bytes)
  | close (name : Bytes)
  | destroy (name : Bytes)
  deriving DecidableEq, Repr

namespace Operation

/-- What an operation does to the handles. -/
def apply (r : Rack) : Operation → Rack
  | adopt name descriptor owned => r.receive name { descriptor, owned }
  | blank name h => r.receive name h
  | assign source target => r.assign source target
  | construct source target => r.construct source target
  | release name => (r.release name).2
  | close name => r.close name
  | destroy name => r.destroy name

/-- The names whose handles an operation moves from, releases or closes. -/
def emptied : Operation → List Bytes
  | assign source target => if source = target then [] else [source]
  | construct source target => if source = target then [] else [source]
  | release name => [name]
  | close name => [name]
  | _ => []

/-- The names whose handles an operation gives something else to hold, or takes away. -/
def renewed : Operation → List Bytes
  | adopt name _ _ => [name]
  | blank name _ => [name]
  | assign source target => if source = target then [] else [target]
  | construct _ target => [target]
  | destroy name => [name]
  | _ => []

end Operation

/-- What has become of a descriptor since it was last opened. -/
structure Opening where
  owned : Bool
  released : Bool := false
  closings : Nat := 0
  deriving DecidableEq, Repr

/-- The openings of descriptors. -/
abbrev Books := Int → Option Opening

namespace Books

/-- The books with a descriptor opened. -/
def enter (books : Books) (descriptor : Int) (owned : Bool) : Books := fun d =>
  if d = descriptor then some { owned } else books d

/-- The books with a descriptor released. -/
def release (books : Books) (descriptor : Int) : Books := fun d =>
  if d = descriptor then (books d).map fun o => { o with released := true } else books d

/-- The books with a descriptor closed.  A number that was never opened here belongs to someone
else. -/
def close (books : Books) (descriptor : Int) : Books := fun d =>
  if d = descriptor then
    let o := (books d).getD { owned := false }
    some { o with closings := o.closings + 1 }
  else books d

/-- Whether the host may hand out a number: it is not open, or it has been released, so that whoever
took it may have closed it, or hands it on. -/
def available (books : Books) (descriptor : Int) : Bool :=
  (books descriptor).all fun o => o.released || o.closings != 0

end Books

/-- Handles, books on the descriptors that were opened for them, and the names of the handles that
were emptied and have not been given anything since. -/
structure Ledger where
  rack : Rack := {}
  books : Books := fun _ => none
  emptied : List Bytes := []

namespace Ledger

/-- What an operation makes known to the books before any closing. -/
def announce (s : Ledger) : Operation → Books
  | .adopt _ descriptor owned => s.books.enter descriptor owned
  | .release name =>
    let h := s.rack.handle name
    if h.isValid then s.books.release h.descriptor else s.books
  | _ => s.books

/-- The ledger after an operation, whose closings are entered in the books one by one. -/
def perform (s : Ledger) (op : Operation) : Ledger :=
  let rack := op.apply s.rack
  { rack
    books := (rack.closings.drop s.rack.closings.length).foldl Books.close (s.announce op)
    emptied := op.emptied ++ s.emptied.filter fun name => !op.renewed.contains name }

/-- An operation can be performed: a descriptor that is adopted has just been opened, and a handle
made without a descriptor has none. -/
def Admits (s : Ledger) : Operation → Prop
  | .adopt _ descriptor _ => 0 ≤ descriptor ∧ s.books.available descriptor = true
  | .blank _ h => h.isValid = false
  | _ => True

instance (s : Ledger) : (op : Operation) → Decidable (s.Admits op)
  | .adopt _ descriptor _ =>
    inferInstanceAs (Decidable (0 ≤ descriptor ∧ s.books.available descriptor = true))
  | .blank _ h => inferInstanceAs (Decidable (h.isValid = false))
  | .assign _ _ | .construct _ _ | .release _ | .close _ | .destroy _ =>
    inferInstanceAs (Decidable True)

/-- Operations one after another, from no handles at all. -/
inductive Run : List Operation → Ledger → Prop
  | start : Run [] {}
  | step {ops : List Operation} {s : Ledger} {op : Operation} :
      Run ops s → s.Admits op → Run (ops ++ [op]) (s.perform op)

/-- A handle holds a descriptor. -/
def Holds (s : Ledger) (name : Bytes) (descriptor : Int) : Prop :=
  (s.rack.handle name).isValid = true ∧ (s.rack.handle name).descriptor = descriptor

end Ledger

end Conduit.Descriptor
