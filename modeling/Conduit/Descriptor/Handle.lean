import Conduit.Bytes

/-!
# Descriptor Handles

A handle holds a descriptor, which it may own, or no descriptor at all.  Moving a handle hands the
descriptor and the ownership over and empties the source, which keeps its mark of ownership.  An
owned descriptor is closed when its handle is closed, destroyed or given another one; a released
descriptor is left open.  Moving a handle onto itself changes nothing.
-/

namespace Conduit.Descriptor

/-- A handle.  A negative number stands for no descriptor. -/
structure Handle where
  descriptor : Int := -1
  owned : Bool := true
  deriving DecidableEq, Repr

namespace Handle

/-- Whether a handle holds a descriptor. -/
def isValid (h : Handle) : Bool := 0 ≤ h.descriptor

/-- A handle after its descriptor has been taken out of it. -/
def emptied (h : Handle) : Handle := { h with descriptor := -1 }

/-- The descriptor that closing a handle closes, if it does close one. -/
def closes? (h : Handle) : Option Int := if h.isValid && h.owned then some h.descriptor else none

/-- A handle after closing. -/
def close (h : Handle) : Handle := if h.isValid then h.emptied else h

end Handle

/-- Named handles, and the descriptors that they have closed so far, in order. -/
structure Rack where
  handles : List (Bytes × Handle) := []
  closings : List Int := []
  deriving DecidableEq, Repr

namespace Rack

/-- The handle of a name. -/
def get? (r : Rack) (name : Bytes) : Option Handle := r.handles.lookup name

/-- The entries with the handle of a name replaced, or added at the end. -/
def insert (name : Bytes) (h : Handle) : List (Bytes × Handle) → List (Bytes × Handle)
  | [] => [(name, h)]
  | entry :: others =>
    if entry.1 = name then (name, h) :: others else entry :: insert name h others

/-- The rack with a handle put under a name; what stood there is forgotten, not closed. -/
def put (r : Rack) (name : Bytes) (h : Handle) : Rack := { r with handles := insert name h r.handles }

/-- The rack after the descriptor of a handle, if it closes one, has been closed. -/
def closing (r : Rack) (h : Handle) : Rack := { r with closings := r.closings ++ h.closes?.toList }

/-- Moves a new handle onto a name, which holds an empty handle if it was not there. -/
def receive (r : Rack) (name : Bytes) (h : Handle) : Rack :=
  (r.closing ((r.get? name).getD {})).put name h

/-- Moves the handle of one name onto another. -/
def assign (r : Rack) (source target : Bytes) : Rack :=
  if source = target then r
  else
    let h := (r.get? source).getD {}
    (r.receive target h).put source h.emptied

/-- Makes a handle by moving that of one name, and puts it under another name, where it replaces
the handle that is destroyed. -/
def construct (r : Rack) (source target : Bytes) : Rack :=
  let h := (r.get? source).getD {}
  (r.put source h.emptied).receive target h

/-- Takes the descriptor out of the handle of a name without closing it. -/
def release (r : Rack) (name : Bytes) : Int × Rack :=
  let h := (r.get? name).getD {}
  (h.descriptor, r.put name h.emptied)

/-- Closes the handle of a name. -/
def close (r : Rack) (name : Bytes) : Rack :=
  let h := (r.get? name).getD {}
  (r.closing h).put name h.close

/-- Destroys the handle of a name. -/
def destroy (r : Rack) (name : Bytes) : Rack :=
  let r := r.closing ((r.get? name).getD {})
  { r with handles := r.handles.filter fun entry => entry.1 ≠ name }

/-- Whether a descriptor that was opened is still open. -/
def isOpen (r : Rack) (descriptor : Int) : Bool := !r.closings.contains descriptor

end Rack

end Conduit.Descriptor
