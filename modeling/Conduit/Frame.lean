import Conduit.Shell

/-!
# Frames

A frame is a context together with the span under evaluation in it.  Whoever embeds a shell can make
frames, run protected code in them and look at them; running code in a frame moves the span to the
form that was evaluated last.
-/

namespace Conduit

/-- A context and the span under evaluation in it. -/
structure Frame where
  ctx : Context
  span : Span

namespace Frame

variable {α : Type}

/-- Runs an action in a frame, and says where its span has moved to. -/
def run (frame : Frame) (act : Act α) : World → (Outcome α × Frame) × World := fun w =>
  let (outcome, after) := act { w with here := frame.span }
  ((outcome, { frame with span := after.here }), { after with here := w.here })

/-- A frame at top level, whose span covers the text. -/
def top (name text : Bytes) (endpoints : List (Option EndpointId)) : Act Frame := do
  let ctx ← Shell.topContext name text default endpoints
  pure ⟨ctx, Shell.wholeSpan text⟩

/-- A fork of a frame under another label. -/
def fork (frame : Frame) (label : Bytes) : Act Frame := do
  let ctx ← frame.ctx.fork label
  pure ⟨ctx, frame.span⟩

/-- The frame with its span moved. -/
def moved (frame : Frame) (span : Span) : Frame := { frame with span }

/-- The frame with an endpoint put at a position. -/
def setEndpoint (frame : Frame) (n : Nat) (e : Option EndpointId) : Act Frame := do
  let ctx ← frame.ctx.setEndpoint n e
  pure { frame with ctx }

/-- The frame with more places for endpoints. -/
def grow (frame : Frame) (length : Nat) : Frame := { frame with ctx := frame.ctx.grow length }

end Frame

end Conduit
