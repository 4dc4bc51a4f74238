import Conduit.Context

/-!
# Requests

Evaluation follows the structure of code.  What that structure does not bound, calling a function
and loading a module, is handed over as a request to whoever runs the evaluation.
-/

namespace Conduit.Eval

/-- A step that leaves the code at hand: a call of a function with arguments, or the load of a
module. -/
inductive Request where
  | call (ctx : Context) (f : Fn) (arguments : List Value)
  | load (ctx : Context) (name : Bytes)

/-- Whoever carries out requests. -/
abbrev Runner := Request → Act Unit

end Conduit.Eval
