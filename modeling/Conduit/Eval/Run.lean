import Conduit.Eval.Call
import Conduit.Eval.Module

/-!
# Running Requests

Requests are carried out with a bound on how deeply they nest.  Running out of it is told apart from
every other outcome, and a larger bound never changes an outcome that was reached with a smaller
one.
-/

namespace Conduit.Eval

/-- Carries out a request with at most `fuel` requests nested in each other. -/
def run (setup : Setup) : Nat → Runner
  | 0, _ => Act.halt .outOfFuel
  | fuel + 1, .call ctx f arguments => callFn (run setup fuel) ctx f arguments
  | fuel + 1, .load ctx name => loadModule setup (run setup fuel) ctx name

end Conduit.Eval
