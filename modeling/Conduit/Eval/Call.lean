import Conduit.Eval.Builtins
import Conduit.Eval.External
import Conduit.Eval.Pipeline

/-!
# Calling Functions

A closure takes exactly as many arguments as it has parameters.  Its body runs in a new scope that
binds the parameters, with the snapshot of the closure as the scope outside, under the name and text
of the source that the lambda stands in, and with forks of the caller's endpoints, which are closed
when the body is done.
-/

namespace Conduit.Eval

/-- Binds parameters to new variables that hold the arguments. -/
def bindParameters (scope : ScopeId) : List Bytes → List Value → Act Unit
  | name :: names, v :: values => do
    let kind ← Act.kindOf v
    Act.modify fun w =>
      let (id, w) := w.newVariable (.plain (some kind) v)
      w.define scope name id
    bindParameters scope names values
  | _, _ => pure ()

/-- Calls a closure. -/
def callClosure (go : Runner) (ctx : Context) (c : Closure) (arguments : List Value) : Act Unit := do
  if arguments.length ≠ c.parameters.length then Act.raise .arityMismatch
  else do
    let scope ← Act.change fun w => w.newScope {}
    bindParameters scope c.parameters arguments
    let endpoints ← Act.change fun w => w.forkEndpoints ctx.endpoints
    let body : Context :=
      { name := c.name, text := c.text, label := utf8 "closure", scope, outer := c.captured,
        endpoints, chunk := c.chunk }
    (Act.within c.body.span (evalBlock go body c.body)).ensuring body.finish

/-- Calls a function. -/
def callFn (go : Runner) (ctx : Context) (f : Fn) (arguments : List Value) : Act Unit :=
  match f with
  | .builtin b => callBuiltin go ctx b arguments
  | .inert _ => pure ()
  | .external name => callExternal ctx name arguments
  | .closure c => callClosure go ctx c arguments

end Conduit.Eval
