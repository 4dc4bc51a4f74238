import Conduit.Eval.Expr

/-!
# Evaluating Forms

A command evaluates its head, then its arguments, then its redirections in a fork of the context,
each in the fork as the ones before have left it, and then calls the function.  An assignment
evaluates its values, finds its targets, writes, and only then binds the names that were not there.
-/

namespace Conduit.Eval

open Code (Redirection Form)

/-- Notes that a form begins, which makes its span the one under evaluation. -/
def beginForm (span : Span) : Act Unit :=
  Act.modify fun w => { w with here := span }.note (.form span w.interrupted)

/-! ## Redirections -/

/-- The access that an open mode gives. -/
def accessOf : Host.OpenMode → Access
  | .read => .read
  | .write => .write
  | .append => .append
  | .readWrite => .readWrite

/-- Opens a file, as a stream that nothing holds yet. -/
def openFile (mode : Host.OpenMode) (path : Bytes) : Act StreamId := fun w =>
  match w.files.openFile w.directory mode path with
  | .ok (files, node) =>
    let (stream, w) := { w with files }.newStream (.file node 0 (accessOf mode)) true
    (.done stream, w)
  | .error reason =>
    (.raised ⟨.io, utf8 "open " ++ path ++ utf8 ": " ++ reason.text, none⟩, w)

/-- The single text that a redirection target amounts to. -/
def redirectionPath (span : Span) : List Value → Act Bytes
  | [v] => Act.ofExcept (v.toText (utf8 "redirection target"))
  | _ => Act.raise (.blaming span (utf8 "redirection target must be a single string"))

/-- The context after one redirection: the endpoint has the opened file and keeps the channel of
the endpoint that it replaces. -/
def redirect (go : Runner) (ctx : Context) : Redirection → Act Context
  | .mk span destination mode target => do
    let values ← evalExpr go ctx target
    let path ← redirectionPath span values
    let stream ← openFile mode path
    let e ← Act.change fun w =>
      w.newEndpoint { stream := some stream, channel := ctx.channel? w destination }
    ctx.setEndpoint destination (some e)

/-- Runs an action in a context that goes away afterwards, with redirections made first. -/
def withRedirections (go : Runner) (ctx : Context) (act : Context → Act Unit) :
    List Redirection → Act Unit
  | [] => (act ctx).ensuring ctx.drop
  | r :: rest => do
    let ctx ← (redirect go ctx r).orElseChange ctx.drop
    withRedirections go ctx act rest

/-! ## Assignments -/

/-- Where a target leads, and the name to bind when it leads to a new variable. -/
structure Destination where
  place : Place
  rest : Bool
  created : Option (Bytes × VariableId) := none

/-- Finds a target.  An unqualified or local name that leads nowhere gets a new variable, which is
not bound yet. -/
def findTarget (go : Runner) (ctx : Context) (t : Target) : Act Destination := do
  match ← resolve go ctx t.reference.qualifier t.reference.name with
  | some place => pure { place, rest := t.rest }
  | none =>
    if t.reference.isLocal then do
      let id ← Act.change fun w => w.newVariable (.plain none .absent)
      pure { place := .bound id, rest := t.rest, created := some (t.reference.name, id) }
    else
      Act.raise (.blaming t.span (utf8 "cannot create variable $" ++ t.reference.full))

/-- Finds targets from left to right. -/
def findTargets (go : Runner) (ctx : Context) : List Target → Act (List Destination)
  | [] => pure []
  | t :: rest => do
    let destination ← findTarget go ctx t
    let others ← findTargets go ctx rest
    pure (destination :: others)

/-- The places of the destinations that take one value, or of those that take the rest. -/
def placesOf (destinations : List Destination) (rest : Bool) : List Place :=
  (destinations.filter fun d => d.rest == rest).map (·.place)

/-- Binds the names of new variables in a scope. -/
def bindCreated (scope : ScopeId) (destinations : List Destination) (w : World) : World :=
  (destinations.filterMap (·.created)).foldl (fun w (name, id) => w.define scope name id) w

/-! ## Forms -/

/-- Evaluates a form. -/
def evalForm (go : Runner) (ctx : Context) : Form → Act Unit
  | .command span head arguments redirections => do
    beginForm span
    let values ← evalHead go ctx head
    let f ← soleFunction values
    let arguments ← evalExprs go ctx arguments
    if redirections.isEmpty then go (.call ctx f arguments)
    else do
      let fork ← ctx.fork (utf8 "redir")
      withRedirections go fork (fun ctx => go (.call ctx f arguments)) redirections
  | .assignment span values targets => do
    beginForm span
    let values ← evalExprs go ctx values
    let destinations ← findTargets go ctx targets
    Act.distribute (placesOf destinations false) (placesOf destinations true) values
    Act.modify (bindCreated ctx.scope destinations)
    Act.modify (World.note (.assigned ctx.scope span targets))

end Conduit.Eval
