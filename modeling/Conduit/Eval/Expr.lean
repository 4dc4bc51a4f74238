import Conduit.Eval.Resolve

/-!
# Evaluating Expressions

An expression yields a list of values: a spliced variable yields the items of its list, and any
other expression one value.  A lambda yields a closure over a snapshot of the scopes around it, in
which the variables themselves are shared.
-/

namespace Conduit.Eval

open Code (Expr Head)

/-- The values of a variable. -/
def evalVariable (go : Runner) (ctx : Context) (span : Span) (splice : Bool) (r : Reference) :
    Act (List Value) := do
  match ← resolve go ctx r.qualifier r.name with
  | none => do
    Act.modify (World.note (.unresolved ctx.chunk r))
    Act.raise (.blaming span (utf8 "variable $" ++ r.full ++ utf8 " not found"))
  | some place => do
    let value ← Act.readPlace place
    if splice then
      match value with
      | .list items => pure items
      | .absent => Act.halt .absentValue
      | _ => Act.raise (.blaming span (utf8 "variable $" ++ r.full ++ utf8 " is not a list"))
    else pure [value]

/-- The closure of a lambda in a context. -/
def makeClosure (ctx : Context) (parameters : List Bytes) (body : Code.Block) : Act Closure :=
  Act.change fun w =>
    let (captured, w) := w.newScope (Scope.merge (w.scope ctx.outer) (w.scope ctx.scope))
    ({ parameters, body, captured, name := ctx.name, text := ctx.text, chunk := ctx.chunk }, w)

mutual

/-- The values of an expression. -/
def evalExpr (go : Runner) (ctx : Context) : Expr → Act (List Value)
  | .text text => pure [.text text]
  | .variable span splice r => evalVariable go ctx span splice r
  | .list items => do
    let values ← evalExprs go ctx items
    pure [.list values]
  | .lambda parameters body => do
    let closure ← makeClosure ctx parameters body
    pure [.fn (.closure closure)]

/-- The values of expressions, from left to right. -/
def evalExprs (go : Runner) (ctx : Context) : List Expr → Act (List Value)
  | [] => pure []
  | e :: rest => do
    let values ← evalExpr go ctx e
    let others ← evalExprs go ctx rest
    pure (values ++ others)

end

/-- The values of the head of a command.  A name that leads nowhere is an external command, unless
it is qualified. -/
def evalHead (go : Runner) (ctx : Context) : Head → Act (List Value)
  | .named r => do
    match ← resolve go ctx r.qualifier (functionMark :: r.name) with
    | some place => do
      let value ← Act.readPlace place
      pure [value]
    | none =>
      if r.isPlain then pure [.fn (.external r.name)]
      else Act.fail (utf8 "command " ++ r.full ++ utf8 " not found")
  | .computed e => evalExpr go ctx e

/-- The function that the values of a head amount to. -/
def soleFunction : List Value → Act Fn
  | [.fn f] => pure f
  | [.absent] => Act.halt .absentValue
  | _ => Act.fail (utf8 "head of command must be a single function")

end Conduit.Eval
