import Conduit.Eval.Request
import Conduit.World.Variables

/-!
# Resolving References

An unqualified name is looked up in the innermost scope, then in the one outside it, then among the
builtins; the qualifiers `local`, `up` and `builtin` ask for one of these alone.  `env`, `external`,
`e` and `E` lead to the environment, or to an external command when the name is that of a function,
and `shared` leads to the store.  Any other qualifier is the name of a module, which is loaded first
unless it is registered.
-/

namespace Conduit.Eval

/-- The qualifiers of the environment. -/
def isEnvironment (qualifier : Bytes) : Bool :=
  [utf8 "env", utf8 "external", utf8 "e", utf8 "E"].contains qualifier

/-- Where an unqualified name leads. -/
def findPlain (ctx : Context) (name : Bytes) (w : World) : Option VariableId :=
  match (w.scope ctx.scope).lookup name with
  | some id => some id
  | none =>
    match (w.scope ctx.outer).lookup name with
    | some id => some id
    | none => (w.scope World.builtins).lookup name

/-- Where a name leads in the environment. -/
def environmentPlace : Bytes → Place
  | b :: name => if b = functionMark then .command name else .env (b :: name)
  | [] => .env []

/-- Makes sure that a module is registered. -/
def use (go : Runner) (ctx : Context) (name : Bytes) : Act Unit := do
  if ((← Act.world).module? name).isNone then go (.load ctx name)

/-- Where a qualified name leads in a context, if it leads anywhere. -/
def resolve (go : Runner) (ctx : Context) (qualifier name : Bytes) : Act (Option Place) := do
  let w ← Act.world
  if qualifier = utf8 "local" then
    pure (((w.scope ctx.scope).lookup name).map .bound)
  else if qualifier = utf8 "up" then
    pure (((w.scope ctx.outer).lookup name).map .bound)
  else if qualifier = utf8 "builtin" then
    pure (((w.scope World.builtins).lookup name).map .bound)
  else if qualifier.isEmpty then
    pure ((findPlain ctx name w).map .bound)
  else if isEnvironment qualifier then
    pure (some (environmentPlace name))
  else if qualifier = utf8 "shared" then
    if w.store.isSome then pure (some (.shared name)) else Act.raise .storeUnconnected
  else do
    use go ctx qualifier
    let w ← Act.world
    pure (((w.module? qualifier).bind fun id => (w.scope id).lookup name).map .bound)

end Conduit.Eval
