import Conduit.Bytes
import Conduit.Code
import Conduit.Error
import Conduit.Script
import Conduit.Text.Quoted

/-!
# Values

A value is a text, a list of values or a function.  Functions are builtin, external commands found
through the search path, or closures: lambdas with the scope in which they were created.  The
absent value stands for a value that a host left out; scripts cannot write it down.
-/

namespace Conduit

/-- The identity of a scope. -/
abbrev ScopeId := Nat

/-- The builtin functions. -/
inductive Builtin where
  | put
  | echo
  | fail
  | nop
  | cd
  | collect
  | count
  | each
  | slurp
  | trip
  | boom
  | call
  | try
  | capture
  | ctx
  | lookup
  | sigint
  deriving DecidableEq, Repr

/-- The name of a builtin function. -/
def Builtin.name : Builtin → Bytes
  | .put => utf8 "put"
  | .echo => utf8 "echo"
  | .fail => utf8 "fail"
  | .nop => utf8 "nop"
  | .cd => utf8 "cd"
  | .collect => utf8 "collect"
  | .count => utf8 "count"
  | .each => utf8 "each"
  | .slurp => utf8 "slurp"
  | .trip => utf8 "trip"
  | .boom => utf8 "boom"
  | .call => utf8 "call"
  | .try => utf8 "try"
  | .capture => utf8 "capture"
  | .ctx => utf8 "ctx"
  | .lookup => utf8 "lookup"
  | .sigint => utf8 "sigint"

/-- A lambda together with a snapshot of the scope it was created in and the source it stands
in: its name, its text and the chunk that was compiled. -/
structure Closure where
  parameters : List Bytes
  body : Code.Block
  captured : ScopeId
  name : Bytes
  text : Bytes
  chunk : Script.Chunk

/-- Anything that can be the head of a command.  An inert function does nothing. -/
inductive Fn where
  | builtin (b : Builtin)
  | inert (name : Bytes)
  | external (name : Bytes)
  | closure (c : Closure)

/-- A value. -/
inductive Value where
  | absent
  | text (text : Bytes)
  | list (items : List Value)
  | fn (f : Fn)
  deriving Inhabited

/-- The kinds of values that a variable can be held to. -/
inductive Kind where
  | string
  | list
  | fn
  deriving DecidableEq, Repr

/-- The name of a kind. -/
def Kind.name : Kind → Bytes
  | .string => utf8 "string"
  | .list => utf8 "list"
  | .fn => utf8 "fn"

/-- How a function is shown. -/
def Fn.show : Fn → Bytes
  | .builtin b => utf8 "<builtin " ++ b.name ++ utf8 ">"
  | .inert name => utf8 "<builtin " ++ name ++ utf8 ">"
  | .external name => utf8 "<external " ++ name ++ utf8 ">"
  | .closure _ => utf8 "<closure>"

namespace Value

/-- The kind of a value.  The absent value has none. -/
def kind? : Value → Option Kind
  | .absent => none
  | .text _ => some .string
  | .list _ => some .list
  | .fn _ => some .fn

mutual

/-- The printed form of a value: texts are quoted where needed, and list items stand between
brackets with single spaces between them. -/
def repr : Value → Bytes
  | .absent => []
  | .text content => Text.Quoted.quote content
  | .list items => utf8 "[" ++ reprItems items ++ utf8 "]"
  | .fn f => f.show

/-- The printed forms of list items with single spaces between them. -/
def reprItems : List Value → Bytes
  | [] => []
  | [item] => item.repr
  | item :: others => item.repr ++ utf8 " " ++ reprItems others

end

/-- The value as a word of output: a text as it stands, anything else as it is printed. -/
def word : Value → Bytes
  | .text content => content
  | other => other.repr

/-- What a value is called in a complaint about its kind. -/
def kindName (v : Value) : Bytes :=
  match v.kind? with
  | some kind => kind.name
  | none => utf8 "nothing"

/-- The content of a text; any other value is refused in the name of the role it was to play. -/
def toText (role : Bytes) : Value → Except Error Bytes
  | .text content => .ok content
  | other =>
    .error ⟨.type, role ++ utf8 " must be a string, got " ++ other.kindName, none⟩

end Value

end Conduit
