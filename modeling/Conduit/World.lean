import Conduit.Channel
import Conduit.Host.Environment
import Conduit.Host.FileTree
import Conduit.Scope
import Conduit.Settings
import Conduit.Table
import Conduit.Value

/-!
# The State of a Shell

Everything that evaluation reads or changes: variables and scopes, the endpoints of commands with
the byte streams and value channels behind them, the environment and the file tree of the host, the
registered modules, the store of shared variables, the stub that holds the terminal while a line
runs, and the interrupt flag.  The journal lists what has happened, in order; it is never read by
evaluation.
-/

namespace Conduit

/-- The identity of an endpoint. -/
abbrev EndpointId := Nat

/-- The identity of a byte stream. -/
abbrev StreamId := Nat

/-- The identity of a value channel. -/
abbrev ChannelId := Nat

/-- The identity of a pipe. -/
abbrev PipeId := Nat

/-- A variable.  A plain variable is held to the kind of its first value; the other kinds are
constants and views of the environment, of the store and of the search path. -/
inductive Variable where
  | plain (kind : Option Kind) (value : Value)
  | readOnly (value : Value)
  | env (name : Bytes)
  | shared (name : Bytes)
  | paths
  deriving Inhabited

/-- What may be done with an open file. -/
inductive Access where
  | read
  | write
  | append
  | readWrite
  deriving DecidableEq, Repr

/-- What a byte stream is connected to.  A terminal is never read or written by evaluation. -/
inductive Device where
  | file (node : Host.NodeId) (offset : Nat) (access : Access)
  | pipeReader (pipe : PipeId)
  | pipeWriter (pipe : PipeId)
  | terminal
  deriving DecidableEq, Repr

/-- An open descriptor that several endpoints may hold.  An owned one is closed when its last
holder lets go of it; one that is not owned stays open. -/
structure Stream where
  device : Device
  owned : Bool := true
  holders : Nat := 0
  closed : Bool := false
  deriving DecidableEq, Repr

/-- An endpoint pairs a byte stream with a channel of values, either of which may be missing.
Closing the endpoint closes the channel only if the endpoint is marked for it.  An endpoint goes
away with its last reference. -/
structure Endpoint where
  stream : Option StreamId := none
  channel : Option ChannelId := none
  closesChannel : Bool := false
  references : Nat := 1
  deriving DecidableEq, Repr

/-- A channel of values.  An attended channel has someone at the other end who takes its values or
closes it, so that a send to it never waits for good. -/
structure Line where
  channel : Channel Value
  attended : Bool := false

/-- The process that holds the terminal while a line runs and forwards the signals it gets.  While
`forwarding` is set, an interrupt signal interrupts evaluation. -/
structure Stub where
  alive : Bool
  title : Bytes := []
  directory : Bytes := []
  signals : Channel Int := .ofCapacity 8
  forwarding : Bool := false
  deriving DecidableEq, Repr

/-- Something that happened.  A form that begins notes whether the interrupt flag is set; an
assignment that has succeeded notes the scope it bound new names in; a reference that led nowhere
notes the chunk it stands in; and the body of a module that is about to be evaluated notes its
text.  A function that has set the interrupt flag notes that it did. -/
inductive Event where
  | form (span : Span) (interrupted : Bool)
  | interrupted
  | assigned (scope : ScopeId) (span : Span) (targets : List Target)
  | unresolved (chunk : Script.Chunk) (reference : Reference)
  | loadBegan (name : Bytes)
  | loadEnded (name : Bytes)
  | bodyBegan (name text : Bytes)

/-- Whether an event is the beginning or the end of a load. -/
def Event.isLoad : Event → Bool
  | .loadBegan _ | .loadEnded _ => true
  | _ => false

/-- The state of a shell and its host. -/
structure World where
  vars : Table Variable := .empty
  scopes : Table Scope := .empty
  endpoints : Table Endpoint := .empty
  streams : Table Stream := .empty
  pipes : Table Bytes := .empty
  channels : Table Line := .empty
  environment : Host.Environment := ⟨[]⟩
  files : Host.FileTree := .root
  directory : Host.Path := []
  modules : List (Bytes × ScopeId) := []
  store : Option (List (Bytes × Bytes)) := none
  stub : Option Stub := none
  terminal : Bool := false
  interrupted : Bool := false
  here : Span := ⟨0, 0⟩
  parses : Nat := 0
  printed : Bytes := []
  journal : List Event := []

namespace World

/-- The scope of global variables. -/
def globals : ScopeId := 0

/-- The scope of builtin variables. -/
def builtins : ScopeId := 1

/-- The scope with an identity. -/
def scope (w : World) (id : ScopeId) : Scope := (w.scopes.get? id).getD {}

/-- The scope of a registered module. -/
def module? (w : World) (name : Bytes) : Option ScopeId := w.modules.lookup name

/-- The text of the current directory. -/
def directoryText (w : World) : Bytes := w.directory.text

/-- The world with an event noted in the journal. -/
def note (event : Event) (w : World) : World := { w with journal := w.journal ++ [event] }

end World

end Conduit
