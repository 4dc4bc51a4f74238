import Conduit.Frame

/-!
# Workbenches

A workbench is a shell with names for the objects that a host handles from outside: scopes,
endpoints, files, channels and frames.  A named endpoint is one reference to it, which is dropped
when the name is given to another endpoint or taken away.  A file stays usable under its name for as
long as it is open; a channel for good.
-/

namespace Conduit

/-- How a scope is named from outside. -/
inductive ScopeName where
  | globals
  | builtins
  | module (name : Bytes)
  | own (name : Bytes)
  deriving DecidableEq, Repr

/-- A file that was opened under a name: its object in the file tree and its stream. -/
structure OpenFile where
  node : Host.NodeId
  stream : StreamId
  deriving DecidableEq, Repr

/-- A shell and the objects that have names from outside. -/
structure Workbench where
  world : World
  setup : Setup := {}
  fuel : Nat := 2000
  scopes : List (Bytes × ScopeId) := []
  endpoints : List (Bytes × EndpointId) := []
  files : List (Bytes × OpenFile) := []
  channels : List (Bytes × ChannelId) := []
  frames : List (Bytes × Frame) := []

namespace Workbench

variable {α : Type}

/-- Entries with the one of a key replaced. -/
def setEntry (key : Bytes) (a : α) (entries : List (Bytes × α)) : List (Bytes × α) :=
  entries.filter (fun entry => entry.1 ≠ key) ++ [(key, a)]

/-- Entries without the one of a key. -/
def eraseEntry (key : Bytes) (entries : List (Bytes × α)) : List (Bytes × α) :=
  entries.filter fun entry => entry.1 ≠ key

/-- Runs an action. -/
def run (b : Workbench) (act : Act α) : Outcome α × Workbench :=
  let (outcome, world) := act b.world
  (outcome, { b with world })

/-- Changes the world and yields a result. -/
def change (b : Workbench) (f : World → α × World) : α × Workbench :=
  let (a, world) := f b.world
  (a, { b with world })

/-- Changes the world. -/
def update (b : Workbench) (f : World → World) : Workbench := { b with world := f b.world }

/-- Whoever carries out requests for code run from outside. -/
def runner (b : Workbench) : Eval.Runner := Eval.run b.setup b.fuel

/-! ## Scopes and variables -/

/-- The scope that is kept under a name, which is made empty when it is first used. -/
def keptScope (b : Workbench) (name : Bytes) : ScopeId × Workbench :=
  match b.scopes.lookup name with
  | some id => (id, b)
  | none =>
    let (id, b) := b.change fun w => w.newScope {}
    (id, { b with scopes := setEntry name id b.scopes })

/-- The scope of a name.  A module that is not registered stands for a kept scope under its qualified
name. -/
def scope (b : Workbench) : ScopeName → ScopeId × Workbench
  | .globals => (World.globals, b)
  | .builtins => (World.builtins, b)
  | .module name =>
    match b.world.module? name with
    | some id => (id, b)
    | none => b.keptScope (utf8 "module:" ++ name)
  | .own name => b.keptScope name

/-- The variable that a name is bound to in a scope. -/
def bound? (b : Workbench) (scope : ScopeName) (name : Bytes) : Option VariableId × Workbench :=
  let (id, b) := b.scope scope
  ((b.world.scope id).lookup name, b)

/-- The variables of references, in order; a reference that leads nowhere is passed over. -/
def boundAll (b : Workbench) : List (ScopeName × Bytes) → List VariableId × Workbench
  | [] => ([], b)
  | (scope, name) :: rest =>
    let (id, b) := b.bound? scope name
    let (others, b) := b.boundAll rest
    (id.toList ++ others, b)

/-- Binds a name to a new variable. -/
def define (b : Workbench) (scope : ScopeName) (name : Bytes) (v : Variable) : Workbench :=
  let (target, b) := b.scope scope
  b.update fun w =>
    let (id, w) := w.newVariable v
    w.define target name id

/-- Binds a name to the variable of another. -/
def share (b : Workbench) (scope : ScopeName) (name : Bytes) (of : ScopeName × Bytes) : Workbench :=
  let (target, b) := b.scope scope
  match b.bound? of.1 of.2 with
  | (some id, b) => b.update fun w => w.define target name id
  | (none, b) => b

/-- The value of a variable. -/
def read (b : Workbench) (id : VariableId) : Outcome Value := (Act.readPlace (.bound id) b.world).1

/-- Names a scope made by merging two. -/
def merge (b : Workbench) (outer inner : ScopeName) (name : Bytes) : ScopeId × Workbench :=
  let (outer, b) := b.scope outer
  let (inner, b) := b.scope inner
  let (id, b) := b.change fun w => w.newScope (Scope.merge (w.scope outer) (w.scope inner))
  (id, { b with scopes := setEntry name id b.scopes })

/-! ## Files, channels and endpoints -/

/-- Whether a stream is open. -/
def isOpen (b : Workbench) (stream : StreamId) : Bool :=
  (b.world.streams.get? stream).any fun s => !s.closed

/-- Whether a channel is closed. -/
def isClosed (b : Workbench) (channel : ChannelId) : Bool :=
  (b.world.channels.get? channel).any fun line => line.channel.closed

/-- Opens a new anonymous file for reading and writing. -/
def newFile (b : Workbench) (content : Bytes) : OpenFile × Workbench :=
  b.change fun w =>
    let node := w.files.nodes.size
    let (stream, w) := { w with files := w.files.addAnonymous content }.newStream
      (.file node 0 .readWrite) true
    (⟨node, stream⟩, w)

/-- The content of a file. -/
def content (b : Workbench) (node : Host.NodeId) : Bytes := b.world.files.content node

/-- The stream of a named file: a new one at the first use, and none once it has been closed. -/
def namedFile (b : Workbench) (name : Bytes) : Option StreamId × Workbench :=
  match b.files.lookup name with
  | some file => (if b.isOpen file.stream then some file.stream else none, b)
  | none =>
    let (file, b) := b.newFile []
    (some file.stream, { b with files := setEntry name file b.files })

/-- The channel of a name, which is made with a capacity at the first use. -/
def namedChannel (b : Workbench) (name : Bytes) (capacity : Nat) : ChannelId × Workbench :=
  match b.channels.lookup name with
  | some id => (id, b)
  | none =>
    let (id, b) := b.change fun w => w.newChannel { channel := .ofCapacity capacity }
    (id, { b with channels := setEntry name id b.channels })

/-- Takes what is queued on a channel. -/
def takeValues (b : Workbench) (channel : Option ChannelId) : List Value × Workbench :=
  match channel with
  | some id =>
    let values := ((b.world.channels.get? id).map fun line => line.channel.queue).getD []
    (values, b.update fun w => w.modifyChannel id fun c => c.drain.1)
  | none => ([], b)

/-- Takes what has been written to the file behind a stream. -/
def takeBytes (b : Workbench) (stream : StreamId) : Bytes × Workbench :=
  match (b.world.streams.get? stream).map Stream.device with
  | some (.file node _ _) =>
    (b.content node, b.update fun w => { w with files := w.files.setContent node [] })
  | _ => ([], b)

/-- Names an endpoint, and drops the reference that the name had. -/
def nameEndpoint (b : Workbench) (name : Bytes) (id : EndpointId) : Workbench :=
  let old := b.endpoints.lookup name
  { b with endpoints := setEntry name id b.endpoints }.update fun w => old.elim w w.dropEndpoint

/-- Takes the name of an endpoint away, and drops the reference. -/
def dropName (b : Workbench) (name : Bytes) : Workbench :=
  let old := b.endpoints.lookup name
  { b with endpoints := eraseEntry name b.endpoints }.update fun w => old.elim w w.dropEndpoint

/-- New references to named endpoints; a place without a name stays empty. -/
def refer (b : Workbench) : List (Option Bytes) → List (Option EndpointId) × Workbench
  | [] => ([], b)
  | name :: rest =>
    let id := name.bind fun name => b.endpoints.lookup name
    let b := b.update fun w => id.elim w w.referTo
    let (others, b) := b.refer rest
    (id :: others, b)

/-! ## Frames -/

/-- Names a frame. -/
def nameFrame (b : Workbench) (name : Bytes) (frame : Frame) : Workbench :=
  { b with frames := setEntry name frame b.frames }

/-- Names a new frame; the frame that had the name goes away. -/
def addFrame (b : Workbench) (name : Bytes) (frame : Frame) : Workbench :=
  let old := b.frames.lookup name
  (b.nameFrame name frame).update fun w => old.elim w fun old => old.ctx.drop w

/-- Takes a frame away. -/
def dropFrame (b : Workbench) (name : Bytes) (frame : Frame) : Workbench :=
  { b with frames := eraseEntry name b.frames }.update frame.ctx.drop

/-- Runs an action in a named frame, which keeps the span that it moves to. -/
def runIn (b : Workbench) (name : Bytes) (frame : Frame) (act : Act α) :
    Outcome α × Frame × Workbench :=
  let ((outcome, frame), world) := frame.run act b.world
  (outcome, frame, { b with world }.nameFrame name frame)

end Workbench

end Conduit
