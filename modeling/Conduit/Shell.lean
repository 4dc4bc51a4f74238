import Conduit.Eval.Run

/-!
# Shells

A shell compiles chunks against the names that are bound at the moment, evaluates them with given
endpoints, and runs interactive lines.  An interactive line prints every value it sends, each on a
line of its own behind the leader.  If a live stub is attached and the shell has a terminal, the
stub is told about the line, is put in the foreground, and forwards signals while the line runs.
However the line ends, its values have been printed, the interrupt flag is clear, and nothing is
forwarded any more.
-/

namespace Conduit.Shell

open Eval (run)

/-! ## Starting -/

/-- A builtin function as a constant. -/
def builtinVariable (b : Builtin) : Bytes × Variable :=
  (functionMark :: b.name, .readOnly (.fn (.builtin b)))

/-- The core builtins. -/
def coreBuiltins : List Builtin := [.put, .echo, .fail, .nop, .cd]

/-- The builtins for consuming input, calling functions, reflection and interruption. -/
def furtherBuiltins : List Builtin :=
  [.collect, .count, .each, .slurp, .trip, .boom, .call, .try, .capture, .ctx, .lookup]

/-- The builtin variables of a shell.  Signals can be sent only to a stub. -/
def builtinVariables (hasStub : Bool) : List (Bytes × Variable) :=
  (utf8 "paths", .paths) ::
    (coreBuiltins ++ furtherBuiltins ++ if hasStub then [Builtin.sigint] else []).map builtinVariable

/-- The world with a new variable bound to a name in a scope. -/
def bind (scope : ScopeId) (w : World) (entry : Bytes × Variable) : World :=
  let (id, w) := w.newVariable entry.2
  w.define scope entry.1 id

/-- The device of a standard descriptor: the terminal or the null device for input, and a file for
each of the two outputs. -/
def standardStreams (w : World) : World :=
  let null := w.files.nodes.size
  let output := null + 1
  let errors := null + 2
  let nodes := (w.files.nodes.push .null).push (.file [] false)
  let files := { w.files with nodes := nodes.push (.file [] false) }
  let input : Device := if w.terminal then .terminal else .file null 0 .readWrite
  let w := { w with files }
  let (_, w) := w.newStream input false
  let (_, w) := w.newStream (.file output 0 .append) false
  (w.newStream (.file errors 0 .append) false).2

/-- The world with the scopes of globals and builtins and the standard streams. -/
def start (w : World) : World :=
  let w := { w with scopes := ⟨[{}, {}]⟩ }
  standardStreams ((builtinVariables w.stub.isSome).foldl (bind World.builtins) w)

/-! ## Evaluating -/

/-- The code of a chunk, compiled against the global and builtin names. -/
def compile (w : World) (chunk : Script.Chunk) : Except Error Code.Block :=
  Code.ofScript (w.scope World.globals).names (w.scope World.builtins).names chunk

/-- The context of code that is not inside any function: its innermost scope is that of the
globals. -/
def topContext (name text : Bytes) (chunk : Script.Chunk) (endpoints : List (Option EndpointId)) :
    Act Context :=
  Act.change fun w =>
    let (outer, w) := w.newScope {}
    ({ name, text, label := utf8 "top", scope := World.globals, outer, endpoints, chunk }, w)

/-- The span of a whole text. -/
def wholeSpan (text : Bytes) : Span := ⟨0, text.length⟩

/-- Compiles and evaluates a chunk, and yields the error if there is one. -/
def eval (setup : Setup) (fuel : Nat) (name text : Bytes) (chunk : Script.Chunk)
    (endpoints : List (Option EndpointId)) : Act (Option Error) := do
  match compile (← Act.world) chunk with
  | .error e => pure (some e)
  | .ok code => do
    let ctx ← topContext name text chunk endpoints
    Act.within (wholeSpan text) (Act.attempt (Eval.evalBlock (run setup fuel) ctx code))

/-! ## Interactive lines -/

/-- The name under which interactive lines are evaluated. -/
def interactiveName : Bytes := utf8 "[interactive]"

/-- Prints bytes on the terminal. -/
def printed (w : World) (bytes : Bytes) : World := { w with printed := w.printed ++ bytes }

/-- What is said when a process cannot be put in the foreground. -/
def foregroundFailure (who : Bytes) : Bytes :=
  utf8 "failed to put " ++ who ++ utf8 " in foreground: " ++ Host.Errno.notTerminal.text ++
    utf8 "\n"

/-- Tells a live stub about a line and lets it forward signals; signals that came before are
dropped. -/
def engageStub (text : Bytes) (w : World) : World :=
  match w.stub with
  | none => w
  | some stub =>
    if stub.alive && w.terminal then
      let stub := { stub with
        title := Text.Unicode.title text
        directory := w.directoryText
        signals := stub.signals.drain.1
        forwarding := true }
      printed { w with stub := some stub } (foregroundFailure (utf8 "stub"))
    else w

/-- Stops forwarding signals. -/
def releaseStub (w : World) : World :=
  { w with stub := w.stub.map fun stub => { stub with forwarding := false } }

/-- The line that shows a value. -/
def valueLine (leader : Bytes) (v : Value) : Bytes := leader ++ v.repr ++ [Bytes.newline]

/-- Prints and takes the values of a channel. -/
def printValues (leader : Bytes) (channel : ChannelId) (w : World) : World :=
  let values := ((w.channels.get? channel).map fun line => line.channel.queue).getD []
  (printed w (values.flatMap (valueLine leader))).modifyChannel channel fun c => c.drain.1

/-- The endpoints of a line: no input values, the channel that is printed, and the standard
streams. -/
def lineEndpoints (channel : ChannelId) (w : World) : List (Option EndpointId) × World :=
  let (input, w) := w.newChannel { channel := (Channel.ofCapacity 0).close }
  let (e0, w) := w.newEndpoint { stream := some 0, channel := some input }
  let (e1, w) := w.newEndpoint { stream := some 1, channel := some channel }
  let (e2, w) := w.newEndpoint { stream := some 2 }
  ([some e0, some e1, some e2], w)

/-- What is done when a line is over, however it ended. -/
def endLine (leader : Bytes) (channel : ChannelId) (w : World) : World :=
  let w := printValues leader channel ((releaseStub w).closeChannel channel)
  let w := { w with interrupted := false }
  if w.terminal then printed w (foregroundFailure (utf8 "myself")) else w

/-- Runs an interactive line. -/
def evalInteractive (setup : Setup) (fuel : Nat) (text : Bytes) (chunk : Script.Chunk) :
    Act (Option Error) := do
  let channel ← Act.change fun w =>
    w.newChannel { channel := .ofCapacity setup.settings.channelSize, attended := true }
  let endpoints ← Act.change (lineEndpoints channel)
  Act.modify fun w => engageStub text { w with interrupted := false }
  (eval setup fuel interactiveName text chunk endpoints).ensuring fun w =>
    (endLine setup.settings.leader channel w).dropEndpoints endpoints

/-- Parses a text and runs it as an interactive line. -/
def sourceText (setup : Setup) (fuel : Nat) (text : Bytes) : Act (Option Error) := do
  match setup.parser with
  | none => pure (some ⟨.generic, utf8 "no parser configured", none⟩)
  | some parser => do
    match ← Eval.parse parser text with
    | .error e => pure (some e)
    | .ok chunk => evalInteractive setup fuel text chunk

/-- Runs the content of a file as an interactive line. -/
def source (setup : Setup) (fuel : Nat) (file : Bytes) : Act (Option Error) := do
  let w ← Act.world
  match readSource w.files w.directory file with
  | ⟨some e, _⟩ => pure (some e)
  | ⟨none, text⟩ => sourceText setup fuel (text.getD [])

end Conduit.Shell
