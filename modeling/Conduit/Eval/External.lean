import Conduit.Context
import Conduit.Descriptor.Standard
import Conduit.Host.Executable
import Conduit.Host.Program
import Conduit.World.Streams
import Conduit.World.Variables

/-!
# External Commands

An external command is found on the search path and run by the host with its arguments, the
environment, and the streams of the first three endpoints; where an endpoint has no stream, the
program reads nothing and its output is lost.  A program that does not exit with code zero makes the
command raise an error.

The host runs scripts for its command interpreter.  Any other program cannot be started, which the
child reports on its error stream.
-/

namespace Conduit.Eval

open Host (Errno)
open Host.Program (Process Status Command)

/-- The streams that a program gets as its standard streams. -/
structure StandardStreams where
  input : Option StreamId
  output : Option StreamId
  errors : Option StreamId

/-- The descriptors that a program with standard streams finds open.  The shell keeps its own ones
from the programs it runs. -/
def StandardStreams.descriptors (streams : StandardStreams) : List Nat :=
  let places := [streams.input, streams.output, streams.errors]
  let number := fun stream : StreamId => stream + 3
  let standard := [0, 1, 2].map fun place => (place, (⟨.named [], false⟩ : Descriptor.Entry))
  let own := (places.filterMap id).map fun stream => (number stream, ⟨.named [], true⟩)
  let wanted := places.map fun place => place.elim (-1) fun stream => (number stream : Int)
  (Descriptor.installStandard wanted ⟨standard ++ own⟩).table.executed.entries.map (·.1)

/-- The world after a program has written to one of its streams; a failed write is lost. -/
def writeLost (stream : Option StreamId) (bytes : Bytes) (w : World) : World :=
  match stream with
  | some id => ((w.write id bytes).toOption).getD w
  | none => w

/-- What one command of a script leaves behind: its status, and whether the script goes on. -/
structure Progress where
  process : Process
  status : Nat := 0
  ended : Option Status := none

/-- The report of a fault in a script. -/
def complaint (p : Process) (c : Command) (what : Bytes) : Bytes :=
  p.path ++ utf8 ": " ++ Bytes.ofNat c.line ++ utf8 ": " ++ what ++ utf8 "\n"

/-- Ends a script at a fault. -/
def abandon (streams : StandardStreams) (p : Process) (c : Command) (what : Bytes) (w : World) :
    Progress × World :=
  ({ process := p, ended := some (.exited 2) },
    writeLost streams.errors (complaint p c what) w)

/-- Goes on with a script after a fault of one command. -/
def mishap (streams : StandardStreams) (p : Process) (c : Command) (status : Nat) (what : Bytes)
    (w : World) : Progress × World :=
  ({ process := p, status }, writeLost streams.errors (complaint p c what) w)

/-- Signals the script itself. -/
def signalSelf (streams : StandardStreams) (p : Process) (c : Command) (option : Bytes) (w : World) :
    Progress × World :=
  match option with
  | [] => mishap streams p c 2 (utf8 "kill: Illegal number: ") w
  | b :: _ =>
    match Host.Program.signal? option with
    | some n =>
      if Host.Program.isHarmless n then ({ process := p }, w)
      else ({ process := p, ended := some (.killed n) }, w)
    | none => mishap streams p c 2 (utf8 "kill: Illegal option -" ++ [b]) w

/-- Reads a line of input into a variable. -/
def readVariable (streams : StandardStreams) (p : Process) (name : Bytes) (w : World) :
    Progress × World :=
  let bytes := ((streams.input.bind w.streams.get?).map w.unread).getD []
  let (line, taken) := Host.Program.inputLine false bytes
  let w := streams.input.elim w fun id => w.skip id taken
  let p := { p with vars := (name, Host.Program.field line) :: p.vars }
  ({ process := p, status := if bytes.isEmpty then 1 else 0 }, w)

/-- Drops arguments of a script. -/
def shiftArguments (streams : StandardStreams) (p : Process) (c : Command) (arguments : List Bytes)
    (w : World) : Progress × World :=
  let count := arguments.headD (utf8 "1")
  match Host.Program.number? count with
  | none => abandon streams p c (utf8 "shift: Illegal number: " ++ count) w
  | some n =>
    if p.arguments.length < n then abandon streams p c (utf8 "shift: can't shift that many") w
    else ({ process := { p with arguments := p.arguments.drop n } }, w)

/-- Runs one command of a script. -/
def runCommand (streams : StandardStreams) (p : Process) (c : Command) (w : World) :
    Progress × World :=
  let output := if c.toError then streams.errors else streams.output
  match c.words.flatMap p.fields with
  | [] => ({ process := p }, w)
  | name :: arguments =>
    if name = utf8 "echo" then
      ({ process := p }, writeLost output (Host.Program.echo arguments) w)
    else if name = utf8 "printf" then
      ({ process := p }, writeLost output (Host.Program.printf arguments) w)
    else if name = utf8 "exit" then
      match arguments with
      | [] => ({ process := p, ended := some (.exited 0) }, w)
      | code :: _ =>
        match Host.Program.number? code with
        | some n => ({ process := p, ended := some (.exited (n % 256)) }, w)
        | none => abandon streams p c (utf8 "exit: Illegal number: " ++ code) w
    else if name = utf8 "kill" then
      signalSelf streams p c ((arguments.headD []).drop 1) w
    else if name = utf8 "read" then
      readVariable streams p (arguments.headD []) w
    else if name = utf8 "set" then
      let arguments := if arguments.head? = some (utf8 "--") then arguments.tail else arguments
      ({ process := { p with arguments } }, w)
    else if name = utf8 "shift" then
      shiftArguments streams p c arguments w
    else
      mishap streams p c 127 (name ++ utf8 ": not found") w

/-- Runs the commands of a script in order, until one ends it. -/
def runCommands (streams : StandardStreams) :
    Progress → List Command → World → Status × World
  | progress, [], w => (progress.ended.getD (.exited progress.status), w)
  | progress, c :: rest, w =>
    match progress.ended with
    | some status => (status, w)
    | none =>
      let (progress, w) := runCommand streams progress.process c w
      runCommands streams progress rest w

/-- Why a program cannot be started, if it cannot. -/
def startFailure? (content : Bytes) : Option Errno :=
  match Host.Program.interpreter? content with
  | none => some .badFormat
  | some interpreter =>
    if interpreter = Host.Program.interpreter then none else some .noSuchEntry

/-- Runs the program at a path. -/
def runProgram (streams : StandardStreams) (path : Bytes) (arguments : List Bytes) (w : World) :
    Status × World :=
  let content :=
    match w.files.resolve w.directory path with
    | .ok (_, node) => w.files.content node
    | .error _ => []
  match startFailure? content with
  | some reason =>
    (.exited 127, writeLost streams.errors (utf8 "execve: " ++ reason.text ++ utf8 "\n") w)
  | none =>
    let process : Process :=
      { path := Bytes.untilZero path
        arguments := arguments.map Bytes.untilZero
        descriptors := streams.descriptors
        environment := w.environment }
    runCommands streams { process } (Host.Program.commands content) w

/-- An error of an external command. -/
def externalError (name what : Bytes) : Error := ⟨.external, name ++ utf8 ": " ++ what, none⟩

/-- The error that a status amounts to, if it is one. -/
def statusError? (name : Bytes) : Status → Option Error
  | .exited 0 => none
  | .exited code => some (externalError name (utf8 "exited with " ++ Bytes.ofNat code))
  | .killed signal =>
    some (externalError name (utf8 "killed by signal " ++ Bytes.ofNat signal))

/-- The texts of arguments for an external command. -/
def externalArguments : List Value → Except Error (List Bytes)
  | [] => .ok []
  | v :: rest => do
    let text ← v.toText (utf8 "argument to an external command")
    .ok (text :: (← externalArguments rest))

/-- Runs an external command. -/
def callExternal (ctx : Context) (name : Bytes) (arguments : List Value) : Act Unit := do
  let w ← Act.world
  match w.files.findExecutable w.directory name w.searchPath with
  | none => Act.raise (externalError name (utf8 "command not found"))
  | some path => do
    let texts ← Act.ofExcept (externalArguments arguments)
    let streams := ⟨ctx.stream? w 0, ctx.stream? w 1, ctx.stream? w 2⟩
    let status ← Act.change (runProgram streams path texts)
    match statusError? name status with
    | none => pure ()
    | some e => Act.raise e

end Conduit.Eval
