import Conduit.Eval.Capture
import Conduit.Eval.Resolve

/-!
# Builtin Functions

The core functions write values and bytes, fail, do nothing and change the current directory.
Others consume the input endpoint (`collect`, `count`, `each`, `slurp`), call functions plainly,
under protection or with their output captured (`call`, `try`, `capture`), show the context and
what references lead to (`ctx`, `lookup`), and interrupt the evaluation or break off with a foreign
exception (`trip`, `sigint`, `boom`).
-/

namespace Conduit.Eval

/-! ## Values and bytes -/

/-- Sends a value on a channel, and says whether it was accepted. -/
def sendTo (channel : ChannelId) (v : Value) : Act Bool := fun w =>
  match w.channels.get? channel with
  | none => (.done false, w)
  | some line =>
    if line.channel.closed then (.done false, w)
    else if line.attended || line.channel.hasRoom then
      (.done true, w.modifyChannel channel fun c => c.enqueue v)
    else (.halted .blocked, w)

/-- Receives a value from a channel; none once it is closed and drained. -/
def receiveFrom (channel : ChannelId) : Act (Option Value) := fun w =>
  match (w.channels.get? channel).bind fun line => line.channel.recv? with
  | some (rest, v) => (.done v, w.modifyChannel channel fun _ => rest)
  | none => (.halted .blocked, w)

/-- The channel of the output endpoint, or an error with the given message. -/
def outputChannel (ctx : Context) (message : Bytes) : Act ChannelId := do
  match ctx.channel? (← Act.world) 1 with
  | some channel => pure channel
  | none => Act.fail message

/-- Sends a value to the output endpoint. -/
def putValue (ctx : Context) (v : Value) : Act Unit := do
  let channel ← outputChannel ctx (utf8 "no value output")
  let _ ← sendTo channel v

/-- The channel of the input endpoint. -/
def inputChannel (ctx : Context) : Act ChannelId := do
  match ctx.channel? (← Act.world) 0 with
  | some channel => pure channel
  | none => Act.fail (utf8 "no value input")

/-- Sends values one by one, until the flag is set or a value is refused. -/
def putAll (channel : ChannelId) : List Value → Act Unit
  | [] => pure ()
  | v :: rest => do
    Act.checkInterrupt
    if ← sendTo channel v then putAll channel rest

/-- Writes values to the output channel.  Once the reader is gone the rest is dropped. -/
def put (ctx : Context) (arguments : List Value) : Act Unit := do
  let channel ← outputChannel ctx (utf8 "put: no value output")
  putAll channel arguments

/-- The words of arguments. -/
def wordsOf : List Value → Act (List Bytes)
  | [] => pure []
  | v :: rest => do
    let _ ← Act.kindOf v
    let others ← wordsOf rest
    pure (v.word :: others)

/-- Writes a line of words to the output stream. -/
def echo (ctx : Context) (arguments : List Value) : Act Unit := do
  match ctx.stream? (← Act.world) 1 with
  | none => Act.fail (utf8 "echo: no byte output")
  | some stream => do
    let words ← wordsOf arguments
    let line := Bytes.join [Bytes.space] words ++ [Bytes.newline]
    match (← Act.world).write stream line with
    | .ok w => Act.modify fun _ => w
    | .error reason => Act.fail (utf8 "echo: " ++ reason.text)

/-- The texts of arguments to `fail`. -/
def failTexts : List Value → Except Error (List Bytes)
  | [] => .ok []
  | v :: rest => do
    let text ← v.toText (utf8 "argument to fail")
    .ok (text :: (← failTexts rest))

/-- Raises an error with the arguments as its message. -/
def fail (arguments : List Value) : Act Unit := do
  let texts ← Act.ofExcept (failTexts arguments)
  Act.fail (Bytes.join [Bytes.space] texts)

/-- The directory to change to: the argument, or the home directory. -/
def cdTarget : List Value → Act Bytes
  | [] => do
    let home := (← Act.world).environment.get (utf8 "HOME")
    pure (if home.isEmpty then [Bytes.slash] else home)
  | v :: _ => Act.ofExcept (v.toText (utf8 "directory"))

/-- Changes the current directory, and notes the old and the new one in the environment. -/
def cd (arguments : List Value) : Act Unit := do
  if 1 < arguments.length then Act.raise .arityMismatch
  else do
    let target ← cdTarget arguments
    let w ← Act.world
    match w.files.changeDirectory w.directory target with
    | .error reason => Act.fail (utf8 "cd: " ++ target ++ utf8 ": " ++ reason.text)
    | .ok directory => do
      Act.modify fun w => { w with directory }
      Act.setEnv (utf8 "OLDPWD") w.directoryText
      Act.setEnv (utf8 "PWD") directory.text

/-! ## Input -/

/-- Takes up to a number of values from a channel, one step for each. -/
def takeEach (channel : ChannelId) (step : Value → Act Unit) : Nat → Act Unit
  | 0 => pure ()
  | n + 1 => do
    match ← receiveFrom channel with
    | some v => do
      step v
      takeEach channel step n
    | none => pure ()

/-- Takes every value of a channel until it is closed and drained.  What was queued at the start is
taken at once; if more has come by then, the rest is left to another request. -/
def consume (channel : ChannelId) (step : Value → Act Unit) (again : Act Unit) : Act Unit := do
  let queued := fun (w : World) =>
    ((w.channels.get? channel).map fun line => line.channel.queue.length).getD 0
  takeEach channel step (queued (← Act.world))
  if queued (← Act.world) = 0 then do
    let _ ← receiveFrom channel
  else again

/-- Moves every input value to the output. -/
def collect (go : Runner) (ctx : Context) (arguments : List Value) : Act Unit := do
  let channel ← inputChannel ctx
  consume channel (putValue ctx) (go (.call ctx (.builtin .collect) arguments))

/-- Takes values from a channel until it is closed and drained, and counts them. -/
def countQueued (channel : ChannelId) : Nat → Act Nat
  | 0 => do
    let _ ← receiveFrom channel
    pure 0
  | n + 1 => do
    match ← receiveFrom channel with
    | some _ => do
      let others ← countQueued channel n
      pure (others + 1)
    | none => pure 0

/-- Writes the number of input values. -/
def count (ctx : Context) : Act Unit := do
  let channel ← inputChannel ctx
  let w ← Act.world
  let n ← countQueued channel
    (((w.channels.get? channel).map fun line => line.channel.queue.length).getD 0)
  putValue ctx (.text (Bytes.ofNat n))

/-- The function that the first argument must be, and the other arguments. -/
def functionArgument : List Value → Act (Fn × List Value)
  | .fn f :: rest => pure (f, rest)
  | _ => Act.fail (utf8 "first argument must be a function")

/-- Calls a function with each input value. -/
def each (go : Runner) (ctx : Context) (arguments : List Value) : Act Unit := do
  let (f, _) ← functionArgument arguments
  let channel ← inputChannel ctx
  consume channel (fun v => go (.call ctx f [v])) (go (.call ctx (.builtin .each) arguments))

/-- Writes everything that the input stream has to offer as one text. -/
def slurp (ctx : Context) : Act Unit := do
  match ctx.stream? (← Act.world) 0 with
  | none => Act.fail (utf8 "no byte input")
  | some stream => do
    let bytes ← Act.change fun w => w.readAll stream
    putValue ctx (.text bytes)

/-! ## Calls -/

/-- An outcome as a value: `ok`, or the kind, the message and the ends of the span. -/
def outcomeValue : Option Error → Value
  | none => .text (utf8 "ok")
  | some e =>
    let span := e.span.getD default
    .list [.text e.kind.name, .text e.message, .text (Bytes.ofInt span.start),
      .text (Bytes.ofInt span.stop)]

/-- Calls a function in the same context. -/
def callFunction (go : Runner) (ctx : Context) (arguments : List Value) : Act Unit := do
  let (f, rest) ← functionArgument arguments
  go (.call ctx f rest)

/-- Calls a function under protection and writes its outcome. -/
def tryFunction (go : Runner) (ctx : Context) (arguments : List Value) : Act Unit := do
  let (f, rest) ← functionArgument arguments
  let error ← callProtected go ctx f rest
  putValue ctx (outcomeValue error)

/-- What stands for captured output when there is none. -/
def unset : List Value := [.text (utf8 "unset")]

/-- Captures the output of a function, and writes it and the outcome. -/
def captureFunction (go : Runner) (ctx : Context) (arguments : List Value) : Act Unit := do
  let (f, rest) ← functionArgument arguments
  match ← captureProtected go ctx f rest with
  | .ok values => do
    putValue ctx (.list values)
    putValue ctx (outcomeValue none)
  | .error e => do
    putValue ctx (.list unset)
    putValue ctx (outcomeValue (some e))

/-! ## Reflection -/

/-- What an endpoint has, by letter: a file, a channel, and the mark for closing it. -/
def endpointLetters (e : Endpoint) : Bytes :=
  (if e.stream.isSome then utf8 "f" else []) ++ (if e.channel.isSome then utf8 "c" else []) ++
    (if e.closesChannel then utf8 "o" else [])

/-- The endpoints of a context that are looked at, up to the last one that is there. -/
def visibleEndpoints (ctx : Context) (w : World) : List (Option Endpoint) :=
  (((ctx.endpoints.take 16).map (·.map w.endpoint)).reverse.dropWhile Option.isNone).reverse

/-- The names bound in a scope, in order. -/
def sortedNames (w : World) (id : ScopeId) : List Bytes := (w.scope id).names.mergeSort Bytes.le

/-- A description of a context. -/
def describe (ctx : Context) (w : World) : Value :=
  let letters := fun e : Option Endpoint => Value.text (e.elim (utf8 "-") endpointLetters)
  .list ([.text ctx.name, .text ctx.label, .text (Bytes.ofInt w.here.start),
      .text (Bytes.ofInt w.here.stop)] ++
    (visibleEndpoints ctx w).map letters ++
    [.list ((sortedNames w ctx.scope).map .text), .list ((sortedNames w ctx.outer).map .text)])

/-- Writes a description of the context. -/
def showContext (ctx : Context) : Act Unit := do
  putValue ctx (describe ctx (← Act.world))

/-- Writes a list with the value that a reference leads to, empty if it leads nowhere. -/
def lookupReference (go : Runner) (ctx : Context) : List Value → Act Unit
  | [qualifier, name] => do
    let qualifier ← Act.ofExcept (qualifier.toText (utf8 "qualifier"))
    let name ← Act.ofExcept (name.toText (utf8 "name"))
    match ← resolve go ctx qualifier name with
    | some place => do
      let value ← Act.readPlace place
      putValue ctx (.list [value])
    | none => putValue ctx (.list [])
  | _ => Act.fail (utf8 "lookup needs two arguments")

/-! ## Interruption -/

/-- Sets the interrupt flag. -/
def setInterrupt : Act Unit := Act.modify fun w => { w with interrupted := true }

/-- Interrupts the evaluation. -/
def trip : Act Unit := do
  setInterrupt
  Act.modify (World.note .interrupted)

/-- The number of the interrupt signal. -/
def interruptSignal : Int := 2

/-- The world after the stub has forwarded its signals: they are taken up to the first interrupt
signal, which sets the interrupt flag and ends the forwarding. -/
def forwardSignals (w : World) : World :=
  match w.stub with
  | none => w
  | some stub =>
    if !stub.forwarding then w
    else
      let waiting := stub.signals.queue.dropWhile (· ≠ interruptSignal)
      match waiting with
      | [] => { w with stub := some { stub with signals := stub.signals.drain.1 } }
      | _ :: rest =>
        { w with
          interrupted := true
          stub := some { stub with
            signals := { stub.signals with queue := rest }
            forwarding := false } }

/-- Sends the interrupt signal to the stub and waits until the interrupt flag is set. -/
def signalStub : Act Unit := fun w =>
  let sent : Option World :=
    match w.stub with
    | none => some w
    | some stub =>
      (stub.signals.send? interruptSignal).map fun (signals, _) =>
        { w with stub := some { stub with signals } }
  match sent.map forwardSignals with
  | some w => if w.interrupted then (.done (), w) else (.halted .blocked, w)
  | none => (.halted .blocked, w)

/-- Interrupts the evaluation by a signal to the stub. -/
def sigint : Act Unit := do
  signalStub
  Act.modify (World.note .interrupted)

/-! ## Dispatch -/

/-- Calls a builtin function. -/
def callBuiltin (go : Runner) (ctx : Context) (b : Builtin) (arguments : List Value) : Act Unit :=
  match b with
  | .put => put ctx arguments
  | .echo => echo ctx arguments
  | .fail => fail arguments
  | .nop => pure ()
  | .cd => cd arguments
  | .collect => collect go ctx arguments
  | .count => count ctx
  | .each => each go ctx arguments
  | .slurp => slurp ctx
  | .trip => trip
  | .boom => Act.throwForeign (utf8 "boom")
  | .call => callFunction go ctx arguments
  | .try => tryFunction go ctx arguments
  | .capture => captureFunction go ctx arguments
  | .ctx => showContext ctx
  | .lookup => lookupReference go ctx arguments
  | .sigint => sigint

end Conduit.Eval
