import Conduit.Eval.Request
import Conduit.World.Streams

/-!
# Capturing Output

A function is called in a fork of the context whose output endpoint belongs to the capture.  What it
sends and writes there is gathered: the values in the order sent, and the bytes as one text for each
line.  The capture keeps an endpoint for the reading end of the pipe while the call lasts.  The
endpoints of the fork are closed however the call ends, and an error discards what was gathered.
-/

namespace Conduit.Eval

/-- The label of the fork that a capture calls its function in. -/
def captureLabel : Bytes := utf8 "output capture"

/-- The number of values that a capture holds before they are gathered. -/
def captureCapacity : Nat := 32

/-- The texts of the lines of some bytes. -/
def lineValues (bytes : Bytes) : List Value := (Bytes.lines bytes).map .text

/-- Takes what has been sent on a channel and written to a pipe. -/
def gather (channel : ChannelId) (pipe : PipeId) : Act (List Value) := fun w =>
  let sent := ((w.channels.get? channel).map fun line => line.channel.queue).getD []
  let bytes := (w.pipes.get? pipe).getD []
  (.done (sent ++ lineValues bytes),
    { w with
      channels := w.channels.modify channel fun line =>
        { line with channel := line.channel.drain.1 }
      pipes := w.pipes.modify pipe fun _ => [] })

/-- The output of a function. -/
def captureOutput (go : Runner) (ctx : Context) (f : Fn) (arguments : List Value) :
    Act (List Value) := do
  let (pipe, reader, writer) ← Act.change World.newPipe
  let channel ← Act.change fun w =>
    w.newChannel { channel := .ofCapacity captureCapacity, attended := true }
  let output ← Act.change fun w =>
    w.newEndpoint { stream := some writer, channel := some channel, closesChannel := true }
  let input ← Act.change fun w => w.newEndpoint { stream := some reader }
  let fork ← ctx.fork captureLabel
  let fork ← fork.setEndpoint 1 (some output)
  let cleanup := fun w => ((fork.finish w).closeChannel channel).dropEndpoint input
  (Act.apart (go (.call fork f arguments))).ensuring cleanup
  gather channel pipe

/-- The output of a function, or the error that it raised, blamed on the span under evaluation if
it is blamed on none. -/
def captureProtected (go : Runner) (ctx : Context) (f : Fn) (arguments : List Value) :
    Act (Except Error (List Value)) := fun w =>
  match captureOutput go ctx f arguments w with
  | (.done values, w) => (.done (.ok values), w)
  | (.raised e, w) => (.done (.error (e.orSpan w.here)), w)
  | (.foreign what, w) => (.foreign what, w)
  | (.halted reason, w) => (.halted reason, w)

/-- Calls a function under protection. -/
def callProtected (go : Runner) (ctx : Context) (f : Fn) (arguments : List Value) :
    Act (Option Error) :=
  Act.attempt (go (.call ctx f arguments))

end Conduit.Eval
