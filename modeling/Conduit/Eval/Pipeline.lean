import Conduit.Eval.Form

/-!
# Evaluating Pipelines and Blocks

The forms of a pipeline are stages, each in a fork of the context, and a link joins each stage to
the next: a pipe for bytes and a channel for values.  A stage that ends closes its endpoints and the
channel it was reading.  All stages run whatever becomes of the others; of their failures the
foreign exception of the lowest stage is raised, or else the script error of the lowest stage.  The
stages run one after another, from left to right, over links that never fill up.

A pipeline of one form runs in the context itself.  A block runs its pipelines in order, and looks
at the interrupt flag before each.
-/

namespace Conduit.Eval

open Code (Form)

/-- How a stage ended. -/
inductive StageResult where
  | finished
  | raised (e : Error)
  | foreign (what : Bytes)
  deriving DecidableEq, Repr

/-- The foreign exception of the lowest stage that has one. -/
def firstForeign? : List StageResult → Option Bytes
  | [] => none
  | .foreign what :: _ => some what
  | _ :: rest => firstForeign? rest

/-- The script error of the lowest stage that has one. -/
def firstRaised? : List StageResult → Option Error
  | [] => none
  | .raised e :: _ => some e
  | _ :: rest => firstRaised? rest

/-- How a pipeline ends, given how its stages ended. -/
def verdict (results : List StageResult) : Act Unit :=
  match firstForeign? results, firstRaised? results with
  | some what, _ => Act.throwForeign what
  | none, some e => Act.raise e
  | none, none => pure ()

/-- An action whose errors and exceptions become its result; an error without a span is blamed on
the span under evaluation. -/
def settled (act : Act Unit) : Act StageResult := fun w =>
  match act w with
  | (.done (), w) => (.done .finished, w)
  | (.raised e, w) => (.done (.raised (e.orSpan w.here)), w)
  | (.foreign what, w) => (.done (.foreign what), w)
  | (.halted reason, w) => (.halted reason, w)

/-- The label of a stage, counted from one. -/
def stageLabel (number : Nat) : Bytes := utf8 "pipeline form " ++ Bytes.ofNat number

/-- The number of values that a link holds. -/
def linkCapacity : Nat := 32

/-- A link between stages: the endpoint to write to, which closes the channel, and the one to read
from. -/
def newLink : Act (EndpointId × EndpointId) :=
  Act.change fun w =>
    let ((_, reader, writer), w) := w.newPipe
    let (channel, w) := w.newChannel { channel := .ofCapacity linkCapacity, attended := true }
    let (output, w) := w.newEndpoint
      { stream := some writer, channel := some channel, closesChannel := true }
    let (input, w) := w.newEndpoint { stream := some reader, channel := some channel }
    ((output, input), w)

/-- The link to the stages that come next, if there are any. -/
def linkBefore (rest : List Form) : Act (Option (EndpointId × EndpointId)) :=
  if rest.isEmpty then pure none else some <$> newLink

/-- Closes the channel that a stage was reading. -/
def closeInput (channel : Option ChannelId) : Act Unit :=
  Act.modify fun w => channel.elim w w.closeChannel

/-- Puts an endpoint at a position of a context, if there is one to put. -/
def attach (ctx : Context) (n : Nat) : Option EndpointId → Act Context
  | some e => ctx.setEndpoint n (some e)
  | none => pure ctx

/-- A stage that is about to run: its context, the channel that it reads what the stage before it
writes from, and the endpoint that the stage after it reads from. -/
structure Stage where
  ctx : Context
  upper : Option ChannelId
  next : Option EndpointId

/-- Makes a stage that reads from an input, if one is given, and writes to a new link if there are
more stages to come. -/
def openStage (ctx : Context) (number : Nat) (input : Option EndpointId) (rest : List Form) :
    Act Stage := do
  let ctx ← ctx.fork (stageLabel number)
  let ctx ← attach ctx 0 input
  let link ← linkBefore rest
  let ctx ← attach ctx 1 (link.map (·.1))
  let w ← Act.world
  pure {
    ctx
    upper := if input.isSome then ctx.channel? w 0 else none
    next := link.map (·.2) }

/-- Runs stages from left to right.  The first one reads from an input, if one is given, and each
one but the last writes to a new link. -/
def runStages (go : Runner) (ctx : Context) :
    Nat → Option EndpointId → List Form → Act (List StageResult)
  | _, _, [] => pure []
  | number, input, form :: rest => do
    let stage ← openStage ctx number input rest
    let result ← (Act.apart (settled (evalForm go stage.ctx form))).ensuring stage.ctx.finish
    closeInput stage.upper
    let others ← runStages go ctx (number + 1) stage.next rest
    pure (result :: others)

/-- Evaluates a pipeline. -/
def evalPipeline (go : Runner) (ctx : Context) : List Form → Act Unit
  | [form] => evalForm go ctx form
  | forms => do
    let results ← runStages go ctx 1 none forms
    verdict results

/-- Evaluates pipelines in order. -/
def evalPipelines (go : Runner) (ctx : Context) : List (List Form) → Act Unit
  | [] => pure ()
  | forms :: rest => do
    Act.checkInterrupt
    evalPipeline go ctx forms
    evalPipelines go ctx rest

/-- Evaluates a block. -/
def evalBlock (go : Runner) (ctx : Context) (block : Code.Block) : Act Unit :=
  evalPipelines go ctx block.pipelines

end Conduit.Eval
