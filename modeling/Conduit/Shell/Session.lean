import Conduit.Shell

/-!
# The Threads of an Interactive Line

While an interactive line runs several threads are at work.  The main one clears the interrupt flag,
engages the stub if there is a live one and a terminal, drops the signals that came before, and
evaluates the line.  What the evaluation sends goes into a bounded channel, and a drainer takes it
from there and prints it.  A forwarder receives the signals of the stub and sets the interrupt flag
at the first interrupt signal.  However the line ends, the main thread tells the forwarder to stop
and waits for it, closes the channel, waits for the drainer, and clears the flag.

Here each thread takes one step after another, and any other may take steps in between.  The
evaluation is any client of the channel and the flag: it sends values, looks at the flag, sets it,
and ends in some way at some time.  The stub may send signals, stop doing so for good, and die at
any time, and a timed receive may give up at any time.  How a thread that waits is woken is not part
of this.
-/

namespace Conduit.Shell

/-- What a line is run with. -/
structure Prompt where
  leader : Bytes
  capacity : Nat
  title : Bytes
  directory : Bytes
  terminal : Bool
  deriving DecidableEq, Repr

/-- What a shell runs a line with. -/
def prompt (setup : Setup) (text : Bytes) (w : World) : Prompt where
  leader := setup.settings.leader
  capacity := setup.settings.channelSize
  title := Text.Unicode.title text
  directory := w.directoryText
  terminal := w.terminal

/-- What is said if a process could not be put in the foreground. -/
def complaint (who : Bytes) (failed : Bool) : Bytes := if failed then foregroundFailure who else []

/-! ## Where the threads stand -/

/-- Something that the evaluation has done: it has sent a value, which was accepted or refused, has
found the interrupt flag set or clear, or has set it. -/
inductive Deed where
  | sent (v : Value) (accepted : Bool)
  | polled (interrupted : Bool)
  | tripped

/-- The value that was sent. -/
def Deed.sent? : Deed → Option Value
  | .sent v _ => some v
  | _ => none

/-- The ways in which a line can end. -/
abbrev Ending := Outcome (Option Error)

/-- How far the main thread has come. -/
inductive Stage where
  /-- The channel is there, and the drainer has been started. -/
  | begun
  /-- The flag has been cleared. -/
  | cleared
  /-- The stub has been engaged, and signals that came before are dropped. -/
  | dropping
  | evaluating
  /-- The line has ended, and the forwarder has been told to stop. -/
  | stopping (how : Ending)
  /-- The forwarder has stopped. -/
  | stopped (how : Ending)
  /-- The channel has been closed. -/
  | closed (how : Ending)
  /-- The drainer has stopped. -/
  | drained (how : Ending)
  | left (how : Ending)

namespace Stage

/-- Whether the evaluation has not begun. -/
def isPreparing : Stage → Bool
  | .begun | .cleared | .dropping => true
  | _ => false

/-- Whether the line has ended. -/
def isOver : Stage → Bool
  | .stopping _ | .stopped _ | .closed _ | .drained _ | .left _ => true
  | _ => false

/-- Whether the forwarder has been waited for. -/
def hasJoined : Stage → Bool
  | .stopped _ | .closed _ | .drained _ | .left _ => true
  | _ => false

/-- Whether the channel has been closed. -/
def hasClosed : Stage → Bool
  | .closed _ | .drained _ | .left _ => true
  | _ => false

/-- Whether the drainer has been waited for. -/
def hasDrained : Stage → Bool
  | .drained _ | .left _ => true
  | _ => false

/-- Whether nothing is left to be done. -/
def hasLeft : Stage → Bool
  | .left _ => true
  | _ => false

end Stage

/-- The drainer waits for a value, prints what remains of a line, or has stopped. -/
inductive Drainer where
  | waiting
  | printing (rest : Bytes)
  | done

/-- The bytes that the drainer has yet to print of the value that it has taken. -/
def Drainer.rest : Drainer → Bytes
  | .printing rest => rest
  | _ => []

/-- The forwarder has not been started, looks whether it is to stop, waits for a signal, has one in
its hands, has waited in vain, or has stopped. -/
inductive Forwarder where
  | absent
  | checking
  | receiving
  | holding (signal : Int)
  | lacking
  | done

/-- Whether no forwarder is at work. -/
def Forwarder.isIdle : Forwarder → Bool
  | .absent => true
  | .done => true
  | _ => false

/-- A line that is being run: what its threads share, where each of them stands, and what has
happened since it began.  The shell greets and bids farewell when it could not put a process in the
foreground. -/
structure Session where
  output : Channel Value
  stub : Option Stub
  interrupted : Bool
  printed : Bytes
  cancelled : Bool := false
  stage : Stage := .begun
  drainer : Drainer := .waiting
  forwarder : Forwarder := .absent
  history : List Deed := []
  arrived : List Int := []
  greeting : Bytes := []
  farewell : Bytes := []

namespace Session

/-- A line that begins in a shell. -/
def start (p : Prompt) (w : World) : Session where
  output := .ofCapacity p.capacity
  stub := w.stub
  interrupted := w.interrupted
  printed := w.printed

/-- The values that the evaluation has sent, in order. -/
def sent (s : Session) : List Value := s.history.filterMap Deed.sent?

/-- Whether the stub is to be engaged. -/
def engages (p : Prompt) (s : Session) : Bool := s.stub.any (·.alive) && p.terminal

/-- The line has ended, and the forwarder is told to stop. -/
def stop (s : Session) (how : Ending) : Session :=
  { s with cancelled := true, stage := .stopping how }

/-! ## Steps -/

/-- Who takes a step. -/
inductive Agent where
  | main
  | evaluation
  | drainer
  | forwarder
  | stub
  deriving DecidableEq, Repr

/-- A step of the main thread besides the evaluation.  The preparations can be broken off by a
foreign exception. -/
inductive MainStep (p : Prompt) (s : Session) : Session → Prop
  | clear : s.stage = .begun → MainStep p s { s with interrupted := false, stage := .cleared }
  | engage {stub : Stub} (failed : Bool) : s.stage = .cleared → s.stub = some stub →
      s.engages p = true →
      MainStep p s { s with
        stub := some { stub with title := p.title, directory := p.directory }
        printed := s.printed ++ complaint (utf8 "stub") failed
        greeting := complaint (utf8 "stub") failed
        stage := .dropping }
  | proceed : s.stage = .cleared → s.engages p = false →
      MainStep p s { s with stage := .evaluating }
  | drop {stub : Stub} {signal : Int} : s.stage = .dropping → s.stub = some stub →
      stub.signals.pop.2 = some signal →
      MainStep p s { s with stub := some { stub with signals := stub.signals.pop.1 } }
  | forward {stub : Stub} : s.stage = .dropping → s.stub = some stub → stub.signals.pop.2 = none →
      MainStep p s { s with stage := .evaluating, forwarder := .checking }
  | breakOff (what : Bytes) : s.stage.isPreparing = true →
      MainStep p s (s.stop (.foreign what))
  | join {how : Ending} : s.stage = .stopping how → s.forwarder.isIdle = true →
      MainStep p s { s with stage := .stopped how }
  | close {how : Ending} : s.stage = .stopped how →
      MainStep p s { s with output := s.output.close, stage := .closed how }
  | await {how : Ending} : s.stage = .closed how → s.drainer = .done →
      MainStep p s { s with stage := .drained how }
  | leave {how : Ending} (failed : Bool) : s.stage = .drained how →
      MainStep p s { s with
        interrupted := false
        printed := s.printed ++ complaint (utf8 "myself") failed
        farewell := complaint (utf8 "myself") failed
        stage := .left how }

/-- A step of the evaluation. -/
inductive EvaluationStep (s : Session) : Session → Prop
  | send {v : Value} {output : Channel Value} {accepted : Bool} : s.stage = .evaluating →
      s.output.send? v = some (output, accepted) →
      EvaluationStep s { s with output, history := s.history ++ [.sent v accepted] }
  | poll : s.stage = .evaluating →
      EvaluationStep s { s with history := s.history ++ [.polled s.interrupted] }
  | trip : s.stage = .evaluating →
      EvaluationStep s { s with interrupted := true, history := s.history ++ [.tripped] }
  | finish (how : Ending) : s.stage = .evaluating → EvaluationStep s (s.stop how)

/-- A step of the drainer. -/
inductive DrainerStep (p : Prompt) (s : Session) : Session → Prop
  | take {v : Value} {output : Channel Value} : s.drainer = .waiting →
      s.output.recv? = some (output, some v) →
      DrainerStep p s { s with output, drainer := .printing (valueLine p.leader v) }
  | print {now later : Bytes} : s.drainer = .printing (now ++ later) → now ≠ [] →
      DrainerStep p s { s with printed := s.printed ++ now, drainer := .printing later }
  | next : s.drainer = .printing [] → DrainerStep p s { s with drainer := .waiting }
  | finish {output : Channel Value} : s.drainer = .waiting →
      s.output.recv? = some (output, none) → DrainerStep p s { s with output, drainer := .done }

/-- A step of the forwarder. -/
inductive ForwarderStep (s : Session) : Session → Prop
  | check : s.forwarder = .checking →
      ForwarderStep s { s with forwarder := if s.cancelled then .done else .receiving }
  | receive {stub : Stub} : s.forwarder = .receiving → s.stub = some stub →
      ForwarderStep s { s with
        stub := some { stub with signals := stub.signals.pop.1 }
        forwarder := stub.signals.pop.2.elim .lacking .holding }
  | lack {stub : Stub} : s.forwarder = .lacking → s.stub = some stub →
      ForwarderStep s { s with forwarder := if stub.signals.closed then .done else .checking }
  | interrupt : s.forwarder = .holding Eval.interruptSignal →
      ForwarderStep s { s with interrupted := true, forwarder := .done }
  | ignore {signal : Int} : s.forwarder = .holding signal → signal ≠ Eval.interruptSignal →
      ForwarderStep s { s with forwarder := .checking }

/-- Something that the stub does. -/
inductive StubStep (s : Session) : Session → Prop
  | signal {stub : Stub} {signals : Channel Int} {signal : Int} : s.stub = some stub →
      stub.signals.send? signal = some (signals, true) →
      StubStep s { s with
        stub := some { stub with signals }, arrived := s.arrived ++ [signal] }
  | hangUp {stub : Stub} : s.stub = some stub →
      StubStep s { s with stub := some { stub with signals := stub.signals.close } }
  | die {stub : Stub} : s.stub = some stub →
      StubStep s { s with stub := some { stub with alive := false } }

/-- A step of one of those at work. -/
inductive Step (p : Prompt) (s : Session) : Agent → Session → Prop
  | main {s' : Session} : MainStep p s s' → Step p s .main s'
  | evaluation {s' : Session} : EvaluationStep s s' → Step p s .evaluation s'
  | drainer {s' : Session} : DrainerStep p s s' → Step p s .drainer s'
  | forwarder {s' : Session} : ForwarderStep s s' → Step p s .forwarder s'
  | stub {s' : Session} : StubStep s s' → Step p s .stub s'

/-- The sessions that steps lead to. -/
inductive Reached (p : Prompt) (s : Session) : Session → Prop
  | start : Reached p s s
  | step {s' s'' : Session} {agent : Agent} : Reached p s s' → Step p s' agent s'' → Reached p s s''

end Session

end Conduit.Shell
