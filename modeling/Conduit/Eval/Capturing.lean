import Conduit.Eval.Capture

/-!
# The Threads of a Capture

While a function runs under capture three threads are at work.  The main one calls the function,
which sends values into a bounded channel and writes bytes into a pipe.  A taker receives the values
and gathers them.  A reader reads the bytes, a block at a time, and gathers the lines; the part of a
line at the end of a block is kept until the next block.  However the function ends, the main thread
closes the writing end of the pipe, closes the channel, waits for the taker and then for the reader.

Here each thread takes one step after another, and any other may take steps in between.  The
function is any client of the channel and the pipe: it sends values, writes bytes, as far as the
pipe has room for them, and ends in some way at some time; it has let go of the writing end by then.
A read yields any block of bytes that are there, up to a largest size.
-/

namespace Conduit.Eval

/-- The number of bytes that are read from the pipe of a capture at a time, at most. -/
def blockSize : Nat := 4096

/-- Something that a function has done under capture: it has sent a value, which was accepted or
refused, or has written bytes. -/
inductive Deed where
  | sent (v : Value) (accepted : Bool)
  | wrote (bytes : Bytes)

namespace Deed

/-- The value that was sent. -/
def sent? : Deed → Option Value
  | .sent v _ => some v
  | .wrote _ => none

/-- The bytes that were written. -/
def written : Deed → Bytes
  | .sent _ _ => []
  | .wrote bytes => bytes

end Deed

/-- Something that has been gathered: a value, or a line without its newline. -/
inductive Gathered where
  | value (v : Value)
  | line (text : Bytes)

namespace Gathered

/-- What is gathered as a value. -/
def toValue : Gathered → Value
  | .value v => v
  | .line text => .text text

def value? : Gathered → Option Value
  | .value v => some v
  | .line _ => none

def line? : Gathered → Option Bytes
  | .value _ => none
  | .line text => some text

end Gathered

/-- How far the main thread of a capture has come. -/
inductive Phase where
  | calling
  /-- The function has ended. -/
  | ended (how : Outcome Unit)
  /-- The writing end of the pipe has been closed. -/
  | released (how : Outcome Unit)
  /-- The channel has been closed. -/
  | closed (how : Outcome Unit)
  /-- The taker has stopped. -/
  | drained (how : Outcome Unit)
  /-- The reader has stopped. -/
  | left (how : Outcome Unit)

namespace Phase

/-- How the function has ended, if it has. -/
def how? : Phase → Option (Outcome Unit)
  | .calling => none
  | .ended how | .released how | .closed how | .drained how | .left how => some how

/-- Whether the writing end of the pipe is open. -/
def isWriting : Phase → Bool
  | .calling | .ended _ => true
  | _ => false

/-- Whether the channel has been closed. -/
def hasClosed : Phase → Bool
  | .closed _ | .drained _ | .left _ => true
  | _ => false

/-- Whether the taker has been waited for. -/
def hasDrained : Phase → Bool
  | .drained _ | .left _ => true
  | _ => false

/-- Whether nothing is left to be done. -/
def hasLeft : Phase → Bool
  | .left _ => true
  | _ => false

end Phase

/-- The taker waits for a value, has one in its hands, or has stopped. -/
inductive Taker where
  | waiting
  | holding (v : Value)
  | done

/-- The values that the taker has yet to gather of those it has taken. -/
def Taker.held : Taker → List Value
  | .holding v => [v]
  | _ => []

/-- The reader waits for a block, goes through what remains of one, or has stopped.  It keeps the
beginning of a line that has not ended yet. -/
inductive Reader where
  | waiting (line : Bytes)
  | splitting (line rest : Bytes)
  | done

namespace Reader

/-- The beginning of a line. -/
def line : Reader → Bytes
  | .waiting line | .splitting line _ => line
  | .done => []

/-- What remains of a block. -/
def rest : Reader → Bytes
  | .splitting _ rest => rest
  | _ => []

end Reader

/-- What a capture comes to: what has been gathered, unless the function has ended otherwise than
with success. -/
def captureResult (output : List Value) : Outcome Unit → Outcome (List Value)
  | .done () => .done output
  | .raised e => .raised e
  | .foreign what => .foreign what
  | .halted reason => .halted reason

/-- A capture under way: what its threads share, where each of them stands, what has been gathered,
and what the function has done. -/
structure Capturing where
  output : Channel Value := .ofCapacity captureCapacity
  pipe : Bytes := []
  phase : Phase := .calling
  taker : Taker := .waiting
  reader : Reader := .waiting []
  gathered : List Gathered := []
  history : List Deed := []

namespace Capturing

/-- The values that the function has sent, in order. -/
def sent (s : Capturing) : List Value := s.history.filterMap Deed.sent?

/-- The bytes that the function has written, in order. -/
def written (s : Capturing) : Bytes := s.history.flatMap Deed.written

/-- The values that have been gathered. -/
def values (s : Capturing) : List Value := s.gathered.filterMap Gathered.value?

/-- The lines that have been gathered. -/
def lines (s : Capturing) : List Bytes := s.gathered.filterMap Gathered.line?

/-- What a capture comes to. -/
def result (s : Capturing) (how : Outcome Unit) : Outcome (List Value) :=
  captureResult (s.gathered.map Gathered.toValue) how

/-! ## Steps -/

/-- Who takes a step. -/
inductive Agent where
  | function
  | main
  | taker
  | reader
  deriving DecidableEq, Repr

/-- A step of the function, with room for so many bytes in the pipe. -/
inductive FunctionStep (room : Nat) (s : Capturing) : Capturing → Prop
  | send {v : Value} {output : Channel Value} {accepted : Bool} : s.phase = .calling →
      s.output.send? v = some (output, accepted) →
      FunctionStep room s { s with output, history := s.history ++ [.sent v accepted] }
  | write {bytes : Bytes} : s.phase = .calling → s.pipe.length + bytes.length ≤ room →
      FunctionStep room s { s with
        pipe := s.pipe ++ bytes, history := s.history ++ [.wrote bytes] }
  | finish (how : Outcome Unit) : s.phase = .calling →
      FunctionStep room s { s with phase := .ended how }

/-- A step of the main thread once the function has ended. -/
inductive MainStep (s : Capturing) : Capturing → Prop
  | release {how : Outcome Unit} : s.phase = .ended how →
      MainStep s { s with phase := .released how }
  | close {how : Outcome Unit} : s.phase = .released how →
      MainStep s { s with output := s.output.close, phase := .closed how }
  | awaitTaker {how : Outcome Unit} : s.phase = .closed how → s.taker = .done →
      MainStep s { s with phase := .drained how }
  | awaitReader {how : Outcome Unit} : s.phase = .drained how → s.reader = .done →
      MainStep s { s with phase := .left how }

/-- A step of the taker. -/
inductive TakerStep (s : Capturing) : Capturing → Prop
  | take {v : Value} {output : Channel Value} : s.taker = .waiting →
      s.output.recv? = some (output, some v) →
      TakerStep s { s with output, taker := .holding v }
  | keep {v : Value} : s.taker = .holding v →
      TakerStep s { s with gathered := s.gathered ++ [.value v], taker := .waiting }
  | finish {output : Channel Value} : s.taker = .waiting →
      s.output.recv? = some (output, none) → TakerStep s { s with output, taker := .done }

/-- A step of the reader.  A read yields some of the bytes that are there, and nothing once all have
been read and the writing end is closed. -/
inductive ReaderStep (s : Capturing) : Capturing → Prop
  | read {line block later : Bytes} : s.reader = .waiting line → s.pipe = block ++ later →
      block ≠ [] → block.length ≤ blockSize →
      ReaderStep s { s with pipe := later, reader := .splitting line block }
  | extend {line rest : Bytes} {byte : UInt8} : s.reader = .splitting line (byte :: rest) →
      byte ≠ Bytes.newline →
      ReaderStep s { s with reader := .splitting (line ++ [byte]) rest }
  | keep {line rest : Bytes} : s.reader = .splitting line (Bytes.newline :: rest) →
      ReaderStep s { s with gathered := s.gathered ++ [.line line], reader := .splitting [] rest }
  | next {line : Bytes} : s.reader = .splitting line [] →
      ReaderStep s { s with reader := .waiting line }
  | finish {line : Bytes} : s.reader = .waiting line → s.pipe = [] → s.phase.isWriting = false →
      ReaderStep s { s with
        gathered := s.gathered ++ if line = [] then [] else [.line line], reader := .done }

/-- A step of one of those at work. -/
inductive Step (room : Nat) (s : Capturing) : Agent → Capturing → Prop
  | function {s' : Capturing} : FunctionStep room s s' → Step room s .function s'
  | main {s' : Capturing} : MainStep s s' → Step room s .main s'
  | taker {s' : Capturing} : TakerStep s s' → Step room s .taker s'
  | reader {s' : Capturing} : ReaderStep s s' → Step room s .reader s'

/-- The captures that steps lead to. -/
inductive Reached (room : Nat) (s : Capturing) : Capturing → Prop
  | start : Reached room s s
  | step {s' s'' : Capturing} {agent : Agent} : Reached room s s' → Step room s' agent s'' →
      Reached room s s''

end Capturing

end Conduit.Eval
