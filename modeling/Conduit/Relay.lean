import Conduit.Bytes
import Conduit.Error
import Conduit.Host.Errno

/-!
# Relays

A relay is a pair of connected ends that carry bytes and descriptors in one stream.  A descriptor
travels with a byte.  Each end reads byte by byte: a byte that has been looked at stays in a
one-byte buffer, and descriptors that come with bytes read in this way go into a stash.  Receiving
a descriptor takes one from the stash if there is any, and otherwise the next byte of the socket,
which must carry exactly one; it passes over the buffer.

Reading never waits: an open stream without data is reported as such.  At most four descriptors can
be taken with one byte; of more, four arrive and the byte is lost.
-/

namespace Conduit.Relay

open Host (Errno)

variable {δ : Type}

/-- A byte on its way, with the descriptors attached to it. -/
structure Packet (δ : Type) where
  byte : UInt8
  descriptors : List δ := []
  deriving DecidableEq, Repr

/-- One end of a relay: what is in its socket, whether more can come, whether it can send, and the
state of its reader. -/
structure End (δ : Type) where
  incoming : List (Packet δ) := []
  ended : Bool := false
  wasReset : Bool := false
  sendsEnded : Bool := false
  buffer : Option UInt8 := none
  stash : List δ := []
  lines : Nat := 0
  readError : Option Bytes := none
  deriving DecidableEq, Repr

/-- The number of descriptors that can be taken with one byte. -/
def descriptorLimit : Nat := 4

/-- The text of a failed system call. -/
def failure (call : String) (reason : Errno) : Bytes := utf8 call ++ utf8 ": " ++ reason.text

/-- An error of the relay. -/
def ioError (message : Bytes) : Error := ⟨.io, message, none⟩

/-- Descriptors were lost on the way. -/
def truncatedText : Bytes := utf8 "control message truncated"

namespace End

/-! ## Receiving -/

/-- What taking one byte from the socket gives. -/
inductive Received (δ : Type) where
  | failed (reason : Errno)
  | ended
  | byte (b : UInt8) (descriptors : List δ) (truncated : Bool)
  deriving DecidableEq, Repr

/-- Takes one byte from the socket. -/
def receive (e : End δ) : Received δ × End δ :=
  match e.incoming with
  | p :: rest =>
    (.byte p.byte (p.descriptors.take descriptorLimit) (descriptorLimit < p.descriptors.length),
      { e with incoming := rest })
  | [] =>
    if e.wasReset then (.failed .connectionReset, { e with wasReset := false })
    else if e.ended then (.ended, e)
    else (.failed .tryAgain, e)

/-- Looks at the next byte, which is fetched into the buffer if need be. -/
def peek (e : End δ) : Option UInt8 × End δ :=
  match e.buffer with
  | some b => (some b, e)
  | none =>
    match { e with readError := none }.receive with
    | (.failed reason, e) => (none, { e with readError := some (failure "recvmsg" reason) })
    | (.ended, e) => (none, e)
    | (.byte _ descriptors true, e) =>
      (none, { e with stash := e.stash ++ descriptors, readError := some truncatedText })
    | (.byte b descriptors false, e) =>
      (some b, { e with
        stash := e.stash ++ descriptors
        buffer := some b
        lines := if b = Bytes.newline then e.lines + 1 else e.lines })

/-- Takes the next byte. -/
def get (e : End δ) : Option UInt8 × End δ :=
  match e.peek with
  | (some b, e) => (some b, { e with buffer := none })
  | (none, e) => (none, e)

/-- Takes the next byte and looks at the one after it. -/
def advance (e : End δ) : Option UInt8 × End δ :=
  match e.get with
  | (some _, e) => e.peek
  | (none, e) => (none, e)

/-- Takes up to a number of bytes, and says whether the stream came to an end before that. -/
def getMany : Nat → End δ → (Bytes × Bool) × End δ
  | 0, e => (([], false), e)
  | n + 1, e =>
    match e.get with
    | (none, e) => (([], true), e)
    | (some b, e) =>
      let ((bytes, ended), e) := getMany n e
      ((b :: bytes, ended), e)

/-- A blank byte: space, tab, newline, vertical tab, form feed or carriage return. -/
def isBlank (b : UInt8) : Bool := b == 0x20 || (0x09 ≤ b && b ≤ 0x0D)

/-- From a byte that is being looked at, passes over bytes of a class, at most a given number of
them.  Yields the bytes passed and the byte then looked at. -/
def passWhile (inClass : UInt8 → Bool) : Nat → Option UInt8 → End δ →
    (Bytes × Option UInt8) × End δ
  | _, none, e => (([], none), e)
  | 0, some b, e => (([], some b), e)
  | n + 1, some b, e =>
    if inClass b then
      let (next, e) := e.advance
      let ((bytes, last), e) := passWhile inClass n next e
      ((b :: bytes, last), e)
    else (([], some b), e)

/-- The number of bytes that can still be read. -/
def available (e : End δ) : Nat := e.incoming.length + 1

/-- Reads a word: passes over blanks, takes bytes up to the next blank, and leaves that one.  Says
whether the stream came to an end. -/
def word (e : End δ) : (Bytes × Bool) × End δ :=
  let bound := e.available
  let (first, e) := e.peek
  let ((_, start), e) := passWhile isBlank bound first e
  match start with
  | none => (([], true), e)
  | some b =>
    let ((bytes, last), e) := passWhile (fun b => !isBlank b) bound (some b) e
    ((bytes, last.isNone), e)

/-- Reads a line: takes bytes up to a newline, which is taken and dropped.  Says whether the stream
came to an end. -/
def line (e : End δ) : (Bytes × Bool) × End δ :=
  let bound := e.available
  let (first, e) := e.peek
  let ((bytes, last), e) := passWhile (· ≠ Bytes.newline) bound first e
  match last with
  | none => ((bytes, true), e)
  | some _ => ((bytes, false), e.get.2)

/-- Receives a descriptor. -/
def receiveDescriptor (e : End δ) : Except Error δ × End δ :=
  match e.stash with
  | d :: rest => (.ok d, { e with stash := rest })
  | [] =>
    match e.receive with
    | (.failed reason, e) => (.error (ioError (failure "recvmsg" reason)), e)
    | (.ended, e) => (.error (ioError (utf8 "unexpected end of stream")), e)
    | (.byte _ _ true, e) => (.error (ioError truncatedText), e)
    | (.byte _ [d] false, e) => (.ok d, e)
    | (.byte _ descriptors false, e) =>
      (.error (ioError (utf8 "expected 1 descriptor, got " ++ Bytes.ofNat descriptors.length)), e)

/-- The end with its count of lines started afresh. -/
def resetLines (e : End δ) : End δ := { e with lines := 0 }

/-- The end with its stash emptied. -/
def clearStash (e : End δ) : End δ := { e with stash := [] }

end End

/-- Two connected ends. -/
structure Pair (δ : Type) where
  left : End δ := {}
  right : End δ := {}
  deriving DecidableEq, Repr

namespace Pair

/-- The pair seen from the other side. -/
def swap (p : Pair δ) : Pair δ := ⟨p.right, p.left⟩

/-! ## Sending from the left end -/

/-- Puts packets into the socket of the right end. -/
def deliver (p : Pair δ) (packets : List (Packet δ)) : Pair δ :=
  { p with right := { p.right with incoming := p.right.incoming ++ packets } }

/-- Sends bytes. -/
def write (p : Pair δ) (bytes : Bytes) : Option Error × Pair δ :=
  if bytes.isEmpty then (none, p)
  else if p.left.sendsEnded then (some (ioError (failure "send" .brokenPipe)), p)
  else (none, p.deliver (bytes.map fun b => { byte := b }))

/-- Sends a descriptor with a zero byte; there must be one. -/
def sendDescriptor (p : Pair δ) (d : Option δ) : Option Error × Pair δ :=
  match d with
  | none => (some (ioError (failure "sendmsg" .badDescriptor)), p)
  | some d =>
    if p.left.sendsEnded then (some (ioError (failure "sendmsg" .brokenPipe)), p)
    else (none, p.deliver [{ byte := 0, descriptors := [d] }])

/-- Sends one byte with any number of descriptors, and says whether it could be sent. -/
def sendByteWith (p : Pair δ) (b : UInt8) (descriptors : List δ) : Bool × Pair δ :=
  if p.left.sendsEnded then (false, p) else (true, p.deliver [{ byte := b, descriptors }])

/-- Ends the stream from the left end to the right one. -/
def endSending (p : Pair δ) : Pair δ :=
  { left := { p.left with sendsEnded := true }, right := { p.right with ended := true } }

/-- Destroys the left end.  The right end can send no more, and reads to the end of its stream; it
is told of a reset if bytes were left unread in the socket of the left end. -/
def destroy (p : Pair δ) : Pair δ :=
  { left := {}
    right := { p.right with
      ended := true
      sendsEnded := true
      wasReset := p.right.wasReset || !p.left.incoming.isEmpty } }

end Pair

end Conduit.Relay
