import Conduit.Relay

/-!
# Runs of a Relay

The left end of a pair sends, and the right end reads.  A run plays operations of both in any order
and keeps a record of what the reader takes out of its socket and of what it hands out.  What has
been taken is told from the socket alone: the packets that are missing from it afterwards.

A talk is a run in which messages are sent, each some data followed by descriptors, and the reader
knows their sizes.  A read waits until there is something to read or the stream has ended, and the
data may be sent in pieces of any size.
-/

namespace Conduit.Relay

variable {δ : Type}

/-- A packet without descriptors. -/
def Packet.plain (b : UInt8) : Packet δ := { byte := b }

/-! ## Operations and their record -/

/-- An operation of the sender or of the reader. -/
inductive Operation (δ : Type) where
  | write (bytes : Bytes)
  | send (d : δ)
  | endSending
  | peek
  | get
  | receive
  | resetLines
  deriving DecidableEq, Repr

namespace Operation

/-- The packets that carry what an operation sends. -/
def packets : Operation δ → List (Packet δ)
  | write bytes => bytes.map Packet.plain
  | send d => [⟨0, [d]⟩]
  | _ => []

/-- Whether an operation ends the stream. -/
def ends : Operation δ → Bool
  | endSending => true
  | _ => false

end Operation

/-- What operations put into the stream: everything that is sent before the stream is ended. -/
def sent (ops : List (Operation δ)) : List (Packet δ) :=
  (ops.takeWhile fun op => !op.ends).flatMap Operation.packets

/-- What the reader does with the stream.  A packet is fetched when its byte goes into the buffer,
and passed when receiving a descriptor takes it. -/
inductive Event (δ : Type) where
  | fetched (p : Packet δ)
  | passed (p : Packet δ)
  | got (b : UInt8)
  | received (d : δ)
  | resetLines
  deriving DecidableEq, Repr

namespace Event

/-- The packet that an event takes out of the socket. -/
def taken? : Event δ → Option (Packet δ)
  | fetched p | passed p => some p
  | _ => none

/-- The packet that an event brings into the buffer. -/
def fetched? : Event δ → Option (Packet δ)
  | fetched p => some p
  | _ => none

/-- The byte that an event hands out. -/
def got? : Event δ → Option UInt8
  | got b => some b
  | _ => none

/-- The descriptor that an event hands out. -/
def received? : Event δ → Option δ
  | received d => some d
  | _ => none

/-- Whether an event starts the count of lines afresh. -/
def isReset : Event δ → Bool
  | resetLines => true
  | _ => false

end Event

/-- The events after the last reset of the count of lines. -/
def sinceReset (log : List (Event δ)) : List (Event δ) :=
  (log.reverse.takeWhile fun event => !event.isReset).reverse

/-- The packets that have left the socket of an end. -/
def End.taken (before after : End δ) : List (Packet δ) :=
  before.incoming.take (before.incoming.length - after.incoming.length)

namespace Pair

/-- Plays an operation, and tells what the reader did. -/
def perform (p : Pair δ) : Operation δ → List (Event δ) × Pair δ
  | .write bytes => ([], (p.write bytes).2)
  | .send d => ([], (p.sendDescriptor (some d)).2)
  | .endSending => ([], p.endSending)
  | .peek =>
    let (_, e) := p.right.peek
    ((p.right.taken e).map .fetched, { p with right := e })
  | .get =>
    let (b, e) := p.right.get
    ((p.right.taken e).map .fetched ++ b.toList.map .got, { p with right := e })
  | .receive =>
    let (result, e) := p.right.receiveDescriptor
    ((p.right.taken e).map .passed ++ result.toOption.toList.map .received, { p with right := e })
  | .resetLines => ([.resetLines], { p with right := p.right.resetLines })

/-- Plays operations one after another. -/
def play (p : Pair δ) : List (Operation δ) → List (Event δ) × Pair δ
  | [] => ([], p)
  | op :: ops =>
    let (now, p) := p.perform op
    let (later, p) := p.play ops
    (now ++ later, p)

end Pair

/-! ## Talks -/

/-- Some data followed by descriptors. -/
structure Message (δ : Type) where
  data : Bytes
  descriptors : List δ
  deriving DecidableEq, Repr

/-- A read of one byte or of one descriptor. -/
inductive Read where
  | get
  | receive
  deriving DecidableEq, Repr

/-- What a read gives when it succeeds. -/
inductive Item (δ : Type) where
  | byte (b : UInt8)
  | descriptor (d : δ)
  deriving DecidableEq, Repr

namespace Message

/-- What a message consists of, in order. -/
def items (m : Message δ) : List (Item δ) :=
  m.data.map .byte ++ m.descriptors.map .descriptor

/-- The packets that carry a message. -/
def packets (m : Message δ) : List (Packet δ) :=
  m.data.map Packet.plain ++ m.descriptors.map fun d => ⟨0, [d]⟩

/-- The reads that take in a message: its bytes one by one, and then its descriptors. -/
def reads (m : Message δ) : List Read :=
  m.data.map (fun _ => .get) ++ m.descriptors.map fun _ => .receive

end Message

/-- Whether a read has to wait. -/
def End.waits (e : End δ) : Read → Bool
  | .get => e.buffer.isNone && e.incoming.isEmpty && !e.ended && !e.wasReset
  | .receive => e.stash.isEmpty && e.incoming.isEmpty && !e.ended && !e.wasReset

/-- Performs a read, which gives nothing when it fails. -/
def End.read (e : End δ) : Read → Option (Item δ) × End δ
  | .get =>
    let (b, e) := e.get
    (b.map .byte, e)
  | .receive =>
    let (result, e) := e.receiveDescriptor
    (result.toOption.map .descriptor, e)

/-- A pair with what is still to be sent, what is still to be read, and what the reads have given.
-/
structure Talk (δ : Type) where
  pair : Pair δ := {}
  toSend : List (Packet δ)
  toRead : List Read
  answers : List (Option (Item δ)) := []

namespace Talk

/-- A talk about messages of which nothing has been sent yet. -/
def about (messages : List (Message δ)) : Talk δ where
  toSend := messages.flatMap Message.packets
  toRead := messages.flatMap Message.reads

/-- Some data or a descriptor is sent, or a read is performed that does not have to wait. -/
inductive Step : Talk δ → Talk δ → Prop
  | write {t : Talk δ} {bytes : Bytes} {rest : List (Packet δ)} :
      bytes ≠ [] → t.toSend = bytes.map Packet.plain ++ rest →
      Step t { t with pair := (t.pair.write bytes).2, toSend := rest }
  | send {t : Talk δ} {d : δ} {rest : List (Packet δ)} :
      t.toSend = ⟨0, [d]⟩ :: rest →
      Step t { t with pair := (t.pair.sendDescriptor (some d)).2, toSend := rest }
  | read {t : Talk δ} {r : Read} {rest : List Read} :
      t.toRead = r :: rest → t.pair.right.waits r = false →
      Step t { t with
        pair := { t.pair with right := (t.pair.right.read r).2 }
        toRead := rest
        answers := t.answers ++ [(t.pair.right.read r).1] }

/-- The talks that steps lead to. -/
inductive Reached (messages : List (Message δ)) : Talk δ → Prop
  | start : Reached messages (about messages)
  | step {t t' : Talk δ} : Reached messages t → Step t t' → Reached messages t'

end Talk

end Conduit.Relay
