import Conduit.World
import Conduit.Host.Errno

/-!
# Bytes through Streams

Reading a stream to its end, reading one line of it, and writing to it.  A file keeps its offset in
the open stream.  An appending stream writes at the end; writing past the end of a file fills the
gap with zero bytes.  A pipe keeps the bytes between its ends, and reading an empty one yields
nothing: its writers have finished by the time its reader runs.
-/

namespace Conduit.World

open Host (Errno)

/-- Content with bytes written over it from an offset on. -/
def overwrite (content : Bytes) (offset : Nat) (bytes : Bytes) : Bytes :=
  content.take offset ++ List.replicate (offset - content.length) 0 ++ bytes ++
    content.drop (offset + bytes.length)

/-- The bytes that a stream still has to offer. -/
def unread (w : World) (s : Stream) : Bytes :=
  match s.device with
  | .file node offset .read | .file node offset .readWrite => (w.files.content node).drop offset
  | .pipeReader pipe => (w.pipes.get? pipe).getD []
  | _ => []

/-- The world after some bytes at the front of a stream have been taken. -/
def skip (w : World) (id : StreamId) (count : Nat) : World :=
  match (w.streams.get? id).map Stream.device with
  | some (.file node offset access) =>
    { w with streams := w.streams.modify id fun s =>
        { s with device := .file node (offset + count) access } }
  | some (.pipeReader pipe) =>
    { w with pipes := w.pipes.modify pipe (List.drop count) }
  | _ => w

/-- Takes everything that a stream has to offer. -/
def readAll (w : World) (id : StreamId) : Bytes × World :=
  let bytes := ((w.streams.get? id).map w.unread).getD []
  (bytes, w.skip id bytes.length)

/-- Takes one line of a stream, and says whether a newline ended it. -/
def readLine (w : World) (id : StreamId) : (Bytes × Bool) × World :=
  let bytes := ((w.streams.get? id).map w.unread).getD []
  match Bytes.cut? Bytes.newline bytes with
  | some (line, _) => ((line, true), w.skip id (line.length + 1))
  | none => ((bytes, false), w.skip id bytes.length)

/-- Writes bytes to an object of the file tree at an offset. -/
def writeNode (w : World) (node : Host.NodeId) (offset : Nat) (bytes : Bytes) : World :=
  { w with files := w.files.setContent node (overwrite (w.files.content node) offset bytes) }

/-- Whether the reading end of a pipe is still open. -/
def hasReader (w : World) (pipe : PipeId) : Bool :=
  w.streams.rows.any fun s => s.device == .pipeReader pipe && !s.closed

/-- Writes all bytes to a stream. -/
def write (w : World) (id : StreamId) (bytes : Bytes) : Except Errno World :=
  match (w.streams.get? id).map Stream.device with
  | some (.file node _ .append) =>
    .ok (w.writeNode node (w.files.content node).length bytes)
  | some (.file node offset .write) =>
    .ok ((w.writeNode node offset bytes).skip id bytes.length)
  | some (.file node offset .readWrite) =>
    .ok ((w.writeNode node offset bytes).skip id bytes.length)
  | some (.pipeWriter pipe) =>
    if w.hasReader pipe then .ok { w with pipes := w.pipes.modify pipe (· ++ bytes) }
    else .error .brokenPipe
  | some .terminal => .ok w
  | _ => .error .badDescriptor

end Conduit.World
