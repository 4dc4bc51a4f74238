import Conduit.World

/-!
# Holding and Letting Go of Endpoints

A stream counts the endpoints that hold it.  It is closed when the count falls to zero, provided it
is owned.  Forking an endpoint makes another holder of the same stream and channel, which never
closes the channel.  Closing an endpoint makes it let go of both and, if it is marked for it, closes
the channel; closing again changes nothing.  An endpoint whose last reference is dropped lets go of
its stream and leaves its channel open.
-/

namespace Conduit

namespace Stream

/-- One more holder. -/
def hold (s : Stream) : Stream := { s with holders := s.holders + 1 }

/-- One holder less.  The last one to leave an owned stream closes it. -/
def release (s : Stream) : Stream :=
  if s.holders ≤ 1 then { s with holders := 0, closed := s.closed || s.owned }
  else { s with holders := s.holders - 1 }

end Stream

namespace World

/-! ## Streams, pipes and channels -/

/-- The world with one more stream, which no endpoint holds yet. -/
def newStream (w : World) (device : Device) (owned : Bool) : StreamId × World :=
  (w.streams.size, { w with streams := w.streams.push { device, owned } })

/-- The world with one more pipe and with streams for its reading and its writing end. -/
def newPipe (w : World) : (PipeId × StreamId × StreamId) × World :=
  let pipe := w.pipes.size
  let (reader, w) := { w with pipes := w.pipes.push [] }.newStream (.pipeReader pipe) true
  let (writer, w) := w.newStream (.pipeWriter pipe) true
  ((pipe, reader, writer), w)

/-- The world with one more channel. -/
def newChannel (w : World) (line : Line) : ChannelId × World :=
  (w.channels.size, { w with channels := w.channels.push line })

/-- The world with a channel changed. -/
def modifyChannel (w : World) (id : ChannelId) (f : Channel Value → Channel Value) : World :=
  { w with channels := w.channels.modify id fun line => { line with channel := f line.channel } }

/-- The world with a channel closed. -/
def closeChannel (w : World) (id : ChannelId) : World := w.modifyChannel id Channel.close

/-- The world with one more holder of a stream. -/
def holdStream (w : World) : Option StreamId → World
  | some id => { w with streams := w.streams.modify id Stream.hold }
  | none => w

/-- The world with one holder of a stream less. -/
def releaseStream (w : World) : Option StreamId → World
  | some id => { w with streams := w.streams.modify id Stream.release }
  | none => w

/-! ## Endpoints -/

/-- The world with one more endpoint, which holds its stream. -/
def newEndpoint (w : World) (e : Endpoint) : EndpointId × World :=
  let w := w.holdStream e.stream
  (w.endpoints.size, { w with endpoints := w.endpoints.push e })

/-- The endpoint with an identity. -/
def endpoint (w : World) (id : EndpointId) : Endpoint := (w.endpoints.get? id).getD {}

/-- The world with a fork of an endpoint. -/
def forkEndpoint (w : World) (id : EndpointId) : EndpointId × World :=
  let e := w.endpoint id
  w.newEndpoint { stream := e.stream, channel := e.channel }

/-- The world with an endpoint closed. -/
def closeEndpoint (w : World) (id : EndpointId) : World :=
  let e := w.endpoint id
  let w := w.releaseStream e.stream
  let w :=
    match e.closesChannel, e.channel with
    | true, some channel => w.closeChannel channel
    | _, _ => w
  { w with endpoints := w.endpoints.modify id fun e => { e with stream := none, channel := none } }

/-- The world with one more reference to an endpoint. -/
def referTo (w : World) (id : EndpointId) : World :=
  { w with endpoints := w.endpoints.modify id fun e => { e with references := e.references + 1 } }

/-- The world with one reference to an endpoint less.  With the last one the endpoint goes away. -/
def dropEndpoint (w : World) (id : EndpointId) : World :=
  let e := w.endpoint id
  if e.references ≤ 1 then
    let w := w.releaseStream e.stream
    { w with endpoints := w.endpoints.modify id fun e =>
        { e with stream := none, channel := none, references := 0 } }
  else
    { w with endpoints := w.endpoints.modify id fun e =>
        { e with references := e.references - 1 } }

/-! ## Vectors of endpoints -/

/-- The endpoint at a position of a vector; none past its end. -/
def slot (endpoints : List (Option EndpointId)) (n : Nat) : Option EndpointId :=
  (endpoints[n]?).join

/-- A vector extended with empty places to at least a length. -/
def grow (endpoints : List (Option EndpointId)) (length : Nat) : List (Option EndpointId) :=
  endpoints ++ List.replicate (length - endpoints.length) none

/-- The world with every endpoint of a vector forked. -/
def forkEndpoints (w : World) :
    List (Option EndpointId) → List (Option EndpointId) × World
  | [] => ([], w)
  | none :: rest =>
    let (forked, w) := w.forkEndpoints rest
    (none :: forked, w)
  | some id :: rest =>
    let (fork, w) := w.forkEndpoint id
    let (forked, w) := w.forkEndpoints rest
    (some fork :: forked, w)

/-- The world with every endpoint of a vector closed. -/
def closeEndpoints (w : World) (endpoints : List (Option EndpointId)) : World :=
  endpoints.foldl (fun w e => e.elim w w.closeEndpoint) w

/-- The world with one reference less to every endpoint of a vector. -/
def dropEndpoints (w : World) (endpoints : List (Option EndpointId)) : World :=
  endpoints.foldl (fun w e => e.elim w w.dropEndpoint) w

/-- The vector with one place filled, which takes over a reference to the new endpoint, and the
world with one reference less to the endpoint that stood there. -/
def setEndpoint (w : World) (endpoints : List (Option EndpointId)) (n : Nat)
    (e : Option EndpointId) : List (Option EndpointId) × World :=
  let grown := grow endpoints (n + 1)
  (grown.set n e, (slot grown n).elim w w.dropEndpoint)

end World

end Conduit
