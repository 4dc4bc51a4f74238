import Conduit.Act
import Conduit.World.Endpoints

/-!
# Evaluation Contexts

A context is what a piece of code runs in: the source it stands in, the innermost scope and the
scope outside it, and the endpoints.  The source is known by its name, its text and the chunk that
was compiled; of these evaluation only ever copies the chunk.  A fork shares the scopes and has forks
of the endpoints, so closing the endpoints of a fork leaves those of the context alone.
-/

namespace Conduit

/-- What a piece of code runs in. -/
structure Context where
  name : Bytes
  text : Bytes
  label : Bytes
  scope : ScopeId
  outer : ScopeId
  endpoints : List (Option EndpointId)
  chunk : Script.Chunk := default

namespace Context

/-- The endpoint at a position. -/
def endpoint? (ctx : Context) (w : World) (n : Nat) : Option Endpoint :=
  (World.slot ctx.endpoints n).map w.endpoint

/-- The channel of the endpoint at a position. -/
def channel? (ctx : Context) (w : World) (n : Nat) : Option ChannelId :=
  (ctx.endpoint? w n).bind Endpoint.channel

/-- The stream of the endpoint at a position. -/
def stream? (ctx : Context) (w : World) (n : Nat) : Option StreamId :=
  (ctx.endpoint? w n).bind Endpoint.stream

/-- The context with more empty places for endpoints. -/
def grow (ctx : Context) (length : Nat) : Context :=
  { ctx with endpoints := World.grow ctx.endpoints length }

/-- A fork of the context under another label. -/
def fork (ctx : Context) (label : Bytes) : Act Context :=
  Act.change fun w =>
    let (endpoints, w) := w.forkEndpoints ctx.endpoints
    ({ ctx with label, endpoints }, w)

/-- The context with an endpoint put at a position; the context takes over a reference to it. -/
def setEndpoint (ctx : Context) (n : Nat) (e : Option EndpointId) : Act Context :=
  Act.change fun w =>
    let (endpoints, w) := w.setEndpoint ctx.endpoints n e
    ({ ctx with endpoints }, w)

/-- The world with the endpoints of the context closed. -/
def close (ctx : Context) (w : World) : World := w.closeEndpoints ctx.endpoints

/-- The world after the context has gone away. -/
def drop (ctx : Context) (w : World) : World := w.dropEndpoints ctx.endpoints

/-- The world after the endpoints of the context have been closed and the context has gone away. -/
def finish (ctx : Context) (w : World) : World := ctx.drop (ctx.close w)

end Context

end Conduit
