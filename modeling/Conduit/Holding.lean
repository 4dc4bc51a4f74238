import Conduit.Context

/-!
# Holding Endpoints from Outside

A host makes endpoints over streams and channels, forks them, keeps references to them, and puts
them into contexts, which it forks and destroys in turn.  The holding lists the contexts and the
loose references, and keeps a record of the endpoints that were made by forking and of the streams
that were closed, once for each time that a last holder let go.

A host can only pass on what it has: an endpoint that somebody refers to, and a stream that somebody
holds.
-/

namespace Conduit

namespace World

/-- The owned stream that an endpoint is the last holder of. -/
def lastHeld? (w : World) (id : EndpointId) : Option StreamId :=
  (w.endpoint id).stream.filter fun sid =>
    (w.streams.get? sid).any fun s => s.owned && s.holders ≤ 1

/-- The stream that dropping a reference to an endpoint closes. -/
def dropCloses? (w : World) (id : EndpointId) : Option StreamId :=
  if (w.endpoint id).references ≤ 1 then w.lastHeld? id else none

/-- The streams that are closed when a step is taken with the endpoints of a vector in turn. -/
def closingsOf (step : World → EndpointId → World)
    (closes? : World → EndpointId → Option StreamId) :
    World → List (Option EndpointId) → List StreamId
  | _, [] => []
  | w, none :: rest => closingsOf step closes? w rest
  | w, some id :: rest => (closes? w id).toList ++ closingsOf step closes? (step w id) rest

/-- The world with one more reference to every endpoint of a vector. -/
def referToAll (w : World) (endpoints : List (Option EndpointId)) : World :=
  endpoints.foldl (fun w e => e.elim w w.referTo) w

end World

/-- What a host has made.  A context that has gone away leaves its place empty. -/
structure Holding where
  world : World := {}
  contexts : List (Option Context) := []
  loose : List EndpointId := []
  forks : List EndpointId := []
  closings : List StreamId := []

namespace Holding

/-- An operation of the host.  Endpoints are made over a new stream or over one that is held
already, or over none; a context is made from endpoints that there are; and contexts are named by
their position. -/
inductive Operation where
  | addChannel (capacity : Nat)
  | openEndpoint (device : Device) (owned : Bool) (channel : Option ChannelId)
      (closesChannel : Bool)
  | shareEndpoint (stream : Option StreamId) (channel : Option ChannelId) (closesChannel : Bool)
  | forkEndpoint (id : EndpointId)
  | referTo (id : EndpointId)
  | closeEndpoint (id : EndpointId)
  | dropEndpoint (id : EndpointId)
  | addContext (ctx : Context)
  | forkContext (i : Nat) (label : Bytes)
  | forkEndpoints (i : Nat)
  | setEndpoint (i n : Nat) (e : Option EndpointId)
  | grow (i length : Nat)
  | closeContext (i : Nat)
  | dropContext (i : Nat)

/-- The context at a position. -/
def context? (s : Holding) (i : Nat) : Option Context := (s.contexts[i]?).join

/-- Somebody refers to an endpoint. -/
def Refers (s : Holding) (id : EndpointId) : Prop :=
  id ∈ s.loose ∨ ∃ ctx, some ctx ∈ s.contexts ∧ some id ∈ ctx.endpoints

/-- An endpoint that somebody refers to holds a stream. -/
def Holds (s : Holding) (sid : StreamId) : Prop :=
  ∃ id, s.Refers id ∧ (s.world.endpoint id).stream = some sid

/-- The host has what an operation passes on. -/
def Admits (s : Holding) : Operation → Prop
  | .openEndpoint _ _ channel _ => ∀ c ∈ channel, c < s.world.channels.size
  | .shareEndpoint stream channel _ =>
    (∀ sid ∈ stream, s.Holds sid) ∧ ∀ c ∈ channel, c < s.world.channels.size
  | .forkEndpoint id | .referTo id | .closeEndpoint id => s.Refers id
  | .dropEndpoint id => id ∈ s.loose
  | .addContext ctx => ∀ id, some id ∈ ctx.endpoints → s.Refers id
  | .setEndpoint _ _ e => ∀ id ∈ e, s.Refers id
  | _ => True

/-- The holding with the context at a position replaced, or taken away. -/
def putContext (s : Holding) (i : Nat) (ctx : Option Context) : Holding :=
  { s with contexts := s.contexts.set i ctx }

/-- What an operation does with the context at a position; without one it does nothing. -/
def withContext (s : Holding) (i : Nat) (f : Context → Holding) : Holding :=
  (s.context? i).elim s f

/-- The holding after an operation. -/
def perform (s : Holding) : Operation → Holding
  | .addChannel capacity =>
    { s with world := (s.world.newChannel { channel := .ofCapacity capacity }).2 }
  | .openEndpoint device owned channel closesChannel =>
    let (stream, w) := s.world.newStream device owned
    let (id, w) := w.newEndpoint { stream := some stream, channel, closesChannel }
    { s with world := w, loose := id :: s.loose }
  | .shareEndpoint stream channel closesChannel =>
    let (id, w) := s.world.newEndpoint { stream, channel, closesChannel }
    { s with world := w, loose := id :: s.loose }
  | .forkEndpoint id =>
    let (fork, w) := s.world.forkEndpoint id
    { s with world := w, loose := fork :: s.loose, forks := fork :: s.forks }
  | .referTo id => { s with world := s.world.referTo id, loose := id :: s.loose }
  | .closeEndpoint id =>
    { s with
      world := s.world.closeEndpoint id
      closings := s.closings ++ (s.world.lastHeld? id).toList }
  | .dropEndpoint id =>
    { s with
      world := s.world.dropEndpoint id
      loose := s.loose.erase id
      closings := s.closings ++ (s.world.dropCloses? id).toList }
  | .addContext ctx =>
    { s with world := s.world.referToAll ctx.endpoints, contexts := s.contexts ++ [some ctx] }
  | .forkContext i label =>
    s.withContext i fun ctx =>
      match ctx.fork label s.world with
      | (.done fork, w) =>
        { s with
          world := w
          contexts := s.contexts ++ [some fork]
          forks := fork.endpoints.reduceOption ++ s.forks }
      | (_, w) => { s with world := w }
  | .forkEndpoints i =>
    s.withContext i fun ctx =>
      let (forks, w) := s.world.forkEndpoints ctx.endpoints
      { s with
        world := w
        loose := forks.reduceOption ++ s.loose
        forks := forks.reduceOption ++ s.forks }
  | .setEndpoint i n e =>
    s.withContext i fun ctx =>
      let w := e.elim s.world s.world.referTo
      let left := World.slot (World.grow ctx.endpoints (n + 1)) n
      match ctx.setEndpoint n e w with
      | (.done ctx, w') =>
        { s with
          world := w'
          closings := s.closings ++ (left.bind w.dropCloses?).toList }.putContext i ctx
      | (_, w') => { s with world := w' }
  | .grow i length => s.withContext i fun ctx => s.putContext i (ctx.grow length)
  | .closeContext i =>
    s.withContext i fun ctx =>
      { s with
        world := ctx.close s.world
        closings := s.closings ++
          World.closingsOf World.closeEndpoint World.lastHeld? s.world ctx.endpoints }
  | .dropContext i =>
    s.withContext i fun ctx =>
      { s with
        world := ctx.drop s.world
        closings := s.closings ++
          World.closingsOf World.dropEndpoint World.dropCloses? s.world ctx.endpoints }.putContext
        i none

/-- The endpoints that an operation closes. -/
def closed (s : Holding) : Operation → List EndpointId
  | .closeEndpoint id => [id]
  | .closeContext i => (s.context? i).elim [] fun ctx => ctx.endpoints.reduceOption
  | _ => []

/-- The position of the context whose vector an operation changes. -/
def Operation.target? : Operation → Option Nat
  | setEndpoint i _ _ | grow i _ | dropContext i => some i
  | _ => none

/-- The holdings that operations lead to, from nothing. -/
inductive Reached : Holding → Prop
  | start : Reached {}
  | step {s : Holding} {op : Operation} : Reached s → s.Admits op → Reached (s.perform op)

end Holding

end Conduit
