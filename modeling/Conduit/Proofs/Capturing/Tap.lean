import Conduit.Proofs.Ownership.Evaluation
import Conduit.Proofs.Reserve

/-!
# The Tap of a Capture

A capture calls its function in a fork of the context.  At position 1 of the fork stands an endpoint
for the ends of a pipe and a channel that are new, and at every other position a fork of what the
context has there.  Afterwards the endpoints of the fork are closed, and so is the channel, before
what has come through the pipe and the channel is gathered.
-/

namespace Conduit

/-- What a capture has of its own: a pipe with streams for its ends, a channel, an endpoint for the
output of the function, and an endpoint that keeps the pipe open for reading. -/
structure Tap where
  pipe : PipeId
  channel : ChannelId
  reader : StreamId
  writer : StreamId
  output : EndpointId
  input : EndpointId

/-- The endpoint for the output of the function. -/
def Tap.outputEndpoint (tap : Tap) : Endpoint :=
  { stream := some tap.writer, channel := some tap.channel, closesChannel := true }

/-- The channel of a capture before anything is sent on it. -/
def tapLine : Line := { channel := .ofCapacity Eval.captureCapacity, attended := true }

namespace World

variable {r : Reserve} {w w' w'' : World} {c : ChannelId} {pipe : PipeId}

/-! ## What a capture makes -/

/-- A new tap, and the world with it. -/
def newTap (w : World) : Tap × World :=
  let ((pipe, reader, writer), w) := w.newPipe
  let (channel, w) := w.newChannel tapLine
  let (output, w) := w.newEndpoint
    { stream := some writer, channel := some channel, closesChannel := true }
  let (input, w) := w.newEndpoint { stream := some reader }
  ({ pipe, channel, reader, writer, output, input }, w)

/-- The next tap. -/
def nextTap (w : World) : Tap := w.newTap.1

/-- The world with one more tap. -/
def addTap (w : World) : World := w.newTap.2

theorem nextTap_pipe (w : World) : w.nextTap.pipe = w.pipes.size := rfl

/-- The channel of the tap is none of those that were there before. -/
theorem nextTap_channel_not_lt (w : World) : ¬ w.nextTap.channel < w.channels.size :=
  Nat.lt_irrefl _

/-- The pipe of the tap is none of those that were there before. -/
theorem nextTap_pipe_not_lt (w : World) : ¬ w.nextTap.pipe < w.pipes.size := Nat.lt_irrefl _

/-- The stream for the writing end of the tap is none of those that were there before. -/
theorem nextTap_writer_not_lt (w : World) : ¬ w.nextTap.writer < w.streams.size := by
  have hwriter : w.nextTap.writer = w.streams.size + 1 := Table.size_push w.streams _
  rw [hwriter]
  exact Nat.not_succ_lt_self

theorem addTap_channels (w : World) : w.addTap.channels = w.channels.push tapLine := rfl

theorem addTap_pipes (w : World) : w.addTap.pipes = w.pipes.push [] := rfl

theorem addTap_endpoints (w : World) : w.addTap.endpoints =
    (w.endpoints.push w.nextTap.outputEndpoint).push { stream := some w.nextTap.reader } := rfl

theorem addTap_output (w : World) :
    w.addTap.endpoints.get? w.nextTap.output = some w.nextTap.outputEndpoint := by
  rw [addTap_endpoints, Table.get?_push_of_lt]
  · exact Table.get?_push_size w.endpoints _
  · exact Nat.lt_of_lt_of_eq (Nat.lt_succ_self w.endpoints.size) (Table.size_push _ _).symm

theorem addTap_input (w : World) :
    w.addTap.endpoints.get? w.nextTap.input = some { stream := some w.nextTap.reader } :=
  Table.get?_push_size (w.endpoints.push w.nextTap.outputEndpoint) _

theorem addTap_streams (w : World) : w.addTap.streams =
    (((w.streams.push { device := .pipeReader w.nextTap.pipe }).push
      { device := .pipeWriter w.nextTap.pipe }).modify w.nextTap.writer Stream.hold).modify
        w.nextTap.reader Stream.hold := rfl

/-- The ends of the pipe are two streams, each with one holder. -/
theorem addTap_ends (w : World) :
    w.addTap.streams.get? w.nextTap.reader =
        some { device := .pipeReader w.nextTap.pipe, holders := 1 } ∧
      w.addTap.streams.get? w.nextTap.writer =
        some { device := .pipeWriter w.nextTap.pipe, holders := 1 } := by
  have hreader : w.nextTap.reader = w.streams.size := rfl
  have hwriter : w.nextTap.writer = w.streams.size + 1 := Table.size_push w.streams _
  have hne : w.nextTap.writer ≠ w.nextTap.reader := by
    rw [hreader, hwriter]
    exact Nat.succ_ne_self _
  rw [addTap_streams]
  constructor
  · rw [Table.get?_modify, Table.get?_modify, if_pos rfl, if_neg hne, hreader,
      Table.get?_push_of_lt (by simp), Table.get?_push_size]
    rfl
  · have hlast : ∀ s s' : Stream, ((w.streams.push s).push s').get? w.nextTap.writer = some s' := by
      intro s s'
      rw [hwriter, ← Table.size_push w.streams s, Table.get?_push_size]
    rw [Table.get?_modify, Table.get?_modify, if_neg hne.symm, if_pos rfl, hlast]
    rfl

theorem Respects.addTap (w : World) : Respects r w w.addTap :=
  (((Respects.newPipe w).trans (.newChannel _ _)).trans (.newEndpoint _ _)).trans (.newEndpoint _ _)

theorem Steady.addTap (w : World) : Steady w w.addTap := by
  have hpipe : Steady w w.newPipe.2 := Persistent.calm (.newPipe w)
  have hchannel : Steady w.newPipe.2 (w.newPipe.2.newChannel tapLine).2 :=
    Persistent.calm (.newChannel _ rfl)
  obtain ⟨hreader, hwriter⟩ := Eval.newPipe_streams w
  have houtput : Steady (w.newPipe.2.newChannel tapLine).2
      ((w.newPipe.2.newChannel tapLine).2.newEndpoint w.nextTap.outputEndpoint).2 :=
    .newEndpoint _ fun _ sid hsid ↦ Option.some.inj hsid ▸ hwriter
  refine ((hpipe.trans hchannel).trans houtput).trans (.newEndpoint _ fun _ sid hsid ↦ ?_)
  rw [newEndpoint_exists]
  exact Option.some.inj hsid ▸ hreader

end World

namespace Eval

open World (Clear Harmless Outside Owned Respects RespectsStream Steady)

variable {r : Reserve} {ctx : Context} {w : World} {n : Nat} {id : EndpointId}

/-! ## The fork that a capture calls its function in -/

/-- The fork that a capture calls its function in. -/
def tapped (ctx : Context) (w : World) : Context :=
  { ctx with
    label := captureLabel
    endpoints := (World.setEndpoint (w.addTap.forkEndpoints ctx.endpoints).2
      (w.addTap.forkEndpoints ctx.endpoints).1 1 (some w.nextTap.output)).1 }

/-- The state in which a capture calls its function. -/
def tappedWorld (ctx : Context) (w : World) : World :=
  (World.setEndpoint (w.addTap.forkEndpoints ctx.endpoints).2
    (w.addTap.forkEndpoints ctx.endpoints).1 1 (some w.nextTap.output)).2

theorem tappedWorld_respects (ctx : Context) (w : World) :
    Respects r w.addTap (tappedWorld ctx w) :=
  (Respects.forkEndpoints _ _).trans (.setEndpoint _ _ _ _)

theorem tappedWorld_steady (ctx : Context) (w : World) : Steady w.addTap (tappedWorld ctx w) := by
  have howned := Owned.forkEndpoints (.refl w.addTap) ctx.endpoints
  change Steady w.addTap
    ((World.slot (World.grow (w.addTap.forkEndpoints ctx.endpoints).1 2) 1).elim
      (w.addTap.forkEndpoints ctx.endpoints).2 _)
  rw [World.slot_grow]
  rcases hslot : World.slot (w.addTap.forkEndpoints ctx.endpoints).1 1 with _ | id
  · exact howned.steady
  · exact (howned.dropEndpoint (World.mem_of_slot hslot)).steady

theorem tapped_slot_output (ctx : Context) (w : World) :
    World.slot (tapped ctx w).endpoints 1 = some w.nextTap.output := by
  rw [tapped, World.slot_setEndpoint, if_pos rfl]

theorem tappedWorld_output (ctx : Context) (w : World) :
    (tappedWorld ctx w).endpoints.get? w.nextTap.output = some w.nextTap.outputEndpoint :=
  (tappedWorld_steady ctx w).get?_endpoints w.addTap_output

/-- The endpoints of the context exist, and so do the channels, streams and pipes behind them. -/
structure Grounded (ctx : Context) (w : World) : Prop where
  endpoints : ∀ id, some id ∈ ctx.endpoints → id < w.endpoints.size
  channels : ∀ n c, ctx.channel? w n = some c → c < w.channels.size
  streams : ∀ n sid, ctx.stream? w n = some sid → ∃ s, w.streams.get? sid = some s ∧
    ∀ pipe, s.device = .pipeReader pipe → pipe < w.pipes.size

/-- At every position but 1 stands a fork of what the context has there. -/
theorem tapped_endpoint? (hctx : Grounded ctx w) (hn : n ≠ 1) :
    (tapped ctx w).endpoint? (tappedWorld ctx w) n = (ctx.endpoint? w n).map Endpoint.forked := by
  have hkept : ∀ id, some id ∈ ctx.endpoints → w.addTap.endpoint id = w.endpoint id := by
    intro id hid
    obtain ⟨e, he⟩ := Table.exists_get?_of_lt (hctx.endpoints id hid)
    rw [World.endpoint_eq he, World.endpoint_eq ((Steady.addTap w).get?_endpoints he)]
  obtain ⟨-, hapart, -, hslots⟩ := World.forkEndpoints_slots (w := w.addTap) fun id hid ↦
    Nat.lt_of_lt_of_le (hctx.endpoints id hid) (Steady.addTap w).size_le
  have hforks : (tapped ctx w).endpoint? (tappedWorld ctx w) n =
      (World.slot (w.addTap.forkEndpoints ctx.endpoints).1 n).map
        (w.addTap.forkEndpoints ctx.endpoints).2.endpoint :=
    World.map_setEndpoint_of_ne _ hapart hn _
  rw [hforks, hslots n, Context.endpoint?, Option.map_map]
  rcases hslot : World.slot ctx.endpoints n with _ | id
  · rfl
  · rw [Option.map_some, Option.map_some, Function.comp_apply,
      hkept id (World.mem_of_slot hslot)]

/-- The endpoints of the fork exist. -/
theorem tapped_exists (hid : World.slot (tapped ctx w).endpoints n = some id) :
    (tappedWorld ctx w).endpoints.get? id = some ((tappedWorld ctx w).endpoint id) := by
  have hexists : ∃ e, (tappedWorld ctx w).endpoints.get? id = some e := by
    rw [tapped, World.slot_setEndpoint] at hid
    split at hid
    · exact ⟨_, Option.some.inj hid ▸ tappedWorld_output ctx w⟩
    · have hfork :=
        (Owned.forkEndpoints (.refl w.addTap) ctx.endpoints).fresh id (World.mem_of_slot hid)
      obtain ⟨-, e, he, -⟩ := hfork.after (.setEndpoint _ _ 1 (some w.nextTap.output))
      exact ⟨e, he⟩
  obtain ⟨e, he⟩ := hexists
  rw [he, World.endpoint_eq he]

/-! ## The course of a capture -/

/-- The call of the function under capture. -/
def tappedCall (go : Runner) (ctx : Context) (f : Fn) (arguments : List Value) (w : World) :
    Outcome Unit × World :=
  Act.apart (go (.call (tapped ctx w) f arguments)) (tappedWorld ctx w)

/-- The world after a capture has closed what it has called its function with. -/
def untapped (ctx : Context) (w w' : World) : World :=
  (((tapped ctx w).finish w').closeChannel w.nextTap.channel).dropEndpoint w.nextTap.input

/-- A capture makes its tap, calls the function, closes what it has called the function with, and
gathers what has come if the call has ended with success. -/
theorem captureOutput_eq (go : Runner) (ctx : Context) (f : Fn) (arguments : List Value)
    (w : World) : captureOutput go ctx f arguments w =
      match tappedCall go ctx f arguments w with
      | (.done (), w') => gather w.nextTap.channel w.nextTap.pipe (untapped ctx w w')
      | (.raised e, w') => (.raised e, untapped ctx w w')
      | (.foreign what, w') => (.foreign what, untapped ctx w w')
      | (.halted reason, w') => (.halted reason, untapped ctx w w') := by
  have hcapture : captureOutput go ctx f arguments w =
      ((Act.apart (go (.call (tapped ctx w) f arguments))).ensuring (untapped ctx w) >>=
        fun _ ↦ gather w.nextTap.channel w.nextTap.pipe) (tappedWorld ctx w) := rfl
  rw [hcapture, Act.bind_apply]
  unfold tappedCall Act.ensuring
  rcases Act.apart (go (.call (tapped ctx w) f arguments)) (tappedWorld ctx w) with
    ⟨_ | _ | _ | _, w'⟩ <;> rfl

end Eval

end Conduit
