import Conduit.Proofs.Assignment
import Conduit.Proofs.Capturing.Isolation
import Conduit.Proofs.Capturing.Progress
import Conduit.Proofs.Holding.References

/-!
# Captured Output

Whatever a function does that is called under capture, what it sends and writes to its output is
accepted and stays there, in order, until it is gathered.  The endpoints of the caller stay as they
are, no channel that was there is closed or gets a value, and what only the output of the caller
gives access to is not touched.  If the call ends with success, the capture yields what has been
gathered; otherwise the output that was there before is left, and a script error is blamed on the
span of the context unless it is blamed on another one.

A capture comes to what one of the runs of its threads comes to, and every run gathers the values
sent and the lines of the bytes written.
-/

namespace Conduit

namespace World

variable {w w' w'' : World}

/-! ## Changes that move no data -/

/-- No value has been queued or taken, no byte has been written or read, and the span under
evaluation is the same. -/
structure Idle (w w' : World) : Prop where
  queues : Table.Kept (fun line ↦ line.channel.queue) w.channels w'.channels
  pipes : w'.pipes = w.pipes
  here : w'.here = w.here

namespace Idle

theorem of_tables (hchannels : w'.channels = w.channels) (hpipes : w'.pipes = w.pipes)
    (hhere : w'.here = w.here) : Idle w w' :=
  ⟨hchannels ▸ .refl _, hpipes, hhere⟩

protected theorem refl (w : World) : Idle w w := of_tables rfl rfl rfl

protected theorem trans (h : Idle w w') (h' : Idle w' w'') : Idle w w'' :=
  ⟨h.queues.trans h'.queues, h'.pipes.trans h.pipes, h'.here.trans h.here⟩

theorem releaseStream (w : World) (sid : Option StreamId) : Idle w (w.releaseStream sid) := by
  cases sid <;> exact of_tables rfl rfl rfl

theorem closeChannel (w : World) (c : ChannelId) : Idle w (w.closeChannel c) :=
  ⟨.modify fun _ _ ↦ rfl, rfl, rfl⟩

theorem newEndpoint (w : World) (e : Endpoint) : Idle w (w.newEndpoint e).2 := by
  unfold World.newEndpoint
  cases e.stream <;> exact of_tables rfl rfl rfl

theorem closeEndpoint (w : World) (id : EndpointId) : Idle w (w.closeEndpoint id) := by
  have hrelease := releaseStream w (w.endpoint id).stream
  have hclear : ∀ w' : World, Idle w' { w' with endpoints := w'.endpoints.modify id emptied } :=
    fun _ ↦ of_tables rfl rfl rfl
  unfold World.closeEndpoint
  dsimp only
  split
  · exact (hrelease.trans (closeChannel _ _)).trans (hclear _)
  · exact hrelease.trans (hclear _)

theorem dropEndpoint (w : World) (id : EndpointId) : Idle w (w.dropEndpoint id) := by
  unfold World.dropEndpoint
  dsimp only
  split
  · exact (releaseStream w _).trans (of_tables rfl rfl rfl)
  · exact of_tables rfl rfl rfl

theorem moves : Moves Idle where
  refl := .refl
  trans := .trans
  newChannel _ _ := ⟨.push _ _, rfl, rfl⟩
  newStream _ _ _ := of_tables rfl rfl rfl
  newEndpoint := newEndpoint
  referTo _ _ := of_tables rfl rfl rfl
  closeEndpoint := closeEndpoint
  dropEndpoint := dropEndpoint

theorem setEndpoint (w : World) (endpoints : List (Option EndpointId)) (n : Nat)
    (e : Option EndpointId) : Idle w (w.setEndpoint endpoints n e).2 := by
  unfold World.setEndpoint
  dsimp only
  cases slot (grow endpoints (n + 1)) n with
  | none => exact .refl w
  | some id => exact dropEndpoint w id

end Idle

/-! ## What is queued and what is piped -/

/-- The values that are queued on a channel. -/
def valuesOn (w : World) (c : ChannelId) : List Value :=
  ((w.channels.get? c).map fun line ↦ line.channel.queue).getD []

/-- The bytes that are in a pipe. -/
def bytesIn (w : World) (pipe : PipeId) : Bytes := (w.pipes.get? pipe).getD []

theorem Idle.valuesOn {c : ChannelId} (h : Idle w w') (hc : c < w.channels.size) :
    w'.valuesOn c = w.valuesOn c := by
  obtain ⟨line, hline⟩ := Table.exists_get?_of_lt hc
  obtain ⟨line', hline', hqueue⟩ := h.queues c line hline
  rw [World.valuesOn, World.valuesOn, hline, hline']
  exact hqueue

theorem Idle.bytesIn (h : Idle w w') (pipe : PipeId) : w'.bytesIn pipe = w.bytesIn pipe := by
  rw [World.bytesIn, World.bytesIn, h.pipes]

/-- What is queued stays in front where values are not to be taken. -/
theorem Respects.valuesOn {r : Reserve} {c : ChannelId} (h : Respects r w w') (hc : r.receiving c) :
    w.valuesOn c <+: w'.valuesOn c := by
  rw [World.valuesOn, World.valuesOn]
  rcases hline : w.channels.get? c with _ | line
  · exact List.nil_prefix
  · obtain ⟨line', hline', hextends, -⟩ := h.channels c line hline
    rw [hline']
    exact (hextends hc).queue

/-- What is piped stays in front where bytes are not to be taken out. -/
theorem Respects.bytesIn {r : Reserve} {pipe : PipeId} (h : Respects r w w')
    (hpipe : r.reading pipe) : w.bytesIn pipe <+: w'.bytesIn pipe := by
  rw [World.bytesIn, World.bytesIn]
  rcases hbytes : w.pipes.get? pipe with _ | bytes
  · exact List.nil_prefix
  · obtain ⟨bytes', hbytes', hfront, -⟩ := h.pipes pipe bytes hbytes
    rw [hbytes']
    exact hfront hpipe

end World

namespace Eval

open World (Clear Counted Idle Open Respects Steady)

variable {go : Runner} {setup : Setup} {fuel : Nat} {ctx : Context} {f : Fn}
  {arguments : List Value} {w w' w'' : World}

/-! ## The variable for the output -/

/-- What the function has sent and written to the tap, as one list. -/
def tappedOutput (w w' : World) : List Value :=
  w'.valuesOn w.nextTap.channel ++ lineValues (w'.bytesIn w.nextTap.pipe)

/-- A capture with a variable for the output: how it ends, with the error if there is one, and what
is in the variable afterwards if there was something before. -/
def captureInto (go : Runner) (ctx : Context) (f : Fn) (arguments out : List Value) (w : World) :
    (Outcome (Option Error) × List Value) × World :=
  match captureOutput go ctx f arguments w with
  | (.done values, w) => ((.done none, values), w)
  | (.raised e, w) => ((.done (some (e.orSpan w.here)), out), w)
  | (.foreign what, w) => ((.foreign what, out), w)
  | (.halted reason, w) => ((.halted reason, out), w)

/-- The builtin `capture` writes what is in the variable, which is `unset` before, and how the
capture has ended. -/
theorem captureFunction_eq (go : Runner) (ctx : Context) (arguments : List Value) :
    captureFunction go ctx arguments = functionArgument arguments >>= fun (f, rest) w ↦
      match captureInto go ctx f rest unset w with
      | ((.done error, out), w) =>
        (putValue ctx (.list out) >>= fun _ ↦ putValue ctx (outcomeValue error)) w
      | ((.raised e, _), w) => (.raised e, w)
      | ((.foreign what, _), w) => (.foreign what, w)
      | ((.halted reason, _), w) => (.halted reason, w) := by
  unfold captureFunction
  congr
  funext ⟨f, rest⟩ w
  dsimp only
  rw [Act.bind_apply]
  unfold captureProtected captureInto
  rcases captureOutput go ctx f rest w with ⟨_ | _ | _ | _, w'⟩ <;> rfl

/-- How a capture ends and what is in the variable then, given how the call of the function ends. -/
def captureEnding (here : Span) (out output : List Value) :
    Outcome Unit → Outcome (Option Error) × List Value
  | .done () => (.done none, output)
  | .raised e => (.done (some ⟨e.kind, e.message, some (e.span.getD here)⟩), out)
  | .foreign what => (.foreign what, out)
  | .halted reason => (.halted reason, out)

theorem tappedWorld_idle (ctx : Context) (w : World) : Idle w.addTap (tappedWorld ctx w) :=
  (Idle.moves.forkEndpoints _ _).trans (.setEndpoint _ _ _ _)

theorem tappedWorld_channel (ctx : Context) (w : World) :
    (tappedWorld ctx w).channels.get? w.nextTap.channel = some tapLine := by
  rw [tappedWorld, World.setEndpoint_channels, World.forkEndpoints_channels, World.addTap_channels]
  exact Table.get?_push_size _ _

/-- While the function is called nothing has come through the tap yet. -/
theorem tappedWorld_empty (ctx : Context) (w : World) :
    (tappedWorld ctx w).valuesOn w.nextTap.channel = [] ∧
      (tappedWorld ctx w).bytesIn w.nextTap.pipe = [] := by
  constructor
  · rw [World.valuesOn, tappedWorld_channel]
    rfl
  · rw [(tappedWorld_idle ctx w).bytesIn, World.bytesIn, World.addTap_pipes, World.nextTap_pipe,
      Table.get?_push_size]
    rfl

/-! ## While the function is called -/

/-- A state that may be reached while the function is called: what has come through the tap is still
there, and what only the output of the caller gives access to has not been touched; and no endpoint
or channel of before has been closed. -/
structure Meanwhile (ctx : Context) (w w' : World) : Prop where
  respects : Respects (tapReserve ctx w) (tappedWorld ctx w) w'
  steady : Steady (tappedWorld ctx w) w'

theorem tappedCall_meanwhile (setup : Setup) (fuel : Nat) (hctx : Grounded ctx w) (f : Fn)
    (arguments : List Value) :
    Meanwhile ctx w (tappedCall (run setup fuel) ctx f arguments w).2 where
  respects := by
    have hcall : (Act.apart (run setup fuel (.call (tapped ctx w) f arguments))).Keeps
        (World.RespectsFrom (tapReserve ctx w) (tapped ctx w).endpoints) :=
      .apart Mobile.move ((respects_run _ setup fuel (tapped ctx w)).call f arguments)
    exact hcall (tappedWorld ctx w) (tapped_clear hctx)
  steady := by
    have hcall : (Act.apart (run setup fuel (.call (tapped ctx w) f arguments))).Keeps Steady :=
      .apart Mobile.move ((steady_run setup fuel).call _ f arguments)
    exact hcall (tappedWorld ctx w)

namespace Meanwhile

protected theorem after (h : Meanwhile ctx w w') (hrespects : Respects (tapReserve ctx w) w' w'')
    (hsteady : Steady w' w'') : Meanwhile ctx w w'' :=
  ⟨h.respects.trans hrespects, h.steady.trans hsteady⟩

/-- The channel of the tap is still there. -/
theorem channel_lt (h : Meanwhile ctx w w') : w.nextTap.channel < w'.channels.size :=
  Nat.lt_of_lt_of_le (Table.lt_size_of_get? (tappedWorld_channel ctx w)) h.respects.channelCount

/-- Nothing is lost of what has come through the tap. -/
theorem grows (h : Respects (tapReserve ctx w) w' w'') :
    w'.valuesOn w.nextTap.channel <+: w''.valuesOn w.nextTap.channel ∧
      w'.bytesIn w.nextTap.pipe <+: w''.bytesIn w.nextTap.pipe :=
  ⟨h.valuesOn (.inl rfl), h.bytesIn (.inl rfl)⟩

/-- A value that is sent through the tap is accepted, and comes last. -/
theorem sends (h : Meanwhile ctx w w') (v : Value) :
    ∃ w'', sendTo w.nextTap.channel v w' = (.done true, w'') ∧ Meanwhile ctx w w'' ∧
      w''.valuesOn w.nextTap.channel = w'.valuesOn w.nextTap.channel ++ [v] ∧
      w''.bytesIn w.nextTap.pipe = w'.bytesIn w.nextTap.pipe := by
  obtain ⟨line, hline, hextends, -⟩ := h.respects.channels _ _ (tappedWorld_channel ctx w)
  obtain ⟨line', hline', hclosed⟩ := h.steady.channels _ _ (tappedWorld_channel ctx w)
  obtain rfl : line' = line := Option.some.inj (hline'.symm.trans hline)
  have hsend : sendTo w.nextTap.channel v w' =
      (.done true, w'.modifyChannel w.nextTap.channel fun c ↦ c.enqueue v) := by
    unfold sendTo
    rw [hline]
    simp [hclosed, (hextends (.inl rfl)).attended, tapLine, Channel.ofCapacity]
  have hsteady : Steady w' (w'.modifyChannel w.nextTap.channel fun c ↦ c.enqueue v) :=
    Persistent.calm (.enqueue w' _ fun _ _ ↦ trivial)
  refine ⟨_, hsend, h.after (.enqueue w' w.nextTap_channel_not_lt v) hsteady, ?_, rfl⟩
  rw [World.valuesOn, World.valuesOn, hline]
  have hsent : (w'.modifyChannel w.nextTap.channel fun c ↦ c.enqueue v).channels.get?
      w.nextTap.channel = some { line' with channel := line'.channel.enqueue v } := by
    rw [World.modifyChannel, Table.get?_modify, if_pos rfl, hline]
    rfl
  rw [hsent]
  rfl

/-- The ends of the pipe are still what they were. -/
theorem exists_end (h : Meanwhile ctx w w') {sid : StreamId} {s : Stream}
    (hs : w.addTap.streams.get? sid = some s)
    (hpipe : ∀ node offset access, s.device ≠ .file node offset access) :
    ∃ s', w'.streams.get? sid = some s' ∧ s'.device = s.device := by
  obtain ⟨s', hs', hrewound⟩ := ((tappedWorld_respects ctx w).trans h.respects).streams sid s hs
  exact ⟨s', hs', Device.eq_of_rewound hrewound hpipe⟩

/-- The pipe has a reader, since the capture keeps an endpoint for its reading end. -/
theorem hasReader (h : Meanwhile ctx w w') (hw : w.Counted) : w'.hasReader w.nextTap.pipe := by
  obtain ⟨hreader, -⟩ := w.addTap_ends
  obtain ⟨s, hs, hdevice⟩ := h.exists_end hreader nofun
  obtain ⟨s', hs', hopen⟩ : w'.Open w.nextTap.reader :=
    Open.steady ⟨_, hreader, rfl⟩ ((Steady.addTap w).counted hw)
      ((tappedWorld_steady ctx w).trans h.steady) w.addTap_input rfl
  obtain rfl : s' = s := Option.some.inj (hs'.symm.trans hs)
  exact List.any_eq_true.mpr ⟨s', List.mem_of_getElem? hs, by simp [hdevice, hopen]⟩

/-- Bytes that are written through the tap go into the pipe, and come last. -/
theorem writes (h : Meanwhile ctx w w') (hw : w.Counted) (bytes : Bytes) :
    ∃ w'', w'.write w.nextTap.writer bytes = .ok w'' ∧ Meanwhile ctx w w'' ∧
      w''.valuesOn w.nextTap.channel = w'.valuesOn w.nextTap.channel ∧
      w''.bytesIn w.nextTap.pipe = w'.bytesIn w.nextTap.pipe ++ bytes := by
  obtain ⟨s, hs, hdevice⟩ := h.exists_end w.addTap_ends.2 nofun
  have hwrite : w'.write w.nextTap.writer bytes =
      .ok { w' with pipes := w'.pipes.modify w.nextTap.pipe (· ++ bytes) } := by
    unfold World.write
    rw [hs, Option.map_some, hdevice]
    exact if_pos (h.hasReader hw)
  have hrespects : Respects (tapReserve ctx w) w'
      { w' with pipes := w'.pipes.modify w.nextTap.pipe (· ++ bytes) } :=
    .modifyPipe w' fun _ ↦
      ⟨fun _ ↦ List.prefix_append _ _, fun hw ↦ absurd hw.1 w.nextTap_pipe_not_lt⟩
  refine ⟨_, hwrite, h.after hrespects (.of_tables rfl rfl rfl), rfl, ?_⟩
  have hpipe : w.nextTap.pipe < w'.pipes.size :=
    Nat.lt_of_lt_of_le (by simp [World.addTap_pipes, World.nextTap_pipe])
      ((tappedWorld_respects ctx w).trans h.respects).pipeCount
  obtain ⟨piped, hpiped⟩ := Table.exists_get?_of_lt hpipe
  rw [World.bytesIn, World.bytesIn, Table.get?_modify, if_pos rfl, hpiped]
  rfl

end Meanwhile

/-! ## How a capture ends -/

theorem finish_idle (ctx : Context) (w : World) : Idle w (ctx.finish w) := by
  have hclosed : Idle w (w.closeEndpoints ctx.endpoints) :=
    Idle.moves.foldl Idle.closeEndpoint _ _
  exact hclosed.trans (Idle.moves.foldl Idle.dropEndpoint _ _)

theorem untapped_idle (ctx : Context) (w w' : World) : Idle w' (untapped ctx w w') :=
  ((finish_idle _ _).trans (.closeChannel _ _)).trans (.dropEndpoint _ _)

theorem tappedCall_here (go : Runner) (ctx : Context) (f : Fn) (arguments : List Value)
    (w : World) : (tappedCall go ctx f arguments w).2.here = w.here :=
  (tappedWorld_idle ctx w).here

/-- A capture yields what has come through the tap by the end of the call. -/
theorem captureOutput_fst (go : Runner) (f : Fn) (arguments : List Value)
    (h : Meanwhile ctx w (tappedCall go ctx f arguments w).2) :
    (captureOutput go ctx f arguments w).1 =
      captureResult (tappedOutput w (tappedCall go ctx f arguments w).2)
        (tappedCall go ctx f arguments w).1 := by
  have hsize := h.channel_lt
  rw [captureOutput_eq]
  generalize tappedCall go ctx f arguments w = ended at hsize ⊢
  obtain ⟨how, w'⟩ := ended
  have hidle := untapped_idle ctx w w'
  cases how with
  | done =>
    change Outcome.done (tappedOutput w (untapped ctx w w')) = .done (tappedOutput w w')
    rw [tappedOutput, hidle.valuesOn hsize, hidle.bytesIn, tappedOutput]
  | raised | foreign | halted => rfl

/-- A capture with a variable either writes what has come through the tap, or leaves the variable as
it was. -/
theorem captureInto_eq (go : Runner) (f : Fn) (arguments out : List Value)
    (h : Meanwhile ctx w (tappedCall go ctx f arguments w).2) :
    captureInto go ctx f arguments out w =
      (captureEnding w.here out (tappedOutput w (tappedCall go ctx f arguments w).2)
          (tappedCall go ctx f arguments w).1,
        (captureOutput go ctx f arguments w).2) := by
  have hfst := captureOutput_fst go f arguments h
  have hhere : ∀ e, (captureOutput go ctx f arguments w).1 = .raised e →
      (captureOutput go ctx f arguments w).2.here = w.here := by
    have hcall := tappedCall_here go ctx f arguments w
    intro e he
    rw [captureOutput_eq] at he ⊢
    generalize tappedCall go ctx f arguments w = ended at hcall he ⊢
    obtain ⟨_ | _ | _ | _, w'⟩ := ended
    · cases he
    · exact (untapped_idle ctx w w').here.trans hcall
    · cases he
    · cases he
  unfold captureInto
  generalize captureOutput go ctx f arguments w = captured at hfst hhere ⊢
  generalize tappedCall go ctx f arguments w = ended at hfst ⊢
  obtain ⟨outcome, w'⟩ := captured
  obtain ⟨how, w₂⟩ := ended
  cases how with
  | done =>
    obtain rfl : outcome = .done (tappedOutput w w₂) := hfst
    rfl
  | raised e =>
    obtain rfl : outcome = .raised e := hfst
    dsimp only
    rw [hhere e rfl, Error.orSpan_eq]
    rfl
  | foreign what =>
    obtain rfl : outcome = .foreign what := hfst
    rfl
  | halted reason =>
    obtain rfl : outcome = .halted reason := hfst
    rfl

/-! ## What a capture leaves behind -/

/-- The channel of the tap is closed in the end. -/
theorem captureOutput_closed (go : Runner) (f : Fn) (arguments : List Value)
    (h : Meanwhile ctx w (tappedCall go ctx f arguments w).2) :
    ∃ line, (captureOutput go ctx f arguments w).2.channels.get? w.nextTap.channel = some line ∧
      line.channel.closed = true := by
  have hsize := h.channel_lt
  rw [captureOutput_eq]
  generalize tappedCall go ctx f arguments w = ended at hsize ⊢
  obtain ⟨how, w'⟩ := ended
  have huntapped : ∃ line, (untapped ctx w w').channels.get? w.nextTap.channel = some line ∧
      line.channel.closed = true := by
    have hfinished : w.nextTap.channel < ((tapped ctx w).finish w').channels.size :=
      Nat.lt_of_lt_of_le hsize (finish_idle (tapped ctx w) w').queues.size_le
    obtain ⟨line, hline⟩ := Table.exists_get?_of_lt hfinished
    refine ⟨{ line with channel := line.channel.close }, ?_, rfl⟩
    rw [untapped, World.dropEndpoint_channels, World.closeChannel, World.modifyChannel,
      Table.get?_modify, if_pos rfl, hline]
    rfl
  cases how with
  | done =>
    obtain ⟨line, hline, hclosed⟩ := huntapped
    refine ⟨{ line with channel := line.channel.drain.1 }, ?_, hclosed⟩
    exact (Table.get?_modify _ _ _ _).trans (by rw [if_pos rfl, hline]; rfl)
  | raised | foreign | halted => exact huntapped

/-! ## Captures -/

/-- What holds of the tap of a capture.  The function is called in a context whose output is the
tap, which is empty, and whose other positions have what the caller has there.  From then on
whatever is sent or written there is accepted and comes last, and no call loses what has come before
if it is made in a context that does not take from the tap, as the one of the function. -/
structure TapSound (go : Runner) (ctx : Context) (w : World) : Prop where
  output : (tapped ctx w).endpoint? (tappedWorld ctx w) 1 = some w.nextTap.outputEndpoint
  others : ∀ n, n ≠ 1 → (tapped ctx w).endpoint? (tappedWorld ctx w) n =
    (ctx.endpoint? w n).map Endpoint.forked
  clear : Clear (tapReserve ctx w) (tapped ctx w).endpoints (tappedWorld ctx w)
  empty : (tappedWorld ctx w).valuesOn w.nextTap.channel = [] ∧
    (tappedWorld ctx w).bytesIn w.nextTap.pipe = []
  start : Meanwhile ctx w (tappedWorld ctx w)
  sends : ∀ w', Meanwhile ctx w w' → ∀ v, ∃ w'', sendTo w.nextTap.channel v w' = (.done true, w'') ∧
    Meanwhile ctx w w'' ∧
      w''.valuesOn w.nextTap.channel = w'.valuesOn w.nextTap.channel ++ [v] ∧
      w''.bytesIn w.nextTap.pipe = w'.bytesIn w.nextTap.pipe
  writes : ∀ w', Meanwhile ctx w w' → ∀ bytes, ∃ w'', w'.write w.nextTap.writer bytes = .ok w'' ∧
    Meanwhile ctx w w'' ∧
      w''.valuesOn w.nextTap.channel = w'.valuesOn w.nextTap.channel ∧
      w''.bytesIn w.nextTap.pipe = w'.bytesIn w.nextTap.pipe ++ bytes
  calls : ∀ w', Meanwhile ctx w w' → ∀ (other : Context) g values outcome w'',
    Clear (tapReserve ctx w) other.endpoints w' →
    go (.call other g values) w' = (outcome, w'') → Meanwhile ctx w w'' ∧
      w'.valuesOn w.nextTap.channel <+: w''.valuesOn w.nextTap.channel ∧
      w'.bytesIn w.nextTap.pipe <+: w''.bytesIn w.nextTap.pipe

/-- What holds of a capture of a function that ends in some way and leads from `w` to `w₁`, where
the capture comes to a result and leads from `w` to `w'`.  It yields the values that have been sent
and the lines that have been written, only if the function ends with success; otherwise the variable
is left as it was.  Every run of the threads comes to the same.  The endpoints of before are as they
were.  No channel of before has been closed or has got a value, and none has lost one unless the
caller receives from it.  Nothing has happened to pipes, streams and files without a path as far as
only the output of the caller gives access to them.  The channel of the tap has been closed. -/
structure CaptureSound (go : Runner) (ctx : Context) (f : Fn) (arguments : List Value) (w : World)
    (how : Outcome Unit) (w₁ : World) (result : Outcome (List Value)) (w' : World) : Prop where
  called : Meanwhile ctx w w₁
  returned : ∀ out, captureInto go ctx f arguments out w =
    (captureEnding w.here out (tappedOutput w w₁) how, w')
  onlyValues : w₁.bytesIn w.nextTap.pipe = [] → tappedOutput w w₁ = w₁.valuesOn w.nextTap.channel
  onlyLines : w₁.valuesOn w.nextTap.channel = [] →
    ∀ parts last, (∀ part ∈ parts, Bytes.newline ∉ part) → Bytes.newline ∉ last →
      w₁.bytesIn w.nextTap.pipe = parts.flatMap (· ++ [Bytes.newline]) ++ last →
        tappedOutput w w₁ = (parts ++ if last = [] then [] else [last]).map .text
  run : ∀ room, 0 < room → ∃ s : Capturing, s.Ending room how (w₁.valuesOn w.nextTap.channel)
    (w₁.bytesIn w.nextTap.pipe) ∧ s.result how = result
  runs : ∀ room, 0 < room → ∀ s : Capturing, s.Ending room how (w₁.valuesOn w.nextTap.channel)
    (w₁.bytesIn w.nextTap.pipe) → s.sent = [] ∨ s.written = [] → s.result how = result
  steady : Steady w w'
  endpoints : ∀ n, ctx.endpoint? w' n = ctx.endpoint? w n
  channels : ∀ c line, w.channels.get? c = some line → ∃ line', w'.channels.get? c = some line' ∧
    line'.channel.closed = line.channel.closed ∧ line'.channel.queue <:+ line.channel.queue ∧
      (ctx.channel? w 0 ≠ some c → line'.channel.queue = line.channel.queue)
  pipes : ∀ pipe bytes, w.pipes.get? pipe = some bytes → ∃ bytes',
    w'.pipes.get? pipe = some bytes' ∧
      (¬ Elsewhere ctx w (.pipeWriter pipe) → bytes' <:+ bytes) ∧
        (¬ Elsewhere ctx w (.pipeReader pipe) → bytes <+: bytes')
  devices : ∀ sid s, w.streams.get? sid = some s → (∀ n, n ≠ 1 → ctx.stream? w n ≠ some sid) →
    ∃ s', w'.streams.get? sid = some s' ∧ s'.device = s.device
  files : ∀ node, w.files.Anonymous node →
    (∀ offset access, ¬ Elsewhere ctx w (.file node offset access)) →
      w'.files.node? node = w.files.node? node
  closed : ∃ line, w'.channels.get? w.nextTap.channel = some line ∧ line.channel.closed = true

theorem tapSound (setup : Setup) (fuel : Nat) (hw : w.Counted) (hctx : Grounded ctx w) :
    TapSound (run setup fuel) ctx w where
  output := by
    rw [Context.endpoint?, tapped_slot_output, Option.map_some,
      World.endpoint_eq (tappedWorld_output ctx w)]
  others _ hn := tapped_endpoint? hctx hn
  clear := tapped_clear hctx
  empty := tappedWorld_empty ctx w
  start := ⟨.refl _, .refl _⟩
  sends _ h := h.sends
  writes _ h := h.writes hw
  calls w' h other g values outcome w'' hclear hcall := by
    obtain rfl : (run setup fuel (.call other g values) w').2 = w'' := congrArg Prod.snd hcall
    have hrespects : Respects (tapReserve ctx w) w' (run setup fuel (.call other g values) w').2 :=
      (respects_run _ setup fuel other).call g values w' hclear
    exact ⟨h.after hrespects ((steady_run setup fuel).call other g values w'),
      Meanwhile.grows hrespects⟩

/-- The threads come to the result of the capture if nothing but values has been sent, or nothing
but bytes has been written. -/
theorem Capturing.Ending.result_eq {room : Nat} {how : Outcome Unit} {values : List Value}
    {bytes : Bytes} {s : Capturing} (h : s.Ending room how values bytes) (hroom : 0 < room)
    (hone : s.sent = [] ∨ s.written = []) :
    s.result how = captureResult (values ++ lineValues bytes) how := by
  have hsound := h.reached.sound hroom
  have hleft : s.phase.hasLeft = true := by rw [h.left]; rfl
  have hgathered : s.gathered.map Gathered.toValue = values ++ lineValues bytes := by
    rcases hone with hsent | hwritten
    · have hlines := Outcome.done.inj (hsound.onlyLines hleft hsent)
      rw [← h.sent, hsent, ← h.written, List.nil_append, hlines]
    · have hvalues := Outcome.done.inj (hsound.onlyValues hleft hwritten)
      rw [← h.sent, ← h.written, hwritten, hvalues]
      exact (List.append_nil _).symm
  exact congrArg (captureResult · how) hgathered

/-- One of the runs of the threads gathers all values before all lines. -/
theorem Capturing.exists_ending {room : Nat} (hroom : 0 < room) (how : Outcome Unit)
    (values : List Value) (bytes : Bytes) :
    ∃ s : Capturing, s.Ending room how values bytes ∧
      s.result how = captureResult (values ++ lineValues bytes) how := by
  obtain ⟨s, hreached, hleft, hsent, hwritten, hgathered⟩ := exists_left hroom values bytes how
  refine ⟨s, ⟨hreached, hleft, hsent, hwritten⟩, congrArg (captureResult · how) ?_⟩
  simp [hgathered, lineValues, Gathered.toValue, Function.comp_def]

theorem captureSound (setup : Setup) (fuel : Nat) (hctx : Grounded ctx w) (f : Fn)
    (arguments : List Value) :
    CaptureSound (run setup fuel) ctx f arguments w
      (tappedCall (run setup fuel) ctx f arguments w).1
      (tappedCall (run setup fuel) ctx f arguments w).2
      (captureOutput (run setup fuel) ctx f arguments w).1
      (captureOutput (run setup fuel) ctx f arguments w).2 := by
  have hcalled := tappedCall_meanwhile setup fuel hctx f arguments
  have hresult := captureOutput_fst _ f arguments hcalled
  have hsteady := steady_captureOutput (steady_run setup fuel) ctx f arguments w
  have hrespects : Respects (outputReserve ctx w) w
      (captureOutput (run setup fuel) ctx f arguments w).2 :=
    captureOutput_respects (outputReserve_within ctx w) (tapped_clear hctx) hcalled.respects
      w.nextTap_channel_not_lt (fun hr ↦ w.nextTap_channel_not_lt hr.1)
      fun hr ↦ w.nextTap_pipe_not_lt hr.1
  rw [hresult]
  exact
    { called := hcalled
      returned := fun out ↦ captureInto_eq _ f arguments out hcalled
      onlyValues := fun hbytes ↦ by
        rw [tappedOutput, hbytes]
        exact List.append_nil _
      onlyLines := fun hvalues parts last hparts hlast hbytes ↦ by
        rw [tappedOutput, hvalues, hbytes, List.nil_append, lineValues,
          Bytes.lines_flatMap hparts hlast]
      run := fun room hroom ↦ Capturing.exists_ending hroom _ _ _
      runs := fun room hroom s hs hone ↦ hs.result_eq hroom hone
      steady := hsteady
      endpoints := fun n ↦ hsteady.endpoint? hctx.endpoints n
      channels := fun c line hline ↦ by
        have hlt : c < w.channels.size := Table.lt_size_of_get? hline
        obtain ⟨line', hline', hextends, hdrains⟩ := hrespects.channels c line hline
        have hdrained := hdrains hlt
        exact ⟨line', hline', hdrained.closed, hdrained.queue, fun hunread ↦
          hdrained.queue.eq_of_length_le (hextends ⟨hlt, hunread⟩).queue.length_le⟩
      pipes := fun pipe bytes hbytes ↦ by
        have hlt : pipe < w.pipes.size := Table.lt_size_of_get? hbytes
        obtain ⟨bytes', hbytes', hfront, hback⟩ := hrespects.pipes pipe bytes hbytes
        exact ⟨bytes', hbytes', fun hw ↦ hback ⟨hlt, hw⟩, fun hr ↦ hfront ⟨hlt, hr⟩⟩
      devices := fun sid s hs helsewhere ↦
        hrespects.offsets sid s ⟨Table.lt_size_of_get? hs, helsewhere⟩ hs
      files := fun node hnode helsewhere ↦ (hrespects.files node ⟨hnode, helsewhere⟩ hnode).2
      closed := captureOutput_closed _ f arguments hcalled }

/-- Output capture is complete and isolated.  Whatever order the threads take their steps in, and
whatever the blocks are that bytes are read in, a capture gathers all that its function sends and
writes, and comes to its end once the function has ended.  The tap takes everything in, however much
it is, and the capture yields it, with the error of the function in its place if there is one, and
leaves everything alone that was there before. -/
theorem capture_complete_and_isolated {setup : Setup} {fuel : Nat} {ctx : Context} {w : World}
    (hw : w.Counted) (hctx : Grounded ctx w) (f : Fn) (arguments : List Value) :
    (∀ room, 0 < room → ∀ s : Capturing, Capturing.Reached room {} s → s.Sound room) ∧
      TapSound (run setup fuel) ctx w ∧
        CaptureSound (run setup fuel) ctx f arguments w
          (tappedCall (run setup fuel) ctx f arguments w).1
          (tappedCall (run setup fuel) ctx f arguments w).2
          (captureOutput (run setup fuel) ctx f arguments w).1
          (captureOutput (run setup fuel) ctx f arguments w).2 :=
  ⟨fun _ hroom _ hreached ↦ hreached.sound hroom, tapSound setup fuel hw hctx,
    captureSound setup fuel hctx f arguments⟩

/-- A state with one endpoint, which has the writing end of a pipe and a channel. -/
def pipeAndChannel : World where
  scopes := ⟨[{}, {}]⟩
  endpoints := ⟨[{ stream := some 0, channel := some 0 }]⟩
  streams := ⟨[{ device := .pipeWriter 0, holders := 1 }]⟩
  pipes := ⟨[[]]⟩
  channels := ⟨[{ channel := .ofCapacity 1 }]⟩

/-- A context with this endpoint for output and nothing else. -/
def outputEndpoint : Context := { topLevel with endpoints := [none, some 0] }

/-- A capture of two values that are put yields them, and nothing comes to the channel of the
caller. -/
theorem capture_complete_and_isolated_put :
    ∃ w', captureInto (run {} 1) outputEndpoint (.builtin .put) [.text [0x61], .text [0x62]] unset
        pipeAndChannel = ((.done none, [.text [0x61], .text [0x62]]), w') ∧
      (∃ line, w'.channels.get? 0 = some line ∧ line.channel.closed = false ∧
        line.channel.queue = []) ∧
      outputEndpoint.endpoint? w' 1 = some { stream := some 0, channel := some 0 } := by
  have hw : pipeAndChannel.Counted := by
    intro sid
    cases sid with
    | zero => decide
    | succ n => simp [World.references, Table.count, World.refersTo, pipeAndChannel]
  have hnothing : ∀ n, n ≠ 1 → outputEndpoint.endpoint? pipeAndChannel n = none := by
    intro n hn
    rcases n with _ | _ | n
    · rfl
    · exact absurd rfl hn
    · rfl
  have hchannel : ∀ n, n ≠ 1 → outputEndpoint.channel? pipeAndChannel n = none :=
    fun n hn ↦ by rw [Context.channel?, hnothing n hn]; rfl
  have hstream : ∀ n, n ≠ 1 → outputEndpoint.stream? pipeAndChannel n = none :=
    fun n hn ↦ by rw [Context.stream?, hnothing n hn]; rfl
  have hctx : Grounded outputEndpoint pipeAndChannel := by
    refine ⟨fun id hid ↦ ?_, fun n c hc ↦ ?_, fun n sid hsid ↦ ?_⟩
    · obtain rfl : id = 0 := by simpa [outputEndpoint] using hid
      decide
    · obtain rfl : n = 1 := Decidable.byContradiction fun hn ↦ by simp [hchannel n hn] at hc
      obtain rfl : c = 0 := (Option.some.inj hc).symm
      decide
    · obtain rfl : n = 1 := Decidable.byContradiction fun hn ↦ by simp [hstream n hn] at hsid
      obtain rfl : sid = 0 := (Option.some.inj hsid).symm
      exact ⟨_, rfl, fun pipe hpipe ↦ by cases hpipe⟩
  obtain ⟨-, -, hcapture⟩ := @capture_complete_and_isolated {} 1 _ _ hw hctx
    (.builtin .put) [.text [0x61], .text [0x62]]
  obtain ⟨line, hline, hclosed, -, hqueue⟩ := hcapture.channels 0 _ rfl
  exact ⟨_, hcapture.returned unset, ⟨line, hline, hclosed, hqueue (by decide)⟩,
    hcapture.endpoints 1⟩

end Eval

end Conduit
