import Conduit.Proofs.Feeding.Evaluation
import Conduit.Proofs.Ownership.Shell
import Conduit.Proofs.Threads.Builtins
import Conduit.Shell.Session

/-!
# Interactive Lines

What an interactive line sends is queued on a channel of its own until the line has ended, since
evaluation feeds that channel; then it is printed, and the line is cleaned up.  This is so however
the evaluation ends.  Neither an interrupt flag that was set before nor signals that had come before
make a difference to the line.
-/

namespace Conduit.Shell

open World (Feeds FeedsFrom Deaf Steady)

variable {setup : Setup} {fuel : Nat} {text : Bytes} {chunk : Script.Chunk} {w w' : World}

/-! ## The course of a line -/

/-- The channel that a line sends its values on. -/
def lineChannel (w : World) : ChannelId := w.channels.size

/-- The endpoints that a line is evaluated with, and the state in which its evaluation begins. -/
def opening (setup : Setup) (text : Bytes) (w : World) : List (Option EndpointId) × World :=
  let (channel, w) :=
    w.newChannel { channel := .ofCapacity setup.settings.channelSize, attended := true }
  let (endpoints, w) := lineEndpoints channel w
  (endpoints, engageStub text { w with interrupted := false })

/-- How the evaluation of a line ends, and the state that it leaves. -/
def evaluated (setup : Setup) (fuel : Nat) (text : Bytes) (chunk : Script.Chunk) (w : World) :
    Outcome (Option Error) × World :=
  eval setup fuel interactiveName text chunk (opening setup text w).1 (opening setup text w).2

/-- The values that a line sends: those that are queued on its channel when its evaluation ends. -/
def sentValues (setup : Setup) (fuel : Nat) (text : Bytes) (chunk : Script.Chunk) (w : World) :
    List Value :=
  (((evaluated setup fuel text chunk w).2.channels.get? (lineChannel w)).map
    (·.channel.queue)).getD []

theorem evalInteractive_eq (setup : Setup) (fuel : Nat) (text : Bytes) (chunk : Script.Chunk)
    (w : World) :
    evalInteractive setup fuel text chunk w =
      ((evaluated setup fuel text chunk w).1,
        (endLine setup.settings.leader (lineChannel w)
          (evaluated setup fuel text chunk w).2).dropEndpoints (opening setup text w).1) := by
  unfold evalInteractive evaluated
  generalize eval setup fuel interactiveName text chunk = act
  rfl

/-- Whether the stub is engaged for a line. -/
def engages (w : World) : Bool := w.stub.any (·.alive) && w.terminal

/-- What is said before a line is evaluated. -/
def greeting (w : World) : Bytes := complaint (utf8 "stub") (engages w)

/-- What is said when a line has ended. -/
def farewell (w : World) : Bytes := complaint (utf8 "myself") w.terminal

/-! ## Before the evaluation -/

theorem engageStub_of_engages {stub : Stub} (hstub : w.stub = some stub) (h : engages w = true) :
    engageStub text w = printed { w with stub := some { stub with
      title := Text.Unicode.title text
      directory := w.directoryText
      signals := stub.signals.drain.1
      forwarding := true } } (foregroundFailure (utf8 "stub")) := by
  have halive : (stub.alive && w.terminal) = true := by simpa [engages, hstub] using h
  unfold engageStub
  rw [hstub]
  exact if_pos halive

theorem engageStub_of_not_engages (h : engages w = false) : engageStub text w = w := by
  unfold engageStub
  rcases hstub : w.stub with _ | stub
  · rfl
  · have hdead : (stub.alive && w.terminal) = false := by simpa [engages, hstub] using h
    simp [hdead]

theorem exists_stub_of_engages (h : engages w = true) : ∃ stub, w.stub = some stub := by
  rcases hstub : w.stub with _ | stub
  · simp [engages, hstub] at h
  · exact ⟨stub, rfl⟩

theorem printed_engageStub : (engageStub text w).printed = w.printed ++ greeting w := by
  unfold greeting complaint
  cases h : engages w with
  | true =>
    obtain ⟨stub, hstub⟩ := exists_stub_of_engages h
    rw [engageStub_of_engages hstub h]
    rfl
  | false => simp [engageStub_of_not_engages h]

/-- Engaging the stub is all the same to endpoints, streams and channels. -/
theorem engageStub_tables : (engageStub text w).endpoints = w.endpoints ∧
    (engageStub text w).streams = w.streams ∧ (engageStub text w).channels = w.channels := by
  cases h : engages w with
  | true =>
    obtain ⟨stub, hstub⟩ := exists_stub_of_engages h
    rw [engageStub_of_engages hstub h]
    exact ⟨rfl, rfl, rfl⟩
  | false => simp [engageStub_of_not_engages h]

theorem printed_opening : (opening setup text w).2.printed = w.printed ++ greeting w :=
  printed_engageStub

theorem channels_opening : (opening setup text w).2.channels =
    (w.channels.push { channel := .ofCapacity setup.settings.channelSize, attended := true }).push
      { channel := (Channel.ofCapacity 0).close } :=
  engageStub_tables.2.2

/-- The channel of a line is open, empty and attended. -/
theorem lineChannel_opening : (opening setup text w).2.channels.get? (lineChannel w) =
    some { channel := .ofCapacity setup.settings.channelSize, attended := true } := by
  have hlt : lineChannel w < (w.channels.push
      { channel := .ofCapacity setup.settings.channelSize, attended := true }).size := by
    simp [lineChannel]
  rw [channels_opening, Table.get?_push_of_lt hlt]
  exact Table.get?_push_size _ _

/-- A line takes its input from a new channel. -/
theorem deaf_lineEndpoints {c : ChannelId} (hc : c < w.channels.size) (channel : ChannelId) :
    Deaf c (lineEndpoints channel w).1 (lineEndpoints channel w).2 := by
  let w₁ : World := (w.newChannel { channel := (Channel.ofCapacity 0).close }).2
  let input : Endpoint := { stream := some 0, channel := some w.channels.size }
  let output : Endpoint := { stream := some 1, channel := some channel }
  let w₂ : World := (w₁.newEndpoint input).2
  let w₃ : World := (w₂.newEndpoint output).2
  have hne : input.channel ≠ some c := fun heq ↦ Nat.ne_of_gt hc (Option.some.inj heq)
  have hinput : World.Avoids c (w₁.newEndpoint input).1 w₂ := World.avoids_newEndpoint w₁ hne
  have hafter : Feeds c w₂ (w₃.newEndpoint { stream := some 2 }).2 :=
    (Feeds.newEndpoint w₂ output).trans (.newEndpoint w₃ _)
  have hfeeds : Feeds c w (w₃.newEndpoint { stream := some 2 }).2 :=
    ((Feeds.newChannel w _).trans (.newEndpoint w₁ input)).trans hafter
  obtain ⟨line, hline⟩ := Table.exists_get?_of_lt hc
  obtain ⟨line', hline', -⟩ := hfeeds.queue line hline
  refine ⟨Table.lt_size_of_get? hline', fun id hid ↦ ?_⟩
  rw [← Option.some.inj hid]
  exact hinput.after hafter.loses

theorem deaf_opening :
    Deaf (lineChannel w) (opening setup text w).1 (opening setup text w).2 := by
  have hlt : lineChannel w < (w.newChannel
      { channel := .ofCapacity setup.settings.channelSize, attended := true }).2.channels.size := by
    simp [lineChannel, World.newChannel]
  have hdeaf := deaf_lineEndpoints hlt (lineChannel w)
  refine ⟨Table.lt_size_of_get? lineChannel_opening, fun id hid ↦ ?_⟩
  obtain ⟨e, he, hne⟩ := hdeaf.input id hid
  refine ⟨e, ?_, hne⟩
  rw [← he]
  exact congrArg (Table.get? · id) engageStub_tables.1

/-! ## The evaluation -/

theorem feeds_eval (c : ChannelId) (setup : Setup) (fuel : Nat) (name text : Bytes)
    (chunk : Script.Chunk) (endpoints : List (Option EndpointId)) :
    (eval setup fuel name text chunk endpoints).Keeps (FeedsFrom c endpoints) := by
  unfold eval
  refine .bind .world fun w ↦ ?_
  split
  · exact .pure _
  · intro w hdeaf
    have hctx : (topContext name text chunk endpoints).Leads w
        (fun ctx w' ↦ World.Fed c w ctx.endpoints w') (Feeds c w) :=
      (World.Fed.start hdeaf).after (.of_tables rfl rfl rfl)
    refine (hctx.bind fun ctx w₁ h₁ ↦ ?_).state
    have hblock := Eval.feeds_evalBlock (Eval.feeds_run c setup fuel) ctx ‹Code.Block›
    exact (Eval.fed_leads h₁ (.within Mobile.move (.attempt hblock))).mono
      (fun _ _ h ↦ h.feeds) fun _ h ↦ h.feeds

/-- While a line is evaluated, nothing is printed, and its channel is fed. -/
theorem feeds_evaluated (setup : Setup) (fuel : Nat) (text : Bytes) (chunk : Script.Chunk)
    (w : World) :
    Feeds (lineChannel w) (opening setup text w).2 (evaluated setup fuel text chunk w).2 :=
  feeds_eval (lineChannel w) setup fuel interactiveName text chunk _ _ deaf_opening

theorem steady_evaluated (setup : Setup) (fuel : Nat) (text : Bytes) (chunk : Script.Chunk)
    (w : World) :
    Steady (opening setup text w).2 (evaluated setup fuel text chunk w).2 :=
  steady_eval setup fuel interactiveName text chunk _ _

/-- As long as the channel of a line is fed and nothing that was there is closed, the channel is
open and attended. -/
theorem lineChannel_of_feeds (hfeeds : Feeds (lineChannel w) (opening setup text w).2 w')
    (hsteady : Steady (opening setup text w).2 w') :
    ∃ line, w'.channels.get? (lineChannel w) = some line ∧ line.attended = true ∧
      line.channel.closed = false := by
  obtain ⟨line, hline, hextends⟩ := hfeeds.queue _ lineChannel_opening
  obtain ⟨line', hline', hclosed⟩ := hsteady.channels _ _ lineChannel_opening
  obtain rfl : line = line' := Option.some.inj (hline.symm.trans hline')
  exact ⟨line, hline, hextends.attended, hclosed⟩

/-- So every value that the line sends is accepted, and is queued behind those sent before. -/
theorem sendTo_lineChannel (hfeeds : Feeds (lineChannel w) (opening setup text w).2 w')
    (hsteady : Steady (opening setup text w).2 w') (v : Value) :
    Eval.sendTo (lineChannel w) v w' =
      (.done true, w'.modifyChannel (lineChannel w) fun c ↦ c.enqueue v) := by
  obtain ⟨line, hline, hattended, hopen⟩ := lineChannel_of_feeds hfeeds hsteady
  exact Threads.sendTo_open hline hattended hopen v

/-! ## After the evaluation -/

/-- Closing a channel leaves its values to be printed. -/
theorem printValues_closeChannel (leader : Bytes) (c : ChannelId) (w : World) :
    printValues leader c ((releaseStub w).closeChannel c) =
      (printed (releaseStub w) ((((w.channels.get? c).map (·.channel.queue)).getD []).flatMap
        (valueLine leader))).modifyChannel c fun c ↦ c.close.drain.1 := by
  have hqueue : ((((releaseStub w).closeChannel c).channels.get? c).map (·.channel.queue)).getD [] =
      ((w.channels.get? c).map (·.channel.queue)).getD [] := by
    change (((w.channels.modify c _).get? c).map _).getD [] = _
    rw [Table.get?_modify, if_pos rfl, Option.map_map]
    rfl
  unfold printValues
  dsimp only
  rw [hqueue]
  exact World.modifyChannel_modifyChannel (printed (releaseStub w) _) c _ _

theorem printed_endLine (leader : Bytes) (c : ChannelId) (w : World) :
    (endLine leader c w).printed = w.printed ++
      (((w.channels.get? c).map (·.channel.queue)).getD []).flatMap (valueLine leader) ++
      farewell w := by
  have hterminal : (printValues leader c ((releaseStub w).closeChannel c)).terminal = w.terminal :=
    rfl
  unfold endLine farewell complaint
  dsimp only
  rw [hterminal, printValues_closeChannel]
  split
  · rfl
  · exact (List.append_nil _).symm

/-- However a line ends, the flag is clear, nothing is forwarded, and the channel of the line is
closed and empty. -/
theorem endLine_cleansUp (leader : Bytes) (c : ChannelId) (w : World) :
    (endLine leader c w).interrupted = false ∧
      (endLine leader c w).stub = w.stub.map (fun stub ↦ { stub with forwarding := false }) ∧
      (endLine leader c w).channels = w.channels.modify c
        fun line ↦ { line with channel := line.channel.close.drain.1 } := by
  unfold endLine
  dsimp only
  rw [printValues_closeChannel]
  split <;> exact ⟨rfl, rfl, rfl⟩

/-- Letting go of endpoints concerns endpoints and streams only. -/
theorem dropEndpoints_others (endpoints : List (Option EndpointId)) (w : World) :
    ∃ table streams, w.dropEndpoints endpoints = { w with endpoints := table, streams } := by
  unfold World.dropEndpoints
  induction endpoints generalizing w with
  | nil => exact ⟨w.endpoints, w.streams, rfl⟩
  | cons e rest ih =>
    cases e with
    | none => exact ih w
    | some id =>
      obtain ⟨table, streams, hdrop⟩ :
          ∃ table streams, w.dropEndpoint id = { w with endpoints := table, streams } := by
        unfold World.dropEndpoint World.releaseStream
        dsimp only
        split
        · split <;> exact ⟨_, _, rfl⟩
        · exact ⟨_, _, rfl⟩
      obtain ⟨table', streams', hrest⟩ := ih (w.dropEndpoint id)
      refine ⟨table', streams', hrest.trans ?_⟩
      rw [hdrop]

/-- A line prints each value that it sends, once and in order, on a line of its own. -/
theorem printed_evalInteractive (setup : Setup) (fuel : Nat) (text : Bytes) (chunk : Script.Chunk)
    (w : World) :
    (evalInteractive setup fuel text chunk w).2.printed = w.printed ++ greeting w ++
      (sentValues setup fuel text chunk w).flatMap (valueLine setup.settings.leader) ++
      farewell (evaluated setup fuel text chunk w).2 := by
  rw [evalInteractive_eq]
  obtain ⟨table, streams, hdrop⟩ := dropEndpoints_others (opening setup text w).1
    (endLine setup.settings.leader (lineChannel w) (evaluated setup fuel text chunk w).2)
  dsimp only
  rw [hdrop]
  dsimp only
  rw [printed_endLine, (feeds_evaluated setup fuel text chunk w).printed, printed_opening]
  rfl

/-- However a line ends, the flag is clear, nothing is forwarded any more, and the channel of the
line is closed and empty. -/
theorem evalInteractive_cleansUp (setup : Setup) (fuel : Nat) (text : Bytes) (chunk : Script.Chunk)
    (w : World) :
    (evalInteractive setup fuel text chunk w).2.interrupted = false ∧
      (∀ stub, (evalInteractive setup fuel text chunk w).2.stub = some stub →
        stub.forwarding = false) ∧
      ∃ line, (evalInteractive setup fuel text chunk w).2.channels.get? (lineChannel w) =
        some line ∧ line.channel.closed = true ∧ line.channel.queue = [] := by
  obtain ⟨hflag, hstub, hchannels⟩ := endLine_cleansUp setup.settings.leader (lineChannel w)
    (evaluated setup fuel text chunk w).2
  obtain ⟨line, hline, -⟩ := lineChannel_of_feeds (feeds_evaluated setup fuel text chunk w)
    (steady_evaluated setup fuel text chunk w)
  obtain ⟨table, streams, hdrop⟩ := dropEndpoints_others (opening setup text w).1
    (endLine setup.settings.leader (lineChannel w) (evaluated setup fuel text chunk w).2)
  rw [evalInteractive_eq]
  dsimp only
  rw [hdrop]
  dsimp only
  rw [hflag, hstub, hchannels, Table.get?_modify, if_pos rfl, hline]
  refine ⟨rfl, fun stub hstub ↦ ?_, _, rfl, rfl, rfl⟩
  obtain ⟨before, -, rfl⟩ := Option.map_eq_some_iff.mp hstub
  rfl

/-! ## What came before -/

/-- A line does not depend on whether the interrupt flag was set before. -/
theorem evalInteractive_forgets_flag (setup : Setup) (fuel : Nat) (text : Bytes)
    (chunk : Script.Chunk) (w : World) (flag : Bool) :
    evalInteractive setup fuel text chunk { w with interrupted := flag } =
      evalInteractive setup fuel text chunk w := by
  have hopening : opening setup text { w with interrupted := flag } = opening setup text w := rfl
  simp only [evalInteractive_eq, evaluated, hopening]
  rfl

/-- If the stub is engaged, a line does not depend on the signals that had come before. -/
theorem evalInteractive_forgets_signals (setup : Setup) (fuel : Nat) (text : Bytes)
    (chunk : Script.Chunk) (w : World) {stub : Stub} (hstub : w.stub = some stub)
    (hengages : engages w = true) (pending : List Int) :
    evalInteractive setup fuel text chunk
        { w with stub := some { stub with signals := { stub.signals with queue := pending } } } =
      evalInteractive setup fuel text chunk w := by
  let changed : Stub := { stub with signals := { stub.signals with queue := pending } }
  let before (w : World) : World :=
    { (lineEndpoints (lineChannel w) (w.newChannel
        { channel := .ofCapacity setup.settings.channelSize, attended := true }).2).2 with
      interrupted := false }
  have hchanged : engages { w with stub := some changed } = true := by
    rw [← hengages, engages, engages, hstub]
    rfl
  have hengage : engageStub text (before { w with stub := some changed }) =
      engageStub text (before w) := by
    have hbefore : (before w).stub = some stub := hstub
    have hbefore' : (before { w with stub := some changed }).stub = some changed := rfl
    rw [engageStub_of_engages hbefore hengages, engageStub_of_engages hbefore' hchanged]
    rfl
  have hopening : opening setup text { w with stub := some changed } = opening setup text w :=
    Prod.ext rfl hengage
  rw [evalInteractive_eq, evalInteractive_eq, evaluated, evaluated, hopening]
  rfl

end Conduit.Shell
