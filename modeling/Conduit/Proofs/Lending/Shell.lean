import Conduit.Proofs.Interactive
import Conduit.Proofs.Lending.Evaluation

/-!
# What a Shell Lends

A shell lends its streams to what it evaluates.  Afterwards each of them has the holders that it had,
so that its last holder still closes it.  An interactive line holds the standard streams through
endpoints of its own, and drops these when it is over, however it ends.
-/

namespace Conduit.Shell

open World (Lent Owned Returns newEndpoint_exists newEndpoint_fst)

variable {w w₀ w' : World} {endpoints : List (Option EndpointId)}

/-! ## Evaluation -/

theorem returns_eval (setup : Setup) (fuel : Nat) (name text : Bytes) (chunk : Script.Chunk)
    (endpoints : List (Option EndpointId)) :
    (eval setup fuel name text chunk endpoints).Keeps Returns :=
  keeps_eval_of_block (Eval.returns_evalBlock (Eval.returns_run setup fuel)) name text chunk
    endpoints

/-- However an evaluation ends, every stream of the shell has the holders that it had. -/
theorem eval_returns_streams (setup : Setup) (fuel : Nat) (name text : Bytes)
    (chunk : Script.Chunk) (endpoints : List (Option EndpointId)) (w : World) (hw : w.Counted)
    {sid : StreamId} {s : Stream} (hs : w.streams.get? sid = some s) :
    ∃ s', (eval setup fuel name text chunk endpoints w).2.streams.get? sid = some s' ∧
      s'.holders = s.holders ∧ (s.Guarded → s'.Guarded) :=
  (returns_eval setup fuel name text chunk endpoints w).stream hw hs

/-! ## Interactive lines -/

/-- A state that is steady over the first one, with endpoints of a vector that may be closed and
that alone borrow streams of the first one. -/
structure Borrowing (w₀ : World) (endpoints : List (Option EndpointId)) (w : World) : Prop where
  owned : Owned w₀ endpoints w
  lent : Lent w₀ endpoints w

namespace Borrowing

theorem of_returns (h : Returns w₀ w) : Borrowing w₀ [] w := ⟨⟨h.steady, nofun⟩, h.lent⟩

theorem after (h : Borrowing w₀ endpoints w) (h' : Returns w w') : Borrowing w₀ endpoints w' :=
  ⟨h.owned.after h'.steady, h.lent.after h'⟩

/-- A new endpoint for a stream that exists is one of them, if it closes no channel. -/
theorem newEndpoint (h : Borrowing w₀ endpoints w) {sid : StreamId} (channel : Option ChannelId)
    (hsid : (w.streams.get? sid).isSome) :
    Borrowing w₀ (some w.endpoints.size :: endpoints)
      (w.newEndpoint { stream := some sid, channel }).2 := by
  let e : Endpoint := { stream := some sid, channel }
  have hexists : ∀ other, e.stream = some other → (w.streams.get? other).isSome :=
    fun other hother ↦ Option.some.inj hother ▸ hsid
  have howned := h.owned.newEndpoint (fun _ ↦ hexists) (e := e) nofun
  rw [newEndpoint_fst] at howned
  exact ⟨howned, h.lent.lend (fun _ ↦ hexists) (Nat.le_refl 1)⟩

theorem reverse (h : Borrowing w₀ endpoints w) : Borrowing w₀ endpoints.reverse w :=
  ⟨h.owned.mono fun _ ↦ List.mem_reverse.mp, h.lent.mono fun _ ↦ List.mem_reverse.mpr⟩

/-- A channel that was made since may be closed. -/
theorem closeChannel (h : Borrowing w₀ endpoints w) {channel : ChannelId}
    (hchannel : w₀.channels.size ≤ channel) : Borrowing w₀ endpoints (w.closeChannel channel) :=
  ⟨⟨h.owned.steady.closeChannel hchannel, h.owned.fresh⟩, h.lent.closeChannel channel⟩

/-- What has been borrowed is returned when the endpoints are dropped. -/
theorem dropEndpoints (h : Borrowing w₀ endpoints w) : Returns w₀ (w.dropEndpoints endpoints) := by
  have hlent : Lent w₀ (endpoints ++ []) w := h.lent.mono fun _ ↦ List.mem_append_left _
  exact ⟨h.owned.dropEndpoints.steady, hlent.dropEndpoints⟩

end Borrowing

/-- The endpoints of a line are its own, and they are for the standard streams. -/
theorem borrowing_lineEndpoints (h : Returns w₀ w) (hstandard : 3 ≤ w.streams.size)
    (channel : ChannelId) :
    Borrowing w₀ (lineEndpoints channel w).1 (lineEndpoints channel w).2 := by
  have hexists : ∀ sid, sid < 3 → (w.streams.get? sid).isSome := by
    intro sid hsid
    obtain ⟨s, hs⟩ := Table.exists_get?_of_lt (Nat.lt_of_lt_of_le hsid hstandard)
    rw [hs]
    rfl
  let w₁ : World := (w.newChannel { channel := (Channel.ofCapacity 0).close }).2
  have hchannel : Returns w w₁ := Persistent.calm (.newChannel w rfl)
  have hinput := (Borrowing.of_returns (h.trans hchannel)).newEndpoint (some w.channels.size)
    (hexists 0 (by decide))
  have houtput := hinput.newEndpoint (some channel)
    ((newEndpoint_exists _ _ 1).trans (hexists 1 (by decide)))
  have herror := houtput.newEndpoint none
    (((newEndpoint_exists _ _ 2).trans (newEndpoint_exists _ _ 2)).trans (hexists 2 (by decide)))
  exact herror.reverse

theorem returns_engageStub (text : Bytes) (w : World) :
    Returns w (engageStub text { w with interrupted := false }) := by
  let cleared : World := { w with interrupted := false }
  have hcleared : Returns w cleared := .of_tables rfl rfl rfl
  obtain ⟨hendpoints, hstreams, hchannels⟩ :
      (engageStub text cleared).endpoints = cleared.endpoints ∧
        (engageStub text cleared).streams = cleared.streams ∧
          (engageStub text cleared).channels = cleared.channels := engageStub_tables
  exact hcleared.trans (.of_tables hendpoints hstreams hchannels)

theorem returns_printValues (leader : Bytes) (channel : ChannelId) (w : World) :
    Returns w (printValues leader channel w) := by
  unfold printValues
  dsimp only
  have hprinted : ∀ bytes, Returns w (printed w bytes) := fun _ ↦ .of_tables rfl rfl rfl
  exact (hprinted _).trans (.of_takes (.drain _ channel))

theorem borrowing_endLine (h : Borrowing w₀ endpoints w) (leader : Bytes) {channel : ChannelId}
    (hchannel : w₀.channels.size ≤ channel) :
    Borrowing w₀ endpoints (endLine leader channel w) := by
  have hrelease : Returns w (releaseStub w) := .of_tables rfl rfl rfl
  have hprinted := ((h.after hrelease).closeChannel hchannel).after
    (returns_printValues leader channel _)
  unfold endLine
  dsimp only
  split
  · exact hprinted.after (.of_tables rfl rfl rfl)
  · exact hprinted.after (.of_tables rfl rfl rfl)

theorem returns_evalInteractive (setup : Setup) (fuel : Nat) (text : Bytes) (chunk : Script.Chunk)
    (w : World) (hstandard : 3 ≤ w.streams.size) :
    Returns w (evalInteractive setup fuel text chunk w).2 := by
  let line : Line := { channel := .ofCapacity setup.settings.channelSize, attended := true }
  have hchannel : Returns w (w.newChannel line).2 := Persistent.calm (.newChannel w rfl)
  have hopening : Borrowing w (opening setup text w).1 (opening setup text w).2 :=
    (borrowing_lineEndpoints hchannel hstandard (lineChannel w)).after (returns_engageStub text _)
  have hevaluated : Borrowing w (opening setup text w).1 (evaluated setup fuel text chunk w).2 :=
    hopening.after (returns_eval setup fuel interactiveName text chunk _ _)
  have hended : Borrowing w (opening setup text w).1
      (endLine setup.settings.leader (lineChannel w) (evaluated setup fuel text chunk w).2) :=
    borrowing_endLine hevaluated setup.settings.leader (Nat.le_refl w.channels.size)
  rw [evalInteractive_eq]
  dsimp only
  exact hended.dropEndpoints

/-! ## One line after another -/

/-- The state after lines have been run one after another. -/
def afterLines (setup : Setup) : List (Nat × Bytes × Script.Chunk) → World → World
  | [], w => w
  | (fuel, text, chunk) :: rest, w =>
    afterLines setup rest (evalInteractive setup fuel text chunk w).2

theorem returns_afterLines (setup : Setup) (lines : List (Nat × Bytes × Script.Chunk)) (w : World)
    (hstandard : 3 ≤ w.streams.size) : Returns w (afterLines setup lines w) := by
  induction lines generalizing w with
  | nil => exact .refl w
  | cons line rest ih =>
    obtain ⟨fuel, text, chunk⟩ := line
    have hline := returns_evalInteractive setup fuel text chunk w hstandard
    rw [afterLines]
    generalize evalInteractive setup fuel text chunk w = ended at hline ⊢
    exact hline.trans (ih ended.2 (Nat.le_trans hstandard hline.lent.accounts.size_le))

/-- Whatever lines a shell runs after its start, and however they end, every stream that it started
with has the holders that it had, the standard streams not excepted. -/
theorem afterLines_returns_streams (setup : Setup) (lines : List (Nat × Bytes × Script.Chunk))
    {w : World} (hw : w.endpoints = .empty) {sid : StreamId} {s : Stream}
    (hs : (start w).streams.get? sid = some s) :
    ∃ s', (afterLines setup lines (start w)).streams.get? sid = some s' ∧
      s'.holders = s.holders ∧ (s.Guarded → s'.Guarded) := by
  have hstandard : 3 ≤ (start w).streams.size := by
    rw [size_start_streams]
    exact Nat.le_add_left 3 _
  exact (returns_afterLines setup lines (start w) hstandard).stream (counted_start hw) hs

end Conduit.Shell
