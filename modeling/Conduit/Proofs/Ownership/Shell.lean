import Conduit.Proofs.Ownership.Evaluation
import Conduit.Proofs.Start

/-!
# What an Evaluation is Handed

The endpoints that a caller hands to an evaluation are the same afterwards, whatever the chunk does
and however it ends: each has its stream, its channel and its mark, its channel is as open as it was,
and so is its stream.  The last needs a caller who counts: a stream must count at least the endpoints
that refer to it.  A shell starts with such counts, and evaluation and new endpoints keep them.
-/

namespace Conduit

open World (Steady Counted)

namespace Shell

/-- A shell starts with the endpoints of its host, and without any its streams are counted. -/
theorem counted_start {w : World} (h : w.endpoints = .empty) : (start w).Counted := by
  intro sid
  rw [World.references, start_endpoints, h]
  exact Nat.zero_le _

/-- Evaluation is steady. -/
theorem steady_eval (setup : Setup) (fuel : Nat) (name text : Bytes) (chunk : Script.Chunk)
    (endpoints : List (Option EndpointId)) :
    (eval setup fuel name text chunk endpoints).Keeps Steady :=
  keeps_eval_of_block (Eval.steady_evalBlock (Eval.steady_run setup fuel)) name text chunk endpoints

/-- What an evaluation is handed it gives back: every endpoint refers to what it did, its channel has
not been closed and its stream is as open as before, and the counts are right for the next one. -/
theorem eval_returns_endpoints (setup : Setup) (fuel : Nat) (name text : Bytes)
    (chunk : Script.Chunk) (endpoints : List (Option EndpointId)) (w : World) (hw : w.Counted) :
    (∀ id e, some id ∈ endpoints → w.endpoints.get? id = some e →
      (eval setup fuel name text chunk endpoints w).2.endpoints.get? id = some e ∧
        (∀ channel line, e.channel = some channel → w.channels.get? channel = some line →
          ∃ line', (eval setup fuel name text chunk endpoints w).2.channels.get? channel =
            some line' ∧ line'.channel.closed = line.channel.closed) ∧
          ∀ sid s, e.stream = some sid → w.streams.get? sid = some s →
            ∃ s', (eval setup fuel name text chunk endpoints w).2.streams.get? sid = some s' ∧
              s'.closed = s.closed) ∧
      (eval setup fuel name text chunk endpoints w).2.Counted := by
  have hsteady := steady_eval setup fuel name text chunk endpoints w
  refine ⟨fun id e _ he ↦ ⟨hsteady.get?_endpoints he, fun channel line _ hline ↦ ?_,
    fun sid s hsid hs ↦ ?_⟩, hsteady.counted hw⟩
  · exact hsteady.channels channel line hline
  · exact hsteady.streams hw sid s hs (World.references_pos he hsid)

/-- The endpoint of the shell below. -/
def closingEndpoint : Endpoint := { stream := some 1, channel := some 0, closesChannel := true }

/-- A shell that has been handed one endpoint, which is marked for closing its channel. -/
def handedShell : World :=
  (((start {}).newChannel { channel := .ofCapacity 1 }).2.newEndpoint closingEndpoint).2

theorem counted_handedShell : handedShell.Counted := by
  have hstart : (start {}).Counted := counted_start rfl
  have hchannel : ((start {}).newChannel { channel := .ofCapacity 1 }).2.Counted := hstart
  refine hchannel.newEndpoint fun sid hsid ↦ ?_
  obtain rfl : 1 = sid := Option.some.inj hsid
  decide

/-- Two stages that do nothing leave the endpoint of such a shell as it is. -/
theorem eval_returns_closingEndpoint :
    handedShell.Counted ∧
      (eval {} 2 [] [] (.mk ⟨0, 9⟩ [.mk ⟨0, 9⟩
        [.mk ⟨0, 3⟩ [] (.bareword ⟨0, 3⟩ (utf8 "nop")) [] [],
          .mk ⟨6, 9⟩ [] (.bareword ⟨6, 9⟩ (utf8 "nop")) [] []]]) [some 0]
        handedShell).2.endpoints.get? 0 = some closingEndpoint :=
  ⟨counted_handedShell,
    ((eval_returns_endpoints {} 2 [] [] _ [some 0] handedShell counted_handedShell).1 0
      closingEndpoint List.mem_cons_self rfl).1⟩

end Shell

end Conduit
