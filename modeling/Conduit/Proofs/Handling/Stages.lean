import Conduit.Eval.Pipeline
import Conduit.Proofs.Handling

/-!
# Handling the Endpoints of Stages

Making a stage and the links between stages handles endpoints only, and the context of a stage is
like the one that it was forked from.
-/

namespace Conduit.Eval

open World (Handles)
open Act (Keeps)

theorem handles_attach (ctx : Context) (n : Nat) (e : Option EndpointId) :
    Keeps Handles (attach ctx n e) := by
  cases e with
  | some e => exact ctx.handles_setEndpoint n (some e)
  | none => exact .pure _

theorem attach_alike (ctx : Context) (n : Nat) (e : Option EndpointId) :
    (attach ctx n e).Yields ctx.Alike := by
  cases e with
  | some e => exact ctx.setEndpoint_alike n (some e)
  | none => exact fun _ ↦ .refl ctx

theorem handles_closeInput (channel : Option ChannelId) : Keeps Handles (closeInput channel) := by
  cases channel with
  | some id => exact .modify fun w ↦ .closeChannel w id
  | none => exact .pure _

theorem handles_newLink : Keeps Handles newLink := by
  refine .change fun w ↦ ?_
  have hpipe : Handles w w.newPipe.2 := .newPipe w
  have hendpoint : ∀ w e, Handles w (w.newEndpoint e).2 := Handles.newEndpoint
  exact ((hpipe.trans (.newChannel _ rfl)).trans (hendpoint _ _)).trans (hendpoint _ _)

theorem handles_linkBefore (rest : List Code.Form) : Keeps Handles (linkBefore rest) := by
  unfold linkBefore
  split
  · exact .pure _
  · exact .map some handles_newLink

theorem handles_openStage (ctx : Context) (number : Nat) (input : Option EndpointId)
    (rest : List Code.Form) : Keeps Handles (openStage ctx number input rest) :=
  .bind (ctx.handles_fork _) fun stage ↦ .bind (handles_attach stage 0 input) fun stage ↦
    .bind (handles_linkBefore rest) fun _ ↦ .bind (handles_attach stage 1 _) fun _ ↦
    .bind .world fun _ ↦ .pure _

/-- A stage is made in a fork of the context. -/
theorem openStage_alike (ctx : Context) (number : Nat) (input : Option EndpointId)
    (rest : List Code.Form) :
    (openStage ctx number input rest).Yields fun stage ↦ ctx.Alike stage.ctx := by
  intro w
  refine (ctx.fork_alike _ w).bind fun stage w₁ hfork ↦ ?_
  refine (attach_alike stage 0 input w₁).bind fun stage' w₂ hinput ↦ ?_
  refine (Act.Leads.trivial _ w₂).bind fun link w₃ _ ↦ ?_
  refine (attach_alike stage' 1 _ w₃).bind fun stage'' w₄ houtput ↦ ?_
  exact (hfork.trans hinput).trans houtput

end Conduit.Eval
