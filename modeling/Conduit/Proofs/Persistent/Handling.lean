import Conduit.Proofs.Handling.Stages
import Conduit.Proofs.Persistent

/-!
# Relations that Admit the Handling of Endpoints

Of the persistent relations some do not look at endpoints at all.  For these every step is settled
that runs code in a fork of its context: redirections, captures of output, and the stages of a
pipeline.  What is left to a relation of its own are assignments, closure bodies and module bodies,
which bind names.
-/

namespace Conduit

open World (Handles)

/-- A persistent relation that admits the handling of endpoints as well. -/
class Tolerant (R : World → World → Prop) : Prop extends Persistent R where
  handles : ∀ {w w' : World}, Handles w w' → R w w'

instance {R : World → World → Prop} [Tolerant R] : Receptive R where
  take _ h := Tolerant.handles (.of_takes h)

namespace Eval

variable {R : World → World → Prop} [Tolerant R] {go : Runner} {ctx : Context}

theorem keeps_handles {α : Type} {act : Act α} (h : act.Keeps Handles) : act.Keeps R :=
  h.mono fun _ _ ↦ Tolerant.handles

/-! ## Redirections -/

theorem keeps_redirect (hgo : Runner.Keeps R go) (ctx : Context) (r : Code.Redirection) :
    Act.Keeps R (redirect go ctx r) := by
  obtain ⟨span, destination, mode, target⟩ := r
  unfold redirect
  refine .bind (keeps_evalExpr (hgo.inContext ctx) target) fun values ↦
    .bind (keeps_calm (calm_redirectionPath span values)) fun path ↦
    .bind (keeps_calm (calm_openFile mode path)) fun stream ↦ .bind (.change fun w ↦ ?_) fun e ↦ ?_
  · exact Tolerant.handles (.newEndpoint w _)
  · exact keeps_handles (ctx.handles_setEndpoint destination (some e))

theorem keeps_withRedirections (hgo : Runner.Keeps R go) {act : Context → Act Unit}
    (hact : ∀ ctx, Act.Keeps R (act ctx)) (redirections : List Code.Redirection) (ctx : Context) :
    Act.Keeps R (withRedirections go ctx act redirections) := by
  have hdrop : ∀ (ctx : Context) w, R w (ctx.drop w) :=
    fun ctx w ↦ Tolerant.handles (ctx.handles_drop w)
  induction redirections generalizing ctx with
  | nil => exact .ensuring (hact ctx) (hdrop ctx)
  | cons r rest ih =>
    exact .bind (.orElseChange (keeps_redirect hgo ctx r) (hdrop ctx)) fun fork ↦ ih fork

theorem keeps_command [Mobile R] (hgo : Runner.Keeps R go) (ctx : Context) (span : Span) (head : Code.Head)
    (arguments : List Code.Expr) (redirections : List Code.Redirection) :
    Act.Keeps R (evalForm go ctx (.command span head arguments redirections)) := by
  unfold evalForm
  refine .bind (keeps_beginForm span) fun _ ↦ .bind (keeps_evalHead (hgo.inContext ctx) head) fun values ↦
    .bind (keeps_soleFunction values) fun f ↦
    .bind (keeps_evalExprs (hgo.inContext ctx) arguments) fun arguments ↦ ?_
  split
  · exact hgo.call ctx f arguments
  · exact .bind (keeps_handles (ctx.handles_fork _)) fun fork ↦
      keeps_withRedirections hgo (fun ctx ↦ hgo.call ctx f arguments) redirections fork

/-! ## Pipelines -/

/-- Stages keep what their forms keep apart from each other, each in a context that is like the one of
the pipeline. -/
theorem keeps_runStages (number : Nat) (input : Option EndpointId) {forms : List Code.Form}
    (hforms : ∀ form ∈ forms, ∀ ctx', ctx.Alike ctx' →
      Act.Keeps R (settled (evalForm go ctx' form)).apart) :
    Act.Keeps R (runStages go ctx number input forms) := by
  induction forms generalizing number input with
  | nil => exact .pure _
  | cons form rest ih =>
    refine .bindYield (keeps_handles (handles_openStage ctx number input rest))
      (openStage_alike ctx number input rest) fun stage halike ↦ ?_
    have hform : Act.Keeps R (settled (evalForm go stage.ctx form)).apart :=
      hforms form List.mem_cons_self stage.ctx halike
    have hrest : Act.Keeps R (runStages go ctx (number + 1) stage.next rest) :=
      ih _ _ fun other hother ↦ hforms other (List.mem_cons_of_mem _ hother)
    refine .bind (.ensuring hform fun w ↦ ?_) fun result ↦
      .bind (keeps_handles (handles_closeInput _)) fun _ ↦ .bind hrest fun _ ↦ .pure _
    exact Tolerant.handles (stage.ctx.handles_finish w)

theorem keeps_evalPipeline [Nesting R] {forms : List Code.Form}
    (hforms : ∀ form ∈ forms, ∀ ctx', ctx.Alike ctx' → Act.Keeps R (evalForm go ctx' form)) :
    Act.Keeps R (evalPipeline go ctx forms) := by
  unfold evalPipeline
  split
  · exact hforms _ List.mem_cons_self ctx (.refl ctx)
  · have hstages := keeps_runStages 1 none fun form hform ctx' halike ↦
      keeps_apart (keeps_settled (hforms form hform ctx' halike))
    exact .bind hstages fun results ↦ keeps_verdict results

/-! ## Captured output -/

theorem keeps_captureOutput [Nesting R] (hgo : Runner.Keeps R go) (ctx : Context) (f : Fn)
    (arguments : List Value) : Act.Keeps R (captureOutput go ctx f arguments) := by
  unfold captureOutput
  refine .bind (.change fun w ↦ Persistent.calm (.newPipe w)) fun pipe ↦
    .bind (.change fun w ↦ Persistent.calm (.newChannel w rfl)) fun channel ↦
    .bind (.change fun w ↦ Tolerant.handles (.newEndpoint w _)) fun output ↦
    .bind (.change fun w ↦ Tolerant.handles (.newEndpoint w _)) fun input ↦
    .bind (keeps_handles (ctx.handles_fork _)) fun fork ↦
    .bind (keeps_handles (fork.handles_setEndpoint 1 (some output))) fun fork ↦
    .bind (.ensuring (keeps_apart (hgo.call _ _ _)) fun w ↦ ?_) fun _ ↦
    keeps_gather (fun _ _ ↦ Receptive.take _) _
  have hclose := (fork.handles_finish w).trans (.closeChannel _ channel)
  exact Tolerant.handles (hclose.trans (.dropEndpoint _ input))

end Eval

end Conduit
