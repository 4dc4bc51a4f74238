import Conduit.Context
import Conduit.Proofs.Calm

/-!
# Handling Endpoints

Making, forking, closing and dropping endpoints, holding streams and making, closing and draining
channels touches no name, no variable and not the span under evaluation.  Such a change leaves scopes,
modules and the journal as they are, and queues no value that was not queued before.
-/

namespace Conduit

namespace World

/-- A value waits on some channel. -/
def Queued (w : World) (v : Value) : Prop :=
  ∃ id line, w.channels.get? id = some line ∧ v ∈ line.channel.queue

/-- Only endpoints and what stands behind them have been handled. -/
structure Handles (w w' : World) : Prop where
  scopes : w'.scopes = w.scopes
  modules : w'.modules = w.modules
  journal : w'.journal = w.journal
  here : w'.here = w.here
  vars : w'.vars = w.vars
  environment : w.environment.Proper → w'.environment.Proper
  queued : ∀ v, w'.Queued v → w.Queued v

namespace Handles

variable {w w' w'' : World}

protected theorem refl (w : World) : Handles w w :=
  ⟨rfl, rfl, rfl, rfl, rfl, fun h ↦ h, fun _ h ↦ h⟩

protected theorem trans (h : Handles w w') (h' : Handles w' w'') : Handles w w'' where
  scopes := h'.scopes.trans h.scopes
  modules := h'.modules.trans h.modules
  journal := h'.journal.trans h.journal
  here := h'.here.trans h.here
  vars := h'.vars.trans h.vars
  environment := h'.environment ∘ h.environment
  queued v hv := h.queued v (h'.queued v hv)

instance : Std.Refl Handles := ⟨Handles.refl⟩

instance : IsTrans World Handles := ⟨fun _ _ _ ↦ Handles.trans⟩

/-- Every closure that is stored afterwards was stored before. -/
theorem closures (h : Handles w w') (c : Closure) (hc : w'.Stores c) : w.Stores c := by
  rcases hc with ⟨id, x, hx, hcx⟩ | ⟨id, line, hline, v, hv, hcv⟩
  · rw [h.vars] at hx
    exact .inl ⟨id, x, hx, hcx⟩
  · obtain ⟨id, line, hline, hv⟩ := h.queued v ⟨id, line, hline, hv⟩
    exact .inr ⟨id, line, hline, v, hv, hcv⟩

/-- What names, variables, channels and the span under evaluation have no part in. -/
theorem other (w : World) (endpoints : Table Endpoint) (streams : Table Stream)
    (pipes : Table Bytes) (files : Host.FileTree) (directory : Host.Path)
    (store : Option (List (Bytes × Bytes))) (stub : Option Stub)
    (terminal interrupted : Bool) (parses : Nat) (printed : Bytes) :
    Handles w
      { w with
        endpoints, streams, pipes, files, directory, store, stub, terminal, interrupted, parses,
        printed } :=
  ⟨rfl, rfl, rfl, rfl, rfl, fun h ↦ h, fun _ h ↦ h⟩

/-- A name of the environment is set. -/
theorem setEnvironment (w : World) {environment : Host.Environment} {name value : Bytes}
    (hset : w.environment.set? name value = some environment) : Handles w { w with environment } :=
  ⟨rfl, rfl, rfl, rfl, rfl, fun h ↦ h.set? hset, fun _ h ↦ h⟩

/-- Tables of endpoints and streams. -/
theorem tables (w : World) (endpoints : Table Endpoint) (streams : Table Stream) :
    Handles w { w with endpoints, streams } :=
  other w _ _ _ _ _ _ _ _ _ _ _

/-- A channel on which nothing is queued that was not queued there before. -/
theorem modifyChannel (w : World) {id : ChannelId} {f : Channel Value → Channel Value}
    (hf : ∀ line, w.channels.get? id = some line → ∀ v ∈ (f line.channel).queue,
      v ∈ line.channel.queue) : Handles w (w.modifyChannel id f) where
  scopes := rfl
  modules := rfl
  journal := rfl
  here := rfl
  vars := rfl
  environment h := h
  queued v hv := by
    obtain ⟨other, line', hline', hv⟩ := hv
    change (w.channels.modify _ _).get? _ = _ at hline'
    rw [Table.get?_modify] at hline'
    split at hline'
    · subst other
      obtain ⟨line, hline, rfl⟩ := Option.map_eq_some_iff.mp hline'
      exact ⟨id, line, hline, hf line hline v hv⟩
    · exact ⟨other, line', hline', hv⟩

theorem closeChannel (w : World) (id : ChannelId) : Handles w (w.closeChannel id) :=
  modifyChannel w fun _ _ _ h ↦ h

theorem drainChannel (w : World) (id : ChannelId) :
    Handles w (w.modifyChannel id fun c ↦ c.drain.1) :=
  modifyChannel w fun _ _ _ h ↦ nomatch h

theorem of_takes {id : ChannelId} (h : Takes id w w') : Handles w w' := by
  obtain ⟨f, rfl, hf⟩ := h
  exact modifyChannel w fun line hline v hv ↦ (hf line hline).2.subset hv

/-- A new channel whose queue is empty. -/
theorem newChannel (w : World) {line : Line} (hline : line.channel.queue = []) :
    Handles w (w.newChannel line).2 where
  scopes := rfl
  modules := rfl
  journal := rfl
  here := rfl
  vars := rfl
  environment h := h
  queued v hv := by
    obtain ⟨id, other, hother, hv⟩ := hv
    rcases Table.get?_push_cases hother with hother | ⟨-, rfl⟩
    · exact ⟨id, other, hother, hv⟩
    · rw [hline] at hv
      cases hv

theorem newPipe (w : World) : Handles w w.newPipe.2 := other w _ _ _ _ _ _ _ _ _ _ _

theorem holdStream (w : World) (id : Option StreamId) : Handles w (w.holdStream id) := by
  cases id with
  | some id => exact tables w w.endpoints _
  | none => exact .refl w

theorem releaseStream (w : World) (id : Option StreamId) : Handles w (w.releaseStream id) := by
  cases id with
  | some id => exact tables w w.endpoints _
  | none => exact .refl w

theorem newEndpoint (w : World) (e : Endpoint) : Handles w (w.newEndpoint e).2 :=
  (holdStream w e.stream).trans (tables _ _ _)

theorem closeEndpoint (w : World) (id : EndpointId) : Handles w (w.closeEndpoint id) := by
  have hrelease := releaseStream w (w.endpoint id).stream
  unfold World.closeEndpoint
  dsimp only
  split
  · exact (hrelease.trans (closeChannel _ _)).trans (tables _ _ _)
  · exact hrelease.trans (tables _ _ _)

theorem dropEndpoint (w : World) (id : EndpointId) : Handles w (w.dropEndpoint id) := by
  unfold World.dropEndpoint
  dsimp only
  split
  · exact (releaseStream w _).trans (tables _ _ _)
  · exact tables w _ _

theorem forkEndpoints (w : World) (endpoints : List (Option EndpointId)) :
    Handles w (w.forkEndpoints endpoints).2 := by
  induction endpoints generalizing w with
  | nil => exact .refl w
  | cons e rest ih =>
    cases e with
    | none => exact ih w
    | some id => exact (newEndpoint w _).trans (ih _)

/-- Endpoints handled one after another. -/
theorem foldl {step : World → EndpointId → World} (hstep : ∀ w id, Handles w (step w id))
    (endpoints : List (Option EndpointId)) (w : World) :
    Handles w (endpoints.foldl (fun w e ↦ e.elim w (step w)) w) := by
  induction endpoints generalizing w with
  | nil => exact .refl w
  | cons e rest ih =>
    cases e with
    | none => exact ih w
    | some id => exact (hstep w id).trans (ih _)

theorem closeEndpoints (w : World) (endpoints : List (Option EndpointId)) :
    Handles w (w.closeEndpoints endpoints) :=
  foldl closeEndpoint endpoints w

theorem dropEndpoints (w : World) (endpoints : List (Option EndpointId)) :
    Handles w (w.dropEndpoints endpoints) :=
  foldl dropEndpoint endpoints w

theorem setEndpoint (w : World) (endpoints : List (Option EndpointId)) (n : Nat)
    (e : Option EndpointId) : Handles w (w.setEndpoint endpoints n e).2 := by
  unfold World.setEndpoint
  dsimp only
  cases slot (grow endpoints (n + 1)) n with
  | none => exact .refl w
  | some id => exact dropEndpoint w id

end Handles

end World

namespace Context

open World (Handles)
open Act (Keeps)

/-- A context for the same source and with the same scopes as another one. -/
structure Alike (ctx ctx' : Context) : Prop where
  scope : ctx'.scope = ctx.scope
  outer : ctx'.outer = ctx.outer
  text : ctx'.text = ctx.text
  chunk : ctx'.chunk = ctx.chunk

theorem Alike.refl (ctx : Context) : ctx.Alike ctx := ⟨rfl, rfl, rfl, rfl⟩

theorem Alike.trans {ctx ctx' ctx'' : Context} (h : ctx.Alike ctx') (h' : ctx'.Alike ctx'') :
    ctx.Alike ctx'' :=
  ⟨h'.scope.trans h.scope, h'.outer.trans h.outer, h'.text.trans h.text, h'.chunk.trans h.chunk⟩

theorem fork_alike (ctx : Context) (label : Bytes) : (ctx.fork label).Yields ctx.Alike :=
  fun _ ↦ ⟨rfl, rfl, rfl, rfl⟩

theorem setEndpoint_alike (ctx : Context) (n : Nat) (e : Option EndpointId) :
    (ctx.setEndpoint n e).Yields ctx.Alike :=
  fun _ ↦ ⟨rfl, rfl, rfl, rfl⟩

theorem handles_fork (ctx : Context) (label : Bytes) : Keeps Handles (ctx.fork label) :=
  .change fun w ↦ .forkEndpoints w ctx.endpoints

theorem handles_setEndpoint (ctx : Context) (n : Nat) (e : Option EndpointId) :
    Keeps Handles (ctx.setEndpoint n e) :=
  .change fun w ↦ .setEndpoint w ctx.endpoints n e

theorem handles_drop (ctx : Context) (w : World) : Handles w (ctx.drop w) :=
  .dropEndpoints w ctx.endpoints

theorem handles_finish (ctx : Context) (w : World) : Handles w (ctx.finish w) :=
  (World.Handles.closeEndpoints w ctx.endpoints).trans (handles_drop ctx _)

end Context

end Conduit
