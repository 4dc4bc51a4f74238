import Conduit.Proofs.Bindings
import Conduit.Proofs.Feeding

/-!
# Feeding under Evaluation

Contexts are forked, and other endpoints are put in them.  At the input stands a fork, a new
endpoint for the same channel, or the reading end of a new link, so that every context that
evaluation makes is deaf to a channel that the first one is deaf to.  Hence evaluation feeds such a
channel: it sends values on it and never takes one off, and prints nothing.
-/

namespace Conduit.Eval

open World (Feeds Deaf Avoids FeedsFrom Fed Takes)
open Act (Leads)

variable {c : ChannelId} {go : Runner} {ctx : Context} {w w₀ : World}
  {endpoints : List (Option EndpointId)}

/-- Requests feed the channel from every context that is deaf to it. -/
def Runner.Feeds (c : ChannelId) (go : Runner) : Prop :=
  ∀ ctx, Runner.KeepsIn (FeedsFrom c ctx.endpoints) go ctx

theorem fed_leads {α : Type} {act : Act α} (h : Fed c w₀ endpoints w)
    (hact : act.Keeps (FeedsFrom c endpoints)) :
    act.Leads w (fun _ ↦ Fed c w₀ endpoints) (Fed c w₀ endpoints) :=
  (Leads.ofKeeps hact).mono (fun _ _ hw ↦ h.after (hw h.deaf)) fun _ hw ↦ h.after (hw h.deaf)

/-! ## Contexts -/

theorem fed_fork (h : Fed c w₀ ctx.endpoints w) (label : Bytes) :
    (ctx.fork label).Leads w (fun fork ↦ Fed c w₀ fork.endpoints) (Feeds c w₀) :=
  h.forkEndpoints

theorem feeds_drop (ctx : Context) (w : World) : Feeds c w (ctx.drop w) :=
  .dropEndpoints w ctx.endpoints

theorem feeds_finish (ctx : Context) (w : World) : Feeds c w (ctx.finish w) :=
  (Feeds.closeEndpoints w ctx.endpoints).trans (feeds_drop ctx _)

/-- The input channel of a deaf context is another one. -/
theorem channel_ne_of_deaf {channel : ChannelId} (h : Deaf c ctx.endpoints w)
    (hchannel : ctx.channel? w 0 = some channel) : channel ≠ c := by
  unfold Context.channel? Context.endpoint? at hchannel
  rcases hslot : World.slot ctx.endpoints 0 with _ | id <;> rw [hslot] at hchannel
  · cases hchannel
  · rintro rfl
    exact (h.input id hslot).channel_ne hchannel

/-- Receiving from the input takes values off another channel. -/
theorem feeds_takesInput (ctx : Context) : TakesInput (FeedsFrom c ctx.endpoints) ctx := by
  intro next hnext w hdeaf
  unfold inputChannel
  rw [Act.bind_apply, Act.world_bind]
  rcases hchannel : ctx.channel? w 0 with _ | channel
  · exact .refl w
  · have hne : channel ≠ c := channel_ne_of_deaf hdeaf hchannel
    exact hnext channel (keeps_receiveFrom fun _ _ htakes _ ↦ .of_takes hne htakes) w hdeaf

/-! ## Redirections -/

/-- A redirection of the input keeps its channel. -/
theorem fed_redirect (hgo : Runner.Feeds c go) (r : Code.Redirection)
    (h : Fed c w₀ ctx.endpoints w) :
    (redirect go ctx r).Leads w (fun ctx ↦ Fed c w₀ ctx.endpoints) (Fed c w₀ ctx.endpoints) := by
  obtain ⟨span, destination, mode, target⟩ := r
  unfold redirect
  refine (fed_leads h (keeps_evalExpr (hgo ctx) target)).bind fun values w₁ h₁ ↦ ?_
  refine (fed_leads h₁ (keeps_calm (calm_redirectionPath span values))).bind fun path w₂ h₂ ↦ ?_
  refine (fed_leads h₂ (keeps_calm (calm_openFile mode path))).bind fun stream w₃ h₃ ↦ ?_
  let e : Endpoint := { stream := some stream, channel := ctx.channel? w₃ destination }
  have hmade : Fed c w₀ ctx.endpoints (w₃.newEndpoint e).2 := h₃.after (.newEndpoint w₃ e)
  refine hmade.setEndpoint fun hdestination id hid ↦ ?_
  rw [← Option.some.inj hid]
  refine World.avoids_newEndpoint w₃ fun hchannel ↦ ?_
  rw [hdestination] at hchannel
  exact channel_ne_of_deaf h₃.deaf hchannel rfl

theorem feeds_withRedirections (hgo : Runner.Feeds c go) {act : Context → Act Unit}
    (hact : ∀ ctx, (act ctx).Keeps (FeedsFrom c ctx.endpoints))
    (redirections : List Code.Redirection) (h : Fed c w₀ ctx.endpoints w) :
    (withRedirections go ctx act redirections).Leads w (fun _ ↦ Feeds c w₀) (Feeds c w₀) := by
  have hdrop : ∀ (ctx : Context) w, Fed c w₀ ctx.endpoints w → Feeds c w₀ (ctx.drop w) :=
    fun ctx w h ↦ h.feeds.trans (feeds_drop ctx w)
  induction redirections generalizing ctx w with
  | nil => exact (fed_leads h (hact ctx)).ensuring (fun _ ↦ hdrop ctx) (hdrop ctx)
  | cons r rest ih =>
    exact ((fed_redirect hgo r h).orElseChange (hdrop ctx)).bind fun ctx' w' h' ↦ ih h'

/-! ## Forms -/

theorem feeds_evalForm (hgo : Runner.Feeds c go) (ctx : Context) (form : Code.Form) :
    (evalForm go ctx form).Keeps (FeedsFrom c ctx.endpoints) := by
  cases form with
  | command span head arguments redirections =>
    unfold evalForm
    refine (keeps_beginForm span).bind fun _ ↦ ?_
    refine (keeps_evalHead (hgo ctx) head).bind fun values ↦ ?_
    refine (keeps_soleFunction values).bind fun f ↦ ?_
    refine (keeps_evalExprs (hgo ctx) arguments).bind fun arguments ↦ ?_
    split
    · exact (hgo ctx).call f arguments
    · intro w hdeaf
      refine ((fed_fork (.start hdeaf) (utf8 "redir")).bind fun fork w' h ↦ ?_).state
      exact feeds_withRedirections hgo (fun ctx ↦ (hgo ctx).call f arguments) redirections h
  | assignment span values targets =>
    unfold evalForm
    refine (keeps_beginForm span).bind fun _ ↦ ?_
    refine (keeps_evalExprs (hgo ctx) values).bind fun values ↦ ?_
    refine (keeps_findTargets (hgo ctx) targets).bind fun destinations ↦ ?_
    refine (keeps_distribute _ _ values).bind fun _ ↦ ?_
    refine (Act.Keeps.modify fun w _ ↦ ?_).bind fun _ ↦ keeps_note rfl
    unfold bindCreated
    obtain ⟨scopes, heq, -⟩ :=
      World.foldl_define_eq ctx.scope (destinations.filterMap (·.created)) w
    rw [heq]
    exact .of_tables rfl rfl rfl

/-! ## Pipelines -/

theorem fed_attach (h : Fed c w₀ ctx.endpoints w) (n : Nat) {e : Option EndpointId}
    (he : n = 0 → ∀ id, e = some id → Avoids c id w) :
    (attach ctx n e).Leads w (fun ctx' w' ↦ Fed c w₀ ctx'.endpoints w' ∧ Feeds c w w')
      (Feeds c w₀) := by
  cases e with
  | none => exact ⟨h, .refl w⟩
  | some id => exact ⟨h.setEndpoint he, .setEndpoint w ctx.endpoints n (some id)⟩

/-- The reading end of a link refers to a new channel. -/
theorem fed_newLink (h : Fed c w₀ endpoints w) :
    newLink.Leads w (fun link w' ↦ Feeds c w w' ∧ Avoids c link.2 w') (Feeds c w₀) := by
  let line : Line := { channel := .ofCapacity linkCapacity, attended := true }
  let channel : ChannelId := w.newPipe.2.channels.size
  let output : Endpoint :=
    { stream := some w.newPipe.1.2.2, channel := some channel, closesChannel := true }
  let input : Endpoint := { stream := some w.newPipe.1.2.1, channel := some channel }
  have hpipe : Feeds c w w.newPipe.2 := .of_tables rfl rfl rfl
  have hline : Feeds c w (w.newPipe.2.newChannel line).2 := hpipe.trans (.newChannel _ line)
  have houtput := hline.trans (.newEndpoint _ output)
  have hnew : input.channel ≠ some c :=
    fun heq ↦ Nat.ne_of_gt h.deaf.channel (Option.some.inj heq)
  exact ⟨houtput.trans (.newEndpoint _ input), World.avoids_newEndpoint _ hnew⟩

theorem fed_linkBefore (h : Fed c w₀ endpoints w) (rest : List Code.Form) :
    (linkBefore rest).Leads w
      (fun link w' ↦ Fed c w₀ endpoints w' ∧ Feeds c w w' ∧
        ∀ id, link.map (·.2) = some id → Avoids c id w') (Feeds c w₀) := by
  unfold linkBefore
  split
  · exact ⟨h, .refl w, nofun⟩
  · exact (fed_newLink h).bind fun link w' ⟨hfeeds, hinput⟩ ↦
      ⟨h.after hfeeds, hfeeds, fun id hid ↦ Option.some.inj hid ▸ hinput⟩

/-- A stage reads from a fork of the input of the pipeline or from a link, and so does the next one.
-/
theorem fed_openStage (h : Fed c w₀ ctx.endpoints w) (number : Nat) {input : Option EndpointId}
    (hinput : ∀ id, input = some id → Avoids c id w) (rest : List Code.Form) :
    (openStage ctx number input rest).Leads w
      (fun stage w' ↦ Fed c w₀ stage.ctx.endpoints w' ∧ Fed c w₀ ctx.endpoints w' ∧
        ∀ id, stage.next = some id → Avoids c id w') (Feeds c w₀) := by
  have hfork : (ctx.fork (stageLabel number)).Leads w
      (fun fork w' ↦ Fed c w₀ fork.endpoints w' ∧ Feeds c w w') (Feeds c w₀) :=
    ⟨h.forkEndpoints, (Feeds.moves c).forkEndpoints w ctx.endpoints⟩
  refine hfork.bind fun fork w₁ ⟨h₁, hfeeds₁⟩ ↦ ?_
  refine (fed_attach h₁ 0 fun _ id hid ↦ (hinput id hid).after hfeeds₁.loses).bind
    fun reading w₂ ⟨h₂, hfeeds₂⟩ ↦ ?_
  refine (fed_linkBefore h₂ rest).bind fun link w₃ ⟨h₃, hfeeds₃, hlink⟩ ↦ ?_
  refine (fed_attach h₃ 1 nofun).bind fun writing w₄ ⟨h₄, hfeeds₄⟩ ↦ ?_
  refine ⟨h₄, h.after ?_, fun id hid ↦ (hlink id hid).after hfeeds₄.loses⟩
  exact ((hfeeds₁.trans hfeeds₂).trans hfeeds₃).trans hfeeds₄

theorem feeds_runStages (hgo : Runner.Feeds c go) (ctx : Context) (number : Nat)
    {input : Option EndpointId} (forms : List Code.Form) (h : Fed c w₀ ctx.endpoints w)
    (hinput : ∀ id, input = some id → Avoids c id w) :
    (runStages go ctx number input forms).Leads w (fun _ ↦ Feeds c w₀) (Feeds c w₀) := by
  induction forms generalizing number input w with
  | nil => exact h.feeds
  | cons form rest ih =>
    refine (fed_openStage h number hinput rest).bind fun stage w₁ ⟨h₁, hctx₁, hnext₁⟩ ↦ ?_
    have hform : (Act.apart (settled (evalForm go stage.ctx form))).Keeps
        (FeedsFrom c stage.ctx.endpoints) :=
      .apart Mobile.move (keeps_settled (feeds_evalForm hgo stage.ctx form))
    have hstage : ((Act.apart (settled (evalForm go stage.ctx form))).ensuring
        stage.ctx.finish).Leads w₁ (fun _ ↦ Feeds c w₁) (Feeds c w₁) := by
      have hfinish : ∀ w₂, Fed c w₁ stage.ctx.endpoints w₂ → Feeds c w₁ (stage.ctx.finish w₂) :=
        fun w₂ h₂ ↦ h₂.feeds.trans (feeds_finish stage.ctx w₂)
      exact (fed_leads (.start h₁.deaf) hform).ensuring (fun _ ↦ hfinish) hfinish
    refine (hstage.mono (fun _ _ h ↦ h) fun _ h ↦ h₁.feeds.trans h).bind
      fun result w₂ hfeeds₂ ↦ ?_
    have hclose : (closeInput stage.upper).Leads w₂ (fun _ ↦ Feeds c w₁) (Feeds c w₀) := by
      cases stage.upper with
      | none => exact hfeeds₂
      | some channel => exact hfeeds₂.trans (.closeChannel w₂ channel)
    refine hclose.bind fun _ w₃ hfeeds₃ ↦ ?_
    refine (ih (number + 1) (hctx₁.after hfeeds₃) fun id hid ↦ ?_).bind fun others w₄ h₄ ↦ h₄
    exact (hnext₁ id hid).after hfeeds₃.loses

theorem feeds_evalPipeline (hgo : Runner.Feeds c go) (ctx : Context) (forms : List Code.Form) :
    (evalPipeline go ctx forms).Keeps (FeedsFrom c ctx.endpoints) := by
  unfold evalPipeline
  split
  · exact feeds_evalForm hgo ctx _
  · refine .bind (fun w hdeaf ↦ ?_) fun results ↦ keeps_verdict results
    have hstages : (runStages go ctx 1 none forms).Leads w (fun _ ↦ Feeds c w) (Feeds c w) :=
      feeds_runStages hgo ctx 1 forms (.start hdeaf) nofun
    exact hstages.state

theorem feeds_evalBlock (hgo : Runner.Feeds c go) (ctx : Context) (block : Code.Block) :
    (evalBlock go ctx block).Keeps (FeedsFrom c ctx.endpoints) :=
  keeps_evalPipelines fun forms _ ↦ feeds_evalPipeline hgo ctx forms

/-! ## Requests -/

theorem feeds_bindParameters (scope : ScopeId) (names : List Bytes) (values : List Value) :
    (bindParameters scope names values).Keeps (FeedsFrom c endpoints) := by
  induction names generalizing values with
  | nil => exact .pure _
  | cons name names ih =>
    cases values with
    | nil => exact .pure _
    | cons v values =>
      exact .bind (keeps_calm (Act.calm_kindOf v)) fun kind ↦
        .bind (.modify fun w _ ↦ .of_tables rfl rfl rfl) fun _ ↦ ih values

/-- A closure body runs with forks of the endpoints of its caller. -/
theorem feeds_callClosure (hgo : Runner.Feeds c go) (ctx : Context) (closure : Closure)
    (arguments : List Value) :
    (callClosure go ctx closure arguments).Keeps (FeedsFrom c ctx.endpoints) := by
  unfold callClosure
  split
  · exact .raise _
  · refine .bind (keeps_newScope {}) fun scope ↦
      .bind (feeds_bindParameters scope _ _) fun _ w hdeaf ↦ ?_
    have hfork : (Act.change fun w ↦ w.forkEndpoints ctx.endpoints).Leads w
        (fun endpoints ↦ Fed c w endpoints) (Feeds c w) :=
      (Fed.start hdeaf).forkEndpoints
    refine (hfork.bind fun endpoints w₁ h₁ ↦ ?_).state
    let body : Context :=
      { name := closure.name, text := closure.text, label := utf8 "closure", scope
        outer := closure.captured, endpoints, chunk := closure.chunk }
    have hfinish : ∀ w₂, Fed c w body.endpoints w₂ → Feeds c w (body.finish w₂) :=
      fun w₂ h ↦ h.feeds.trans (feeds_finish body w₂)
    exact (fed_leads h₁ (.within Mobile.move (feeds_evalBlock hgo body closure.body))).ensuring
      (fun _ ↦ hfinish) hfinish

/-- A module runs with forks of the endpoints of whoever needs it. -/
theorem feeds_runModule (hgo : Runner.Feeds c go) (ctx : Context) (name file text : Bytes)
    (chunk : Script.Chunk) (code : Code.Block) :
    (runModule go ctx name file text chunk code).Keeps (FeedsFrom c ctx.endpoints) := by
  unfold runModule
  refine .bind (keeps_newScope {}) fun scope ↦ .bind (keeps_newScope {}) fun outer w hdeaf ↦ ?_
  have hfork : (Act.change fun w ↦ w.forkEndpoints ctx.endpoints).Leads w
      (fun endpoints ↦ Fed c w endpoints) (Feeds c w) :=
    (Fed.start hdeaf).forkEndpoints
  refine (hfork.bind fun endpoints w₁ h₁ ↦ ?_).state
  let body : Context :=
    { name := file, text, label := utf8 "module " ++ name, scope, outer, endpoints, chunk }
  have hdrop : ∀ w₂, Fed c w body.endpoints w₂ → Feeds c w (body.drop w₂) :=
    fun w₂ h ↦ h.feeds.trans (feeds_drop body w₂)
  have hbody : (Act.within ⟨0, text.length⟩ (evalBlock go body code).attempt).Keeps
      (FeedsFrom c body.endpoints) :=
    .within Mobile.move (.attempt (feeds_evalBlock hgo body code))
  refine ((fed_leads h₁ hbody).ensuring (fun _ ↦ hdrop) hdrop).bind fun error w₂ h₂ ↦ ?_
  split
  · exact h₂
  · exact h₂

/-- A capture takes values off a channel of its own. -/
theorem feeds_captureOutput (hgo : Runner.Feeds c go) (ctx : Context) (f : Fn)
    (arguments : List Value) :
    (captureOutput go ctx f arguments).Keeps (FeedsFrom c ctx.endpoints) := by
  intro w hdeaf
  unfold captureOutput
  have hpipe : (Act.change World.newPipe).Leads w (fun _ ↦ Fed c w ctx.endpoints) (Feeds c w) :=
    (Fed.start hdeaf).after (.of_tables rfl rfl rfl)
  refine (hpipe.bind fun (pipe, reader, writer) w₁ h₁ ↦ ?_).state
  let line : Line := { channel := .ofCapacity captureCapacity, attended := true }
  have hchannel : (Act.change fun w ↦ w.newChannel line).Leads w₁
      (fun channel w' ↦ Fed c w ctx.endpoints w' ∧ channel ≠ c) (Feeds c w) :=
    ⟨h₁.after (.newChannel w₁ line), Nat.ne_of_gt h₁.deaf.channel⟩
  refine hchannel.bind fun channel w₂ ⟨h₂, hne⟩ ↦ ?_
  have hendpoint : ∀ {w₂}, Fed c w ctx.endpoints w₂ → ∀ e : Endpoint,
      (Act.change fun w ↦ w.newEndpoint e).Leads w₂ (fun _ ↦ Fed c w ctx.endpoints) (Feeds c w) :=
    fun h e ↦ h.after (.newEndpoint _ e)
  refine (hendpoint h₂ _).bind fun output w₃ h₃ ↦ (hendpoint h₃ _).bind fun input w₄ h₄ ↦ ?_
  have hfork : (ctx.fork captureLabel).Leads w₄
      (fun fork w' ↦ Fed c w fork.endpoints w' ∧ Fed c w ctx.endpoints w') (Feeds c w) :=
    ⟨h₄.forkEndpoints, h₄.after ((Feeds.moves c).forkEndpoints w₄ ctx.endpoints)⟩
  refine hfork.bind fun fork w₅ ⟨h₅, hctx₅⟩ ↦ ?_
  have hset : (fork.setEndpoint 1 (some output)).Leads w₅
      (fun fork w' ↦ Fed c w fork.endpoints w' ∧ Fed c w ctx.endpoints w') (Feeds c w) :=
    ⟨h₅.setEndpoint nofun, hctx₅.after (.setEndpoint w₅ fork.endpoints 1 (some output))⟩
  refine hset.bind fun fork w₆ ⟨h₆, hctx₆⟩ ↦ ?_
  have hcleanup : ∀ w₇, Fed c w₆ fork.endpoints w₇ →
      Fed c w ctx.endpoints (((fork.finish w₇).closeChannel channel).dropEndpoint input) := by
    intro w₇ h₇
    have hfinish : Feeds c w₆ (fork.finish w₇) := h₇.feeds.trans (feeds_finish fork w₇)
    exact hctx₆.after ((hfinish.trans (.closeChannel _ channel)).trans (.dropEndpoint _ input))
  have hcall : (Act.apart (go (.call fork f arguments))).Keeps (FeedsFrom c fork.endpoints) :=
    .apart Mobile.move ((hgo fork).call f arguments)
  refine ((fed_leads (.start h₆.deaf) hcall).ensuring (fun _ ↦ hcleanup) fun w₇ h₇ ↦
    (hcleanup w₇ h₇).feeds).bind fun _ w₈ h₈ ↦ ?_
  have hgather : (gather channel pipe).Keeps (FeedsFrom c ctx.endpoints) :=
    keeps_gather (fun _ _ htakes _ ↦ .of_takes hne htakes) pipe
  exact (h₈.after (hgather w₈ h₈.deaf)).feeds

/-- Requests feed a channel from every context that is deaf to it. -/
theorem feeds_run (c : ChannelId) (setup : Setup) (fuel : Nat) :
    Runner.Feeds c (run setup fuel) := by
  induction fuel with
  | zero => exact fun ctx ↦ ⟨fun _ _ ↦ .halt _, fun _ w _ _ ↦ .refl w⟩
  | succ fuel ih =>
    refine fun ctx ↦ ⟨fun f arguments ↦ ?_, fun name w hname ↦ ?_⟩
    · exact keeps_callFn (ih ctx) (usesEndpoints_of_input (feeds_takesInput ctx))
        (feeds_captureOutput ih ctx) (feeds_callClosure ih ctx) f arguments
    · exact keeps_loadModule (feeds_runModule ih ctx) name w hname

end Conduit.Eval
