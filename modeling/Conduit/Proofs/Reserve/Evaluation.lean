import Conduit.Proofs.Bindings
import Conduit.Proofs.Capturing.Tap
import Conduit.Proofs.Reserve.Builtins

/-!
# Reserves under Evaluation

Contexts are forked, and other endpoints are put in them.  A fork gives access to what the context
gives access to; a redirection puts a file in the place of a stream; and the links of pipelines and
the channel and the pipe of a capture are new, while what is reserved was there before.  So every
context that evaluation makes is clear of a reserve that the first one is clear of, and evaluation
respects it.
-/

namespace Conduit.Eval

open World (Clear Harmless Outside Respected Respects RespectsFrom RespectsStream)
open Act (Leads)

variable {r : Reserve} {go : Runner} {ctx : Context} {w w₀ : World}
  {endpoints : List (Option EndpointId)}

/-- Requests respect the reserve from every context that is clear of it. -/
def Runner.Respects (r : Reserve) (go : Runner) : Prop :=
  ∀ ctx, Runner.KeepsIn (RespectsFrom r ctx.endpoints) go ctx

theorem respected_leads {α : Type} {act : Act α} (h : Respected r w₀ endpoints w)
    (hact : act.Keeps (RespectsFrom r endpoints)) :
    act.Leads w (fun _ ↦ Respected r w₀ endpoints) (Respected r w₀ endpoints) :=
  (Leads.ofKeeps hact).mono (fun _ _ hw ↦ h.after (hw h.clear)) fun _ hw ↦ h.after (hw h.clear)

/-! ## Contexts -/

theorem respected_fork (h : Respected r w₀ ctx.endpoints w) (label : Bytes) :
    (ctx.fork label).Leads w (fun fork ↦ Respected r w₀ fork.endpoints) (Respects r w₀) :=
  h.forkEndpoints

theorem respects_drop (ctx : Context) (w : World) : Respects r w (ctx.drop w) :=
  .dropEndpoints w ctx.endpoints

theorem respects_finish (h : Respected r w₀ ctx.endpoints w) : Respects r w₀ (ctx.finish w) :=
  (h.respects.trans h.clear.closeEndpoints).trans (respects_drop ctx _)

/-! ## Redirections -/

/-- A file that has been opened has a path, and the stream for it is new. -/
theorem respected_openFile (h : Respected r w₀ endpoints w) (mode : Host.OpenMode) (path : Bytes) :
    (openFile mode path).Leads w
      (fun sid w' ↦ Respected r w₀ endpoints w' ∧ RespectsStream r sid w')
      (Respected r w₀ endpoints) := by
  unfold Leads openFile
  rcases hopen : w.files.openFile w.directory mode path with reason | ⟨files, node⟩
  · exact h
  · let device : Device := .file node 0 (accessOf mode)
    have hfiles : Respects r w { w with files } :=
      .changeFiles w fun _ _ hother ↦ (hother.openFile hopen).1
    have hincludes : w.Includes r := h.clear.includes
    refine ⟨h.after (hfiles.trans (.newStream _ device true)), { device },
      Table.get?_push_size w.streams _, fun hr ↦ ?_, fun hr ↦ ?_⟩
    · exact ((hincludes.files node hr).openFile hopen).2 rfl
    · exact Nat.lt_irrefl _ (hincludes.streams _ hr)

/-- A redirection keeps the channel of the endpoint that it replaces. -/
theorem respected_redirect (hgo : Runner.Respects r go) (redirection : Code.Redirection)
    (h : Respected r w₀ ctx.endpoints w) :
    (redirect go ctx redirection).Leads w (fun ctx ↦ Respected r w₀ ctx.endpoints)
      (Respected r w₀ ctx.endpoints) := by
  obtain ⟨span, destination, mode, target⟩ := redirection
  unfold redirect
  refine (respected_leads h (keeps_evalExpr (hgo ctx) target)).bind fun values w₁ h₁ ↦ ?_
  have hpath : (redirectionPath span values).Keeps (RespectsFrom r ctx.endpoints) := by
    unfold redirectionPath
    split
    · exact .ofExcept _
    · exact .raise _
  refine (respected_leads h₁ hpath).bind fun path w₂ h₂ ↦ ?_
  refine (respected_openFile h₂ mode path).bind fun stream w₃ ⟨h₃, hstream⟩ ↦ ?_
  let e : Endpoint := { stream := some stream, channel := ctx.channel? w₃ destination }
  have hharmless : Harmless r destination e w₃ := by
    refine ⟨fun hinput c hc ↦ ?_, fun houtput c hc ↦ ?_,
      fun sid hsid ↦ Option.some.inj hsid ▸ hstream⟩
    · subst hinput
      exact not_receiving_of_clear h₃.clear hc
    · obtain rfl : destination = 1 := houtput.resolve_right nofun
      exact not_sending_of_clear h₃.clear hc
  have hmade : Respected r w₀ ctx.endpoints (w₃.newEndpoint e).2 := h₃.after (.newEndpoint w₃ e)
  exact hmade.setEndpoint fun id hid ↦ Option.some.inj hid ▸ .newEndpoint hharmless

theorem respects_withRedirections (hgo : Runner.Respects r go) {act : Context → Act Unit}
    (hact : ∀ ctx, (act ctx).Keeps (RespectsFrom r ctx.endpoints))
    (redirections : List Code.Redirection) (h : Respected r w₀ ctx.endpoints w) :
    (withRedirections go ctx act redirections).Leads w (fun _ ↦ Respects r w₀) (Respects r w₀) := by
  have hdrop : ∀ (ctx : Context) w, Respected r w₀ ctx.endpoints w → Respects r w₀ (ctx.drop w) :=
    fun ctx w h ↦ h.respects.trans (respects_drop ctx w)
  induction redirections generalizing ctx w with
  | nil => exact (respected_leads h (hact ctx)).ensuring (fun _ ↦ hdrop ctx) (hdrop ctx)
  | cons redirection rest ih =>
    exact ((respected_redirect hgo redirection h).orElseChange (hdrop ctx)).bind
      fun ctx' w' h' ↦ ih h'

/-! ## Forms -/

theorem respects_evalForm (hgo : Runner.Respects r go) (ctx : Context) (form : Code.Form) :
    (evalForm go ctx form).Keeps (RespectsFrom r ctx.endpoints) := by
  cases form with
  | command span head arguments redirections =>
    unfold evalForm
    refine (keeps_beginForm span).bind fun _ ↦ ?_
    refine (keeps_evalHead (hgo ctx) head).bind fun values ↦ ?_
    refine (keeps_soleFunction values).bind fun f ↦ ?_
    refine (keeps_evalExprs (hgo ctx) arguments).bind fun arguments ↦ ?_
    split
    · exact (hgo ctx).call f arguments
    · intro w hclear
      refine ((respected_fork (.start hclear) (utf8 "redir")).bind fun fork w' h ↦ ?_).state
      exact respects_withRedirections hgo (fun ctx ↦ (hgo ctx).call f arguments) redirections h
  | assignment span values targets =>
    unfold evalForm
    refine (keeps_beginForm span).bind fun _ ↦ ?_
    refine (keeps_evalExprs (hgo ctx) values).bind fun values ↦ ?_
    refine (keeps_findTargets (hgo ctx) targets).bind fun destinations ↦ ?_
    refine (keeps_distribute _ _ values).bind fun _ ↦ ?_
    refine (Act.Keeps.modify fun w _ ↦ ?_).bind fun _ ↦ keeps_note rfl
    unfold bindCreated
    obtain ⟨scopes, heq, -⟩ :=
      World.foldl_define_eq ctx.scope (destinations.filterMap (·.created)) w
    rw [heq]
    exact .of_dry ⟨rfl, rfl, rfl, rfl, rfl⟩

/-! ## Pipelines -/

theorem respected_attach (h : Respected r w₀ ctx.endpoints w) {n : Nat} {e : Option EndpointId}
    (he : ∀ id, e = some id → Outside r n id w) :
    (attach ctx n e).Leads w
      (fun ctx' w' ↦ Respected r w₀ ctx'.endpoints w' ∧ Respects r w w' ∧
        ∀ m, World.slot ctx'.endpoints m =
          if m = n then e.or (World.slot ctx.endpoints m) else World.slot ctx.endpoints m)
      (Respects r w₀) := by
  cases e with
  | none => exact ⟨h, .refl w, fun _ ↦ (ite_self _).symm⟩
  | some id =>
    exact ⟨h.setEndpoint he, .setEndpoint w ctx.endpoints n (some id),
      fun m ↦ World.slot_setEndpoint w ctx.endpoints n m (some id)⟩

/-- What is made when something is reserved is not reserved. -/
theorem not_reserved_new (h : w.Includes r) :
    (¬ r.receiving w.channels.size ∧ ¬ r.sending w.channels.size) ∧
      ¬ r.reading w.pipes.size ∧ ¬ r.writing w.pipes.size :=
  ⟨⟨fun hr ↦ Nat.lt_irrefl _ (h.channels _ (.inl hr)),
    fun hs ↦ Nat.lt_irrefl _ (h.channels _ (.inr hs))⟩,
    fun hr ↦ Nat.lt_irrefl _ (h.pipes _ (.inl hr)), fun hw ↦ Nat.lt_irrefl _ (h.pipes _ (.inr hw))⟩

/-- The ends of a new pipe give access to that pipe only. -/
theorem respectsStream_newPipe (h : w.Includes r) :
    RespectsStream r w.newPipe.1.2.1 w.newPipe.2 ∧
      RespectsStream r w.newPipe.1.2.2 w.newPipe.2 := by
  obtain ⟨-, hreading, hwriting⟩ := not_reserved_new h
  have hnew : ∀ sid, w.streams.size ≤ sid → ¬ r.moving sid :=
    fun sid hle hr ↦ Nat.not_lt_of_le hle (h.streams sid hr)
  have hlast : w.newPipe.1.2.2 = w.streams.size + 1 := Table.size_push w.streams _
  refine ⟨⟨{ device := .pipeReader w.pipes.size }, ?_, hreading, hnew _ (Nat.le_refl _)⟩,
    { device := .pipeWriter w.pipes.size }, ?_, hwriting, hnew _ (hlast ▸ Nat.le_succ _)⟩
  · exact (Table.get?_push_of_lt (by simp [World.newStream, World.newPipe])).trans
      (Table.get?_push_size w.streams _)
  · exact Table.get?_push_size (w.streams.push _) _

/-- The ends of a link give access to a new pipe and a new channel only. -/
theorem respected_newLink (h : w.Includes r) :
    newLink.Leads w
      (fun link w' ↦ Respects r w w' ∧ Outside r 1 link.1 w' ∧ ∀ n, Outside r n link.2 w')
      (fun _ ↦ False) := by
  let line : Line := { channel := .ofCapacity linkCapacity, attended := true }
  let channel : ChannelId := w.newPipe.2.channels.size
  let output : Endpoint :=
    { stream := some w.newPipe.1.2.2, channel := some channel, closesChannel := true }
  let input : Endpoint := { stream := some w.newPipe.1.2.1, channel := some channel }
  obtain ⟨⟨hreceiving, hsending⟩, -⟩ := not_reserved_new h
  obtain ⟨hreader, hwriter⟩ := respectsStream_newPipe h
  have hpipe : Respects r w w.newPipe.2 := .newPipe w
  have hline : Respects r w.newPipe.2 (w.newPipe.2.newChannel line).2 := .newChannel _ line
  have houtput : Harmless r 1 output (w.newPipe.2.newChannel line).2 :=
    ⟨nofun, fun _ c hc ↦ Option.some.inj hc ▸ hsending,
      fun sid hsid ↦ Option.some.inj hsid ▸ hwriter.after hline⟩
  let wOutput : World := ((w.newPipe.2.newChannel line).2.newEndpoint output).2
  have hmade : Respects r (w.newPipe.2.newChannel line).2 wOutput := .newEndpoint _ output
  have hinput : ∀ n, Harmless r n input wOutput := fun _ ↦
    ⟨fun _ c hc ↦ Option.some.inj hc ▸ hreceiving, fun _ c hc ↦ Option.some.inj hc ▸ hsending,
      fun sid hsid ↦ Option.some.inj hsid ▸ (hreader.after hline).after hmade⟩
  exact ⟨((hpipe.trans hline).trans hmade).trans (.newEndpoint _ input),
    (World.Outside.newEndpoint houtput).after (.newEndpoint _ input),
    fun n ↦ .newEndpoint (hinput n)⟩

theorem respected_linkBefore (h : Respected r w₀ endpoints w) (rest : List Code.Form) :
    (linkBefore rest).Leads w
      (fun link w' ↦ Respected r w₀ endpoints w' ∧ Respects r w w' ∧
        (∀ id, link.map (·.1) = some id → Outside r 1 id w') ∧
        ∀ id, link.map (·.2) = some id → ∀ n, Outside r n id w') (Respects r w₀) := by
  unfold linkBefore
  split
  · exact ⟨h, .refl w, nofun, nofun⟩
  · refine ((respected_newLink h.clear.includes).mono (fun _ _ h ↦ h) fun _ ↦ False.elim).bind
      fun link w' ⟨hrespects, houtput, hinput⟩ ↦ ?_
    exact ⟨h.after hrespects, hrespects, fun id hid ↦ Option.some.inj hid ▸ houtput,
      fun id hid ↦ Option.some.inj hid ▸ hinput⟩

/-- A stage has forks of the endpoints of the pipeline and ends of links.  The channel that it reads
from and the endpoint for the next stage belong to links. -/
theorem respected_openStage (h : Respected r w₀ ctx.endpoints w) (number : Nat)
    {input : Option EndpointId} (hinput : ∀ id, input = some id → ∀ n, Outside r n id w)
    (rest : List Code.Form) :
    (openStage ctx number input rest).Leads w
      (fun stage w' ↦ Respected r w₀ stage.ctx.endpoints w' ∧ Respected r w₀ ctx.endpoints w' ∧
        (∀ c, stage.upper = some c → ¬ r.sending c) ∧
        ∀ id, stage.next = some id → ∀ n, Outside r n id w') (Respects r w₀) := by
  have hfork : (ctx.fork (stageLabel number)).Leads w
      (fun fork w' ↦ Respected r w₀ fork.endpoints w' ∧ Respects r w w') (Respects r w₀) :=
    ⟨h.forkEndpoints, .forkEndpoints w ctx.endpoints⟩
  refine hfork.bind fun fork w₁ ⟨h₁, hrespects₁⟩ ↦ ?_
  refine (respected_attach h₁ fun id hid ↦ (hinput id hid 0).after hrespects₁).bind
    fun reading w₂ ⟨h₂, hrespects₂, hslots₂⟩ ↦ ?_
  refine (respected_linkBefore h₂ rest).bind fun link w₃ ⟨h₃, hrespects₃, houtput₃, hinput₃⟩ ↦ ?_
  refine (respected_attach h₃ houtput₃).bind fun writing w₄ ⟨h₄, hrespects₄, hslots₄⟩ ↦ ?_
  have hrespects : Respects r w w₄ :=
    ((hrespects₁.trans hrespects₂).trans hrespects₃).trans hrespects₄
  refine ⟨h₄, h.after hrespects, fun c hc ↦ ?_, fun id hid n ↦ (hinput₃ id hid n).after hrespects₄⟩
  cases input with
  | none => cases hc
  | some id =>
    have hslot : World.slot writing.endpoints 0 = some id := by
      rw [hslots₄, if_neg (by decide), hslots₂, if_pos rfl, Option.some_or]
    have hharmless : Harmless r 1 (w₄.endpoint id) w₄ :=
      ((hinput id rfl 1).after hrespects).harmless
    refine hharmless.sending (.inl rfl) c ?_
    simpa [Context.channel?, Context.endpoint?, hslot] using hc

theorem respects_runStages (hgo : Runner.Respects r go) (ctx : Context) (number : Nat)
    {input : Option EndpointId} (forms : List Code.Form) (h : Respected r w₀ ctx.endpoints w)
    (hinput : ∀ id, input = some id → ∀ n, Outside r n id w) :
    (runStages go ctx number input forms).Leads w (fun _ ↦ Respects r w₀) (Respects r w₀) := by
  induction forms generalizing number input w with
  | nil => exact h.respects
  | cons form rest ih =>
    refine (respected_openStage h number hinput rest).bind
      fun stage w₁ ⟨h₁, hctx₁, hupper₁, hnext₁⟩ ↦ ?_
    have hform : (Act.apart (settled (evalForm go stage.ctx form))).Keeps
        (RespectsFrom r stage.ctx.endpoints) :=
      .apart Mobile.move (keeps_settled (respects_evalForm hgo stage.ctx form))
    have hstage : ((Act.apart (settled (evalForm go stage.ctx form))).ensuring
        stage.ctx.finish).Leads w₁ (fun _ ↦ Respects r w₁) (Respects r w₁) :=
      (respected_leads (.start h₁.clear) hform).ensuring (fun _ _ ↦ respects_finish)
        fun _ ↦ respects_finish
    refine (hstage.mono (fun _ _ h ↦ h) fun _ h ↦ h₁.respects.trans h).bind
      fun result w₂ hrespects₂ ↦ ?_
    have hclose : (closeInput stage.upper).Leads w₂ (fun _ ↦ Respects r w₁) (Respects r w₀) := by
      rcases hupper : stage.upper with _ | channel
      · exact hrespects₂
      · exact hrespects₂.trans (.closeChannel w₂ (hupper₁ channel hupper))
    refine hclose.bind fun _ w₃ hrespects₃ ↦ ?_
    refine (ih (number + 1) (hctx₁.after hrespects₃) fun id hid n ↦ ?_).bind fun others w₄ h₄ ↦ h₄
    exact (hnext₁ id hid n).after hrespects₃

theorem respects_evalPipeline (hgo : Runner.Respects r go) (ctx : Context)
    (forms : List Code.Form) :
    (evalPipeline go ctx forms).Keeps (RespectsFrom r ctx.endpoints) := by
  unfold evalPipeline
  split
  · exact respects_evalForm hgo ctx _
  · refine .bind (fun w hclear ↦ ?_) fun results ↦ keeps_verdict results
    have hstages : (runStages go ctx 1 none forms).Leads w (fun _ ↦ Respects r w) (Respects r w) :=
      respects_runStages hgo ctx 1 forms (.start hclear) nofun
    exact hstages.state

theorem respects_evalBlock (hgo : Runner.Respects r go) (ctx : Context) (block : Code.Block) :
    (evalBlock go ctx block).Keeps (RespectsFrom r ctx.endpoints) :=
  keeps_evalPipelines fun forms _ ↦ respects_evalPipeline hgo ctx forms

/-! ## Requests -/

/-- A closure body runs with forks of the endpoints of its caller. -/
theorem respects_callClosure (hgo : Runner.Respects r go) (ctx : Context) (closure : Closure)
    (arguments : List Value) :
    (callClosure go ctx closure arguments).Keeps (RespectsFrom r ctx.endpoints) := by
  unfold callClosure
  split
  · exact .raise _
  · refine .bind (keeps_newScope {}) fun scope ↦
      .bind ((dry_bindParameters scope _ _).mono fun _ _ h _ ↦ .of_dry h) fun _ w hclear ↦ ?_
    have hfork : (Act.change fun w ↦ w.forkEndpoints ctx.endpoints).Leads w
        (fun endpoints ↦ Respected r w endpoints) (Respects r w) :=
      (Respected.start hclear).forkEndpoints
    refine (hfork.bind fun endpoints w₁ h₁ ↦ ?_).state
    let body : Context :=
      { name := closure.name, text := closure.text, label := utf8 "closure", scope
        outer := closure.captured, endpoints, chunk := closure.chunk }
    have hbody : (Act.within closure.body.span (evalBlock go body closure.body)).Keeps
        (RespectsFrom r body.endpoints) :=
      .within Mobile.move (respects_evalBlock hgo body closure.body)
    have hfinish : ∀ w₂, Respected r w body.endpoints w₂ → Respects r w (body.finish w₂) :=
      fun w₂ ↦ respects_finish
    exact (respected_leads h₁ hbody).ensuring (fun _ ↦ hfinish) hfinish

/-- A module runs with forks of the endpoints of whoever needs it. -/
theorem respects_runModule (hgo : Runner.Respects r go) (ctx : Context) (name file text : Bytes)
    (chunk : Script.Chunk) (code : Code.Block) :
    (runModule go ctx name file text chunk code).Keeps (RespectsFrom r ctx.endpoints) := by
  unfold runModule
  refine .bind (keeps_newScope {}) fun scope ↦ .bind (keeps_newScope {}) fun outer w hclear ↦ ?_
  have hfork : (Act.change fun w ↦ w.forkEndpoints ctx.endpoints).Leads w
      (fun endpoints ↦ Respected r w endpoints) (Respects r w) :=
    (Respected.start hclear).forkEndpoints
  refine (hfork.bind fun endpoints w₁ h₁ ↦ ?_).state
  let body : Context :=
    { name := file, text, label := utf8 "module " ++ name, scope, outer, endpoints, chunk }
  have hdrop : ∀ w₂, Respected r w body.endpoints w₂ → Respects r w (body.drop w₂) :=
    fun w₂ h ↦ h.respects.trans (respects_drop body w₂)
  have hbody : (Act.within ⟨0, text.length⟩ (evalBlock go body code).attempt).Keeps
      (RespectsFrom r body.endpoints) :=
    .within Mobile.move (.attempt (respects_evalBlock hgo body code))
  refine ((respected_leads h₁ hbody).ensuring (fun _ ↦ hdrop) hdrop).bind fun error w₂ h₂ ↦ ?_
  split
  · exact h₂
  · exact h₂

/-- Where the call under capture respects a reserve, the capture respects a smaller one that the
receiving ends of the tap are not in. -/
theorem captureOutput_respects {r' : Reserve} (hr' : r'.Within r) {f : Fn} {arguments : List Value}
    (hclear : Clear r (tapped ctx w).endpoints (tappedWorld ctx w))
    (hcall : Respects r (tappedWorld ctx w) (tappedCall go ctx f arguments w).2)
    (hsending : ¬ r.sending w.nextTap.channel) (hreceiving : ¬ r'.receiving w.nextTap.channel)
    (hreading : ¬ r'.reading w.nextTap.pipe) :
    Respects r' w (captureOutput go ctx f arguments w).2 := by
  rw [captureOutput_eq]
  generalize tappedCall go ctx f arguments w = ended at hcall ⊢
  obtain ⟨how, w'⟩ := ended
  have hfinished : Respects r (tappedWorld ctx w) ((tapped ctx w).finish w') :=
    respects_finish ((Respected.start hclear).after hcall)
  have hclosed : Respects r ((tapped ctx w).finish w')
      (((tapped ctx w).finish w').closeChannel w.nextTap.channel) :=
    .closeChannel _ hsending
  have huntapped : Respects r w (untapped ctx w w') :=
    (((Respects.addTap w).trans (tappedWorld_respects ctx w)).trans
      (hfinished.trans hclosed)).trans (.dropEndpoint _ _)
  have hbefore := huntapped.mono hr'
  cases how with
  | done =>
    have hdrained : Respects r' (untapped ctx w w')
        ((untapped ctx w w').modifyChannel w.nextTap.channel fun c ↦ c.drain.1) :=
      .of_takes hreceiving (.drain _ _)
    exact (hbefore.trans hdrained).trans
      (.modifyPipe _ fun _ ↦ ⟨fun hr ↦ absurd hr hreading, fun _ ↦ List.nil_suffix⟩)
  | raised | foreign | halted => exact hbefore

/-- A capture gives access to a pipe and a channel of its own. -/
theorem respects_captureOutput (hgo : Runner.Respects r go) (ctx : Context) (f : Fn)
    (arguments : List Value) :
    (captureOutput go ctx f arguments).Keeps (RespectsFrom r ctx.endpoints) := by
  intro w hclear
  obtain ⟨⟨hreceiving, hsending⟩, hreading, hwriting⟩ := not_reserved_new hclear.includes
  have hharmless : Harmless r 1 w.nextTap.outputEndpoint w.addTap := by
    refine ⟨nofun, fun _ c hc ↦ Option.some.inj hc ▸ hsending, fun sid hsid ↦ ?_⟩
    obtain rfl : w.nextTap.writer = sid := Option.some.inj hsid
    exact ⟨_, w.addTap_ends.2, hwriting,
      fun hmoving ↦ w.nextTap_writer_not_lt (hclear.includes.streams _ hmoving)⟩
  have hoffered : Outside r 1 w.nextTap.output w.addTap := ⟨_, w.addTap_output, hharmless⟩
  have htapped : Clear r (tapped ctx w).endpoints (tappedWorld ctx w) :=
    (hclear.after (.addTap w)).forkEndpoints.setEndpoint fun id hid ↦
      Option.some.inj hid ▸ hoffered.after (.forkEndpoints _ _)
  have hcall : (Act.apart (go (.call (tapped ctx w) f arguments))).Keeps
      (RespectsFrom r (tapped ctx w).endpoints) :=
    .apart Mobile.move ((hgo _).call f arguments)
  exact captureOutput_respects (.refl r) htapped (hcall _ htapped) hsending hreceiving hreading

/-- Requests respect a reserve from every context that is clear of it. -/
theorem respects_run (r : Reserve) (setup : Setup) (fuel : Nat) :
    Runner.Respects r (run setup fuel) := by
  induction fuel with
  | zero => exact fun ctx ↦ ⟨fun _ _ ↦ .halt _, fun _ w _ _ ↦ .refl w⟩
  | succ fuel ih =>
    refine fun ctx ↦ ⟨fun f arguments ↦ ?_, fun name w hname ↦ ?_⟩
    · exact keeps_callFn (ih ctx) (respects_usesEndpoints ctx) (respects_captureOutput ih ctx)
        (respects_callClosure ih ctx) f arguments
    · exact keeps_loadModule (respects_runModule ih ctx) name w hname

end Conduit.Eval
