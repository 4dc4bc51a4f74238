import Conduit.Proofs.Bindings
import Conduit.Proofs.Ownership

/-!
# Ownership under Evaluation

Contexts that evaluation closes or lets go of have been forked for that purpose, and so have the
endpoints that were put in their places.  Each construct that makes such a context therefore leaves
every endpoint steady that was there before, with all its error paths.
-/

namespace Conduit.Eval

open World (Calm Steady Owned Fresh Linked Loses)
open Act (Leads)

variable {go : Runner} {ctx : Context} {w w₀ : World} {endpoints : List (Option EndpointId)}

/-! ## Contexts -/

theorem owned_leads {α : Type} {act : Act α} (h : Owned w₀ endpoints w) (hact : act.Keeps Steady) :
    act.Leads w (fun _ ↦ Owned w₀ endpoints) (Owned w₀ endpoints) :=
  (Leads.ofKeeps hact).mono (fun _ _ hw ↦ h.after hw) fun _ hw ↦ h.after hw

theorem owned_fork (h : Steady w₀ w) (ctx : Context) (label : Bytes) :
    (ctx.fork label).Leads w (fun fork w' ↦ Owned w₀ fork.endpoints w' ∧ Steady w w') (Steady w₀) :=
  ⟨.forkEndpoints h ctx.endpoints, .forkEndpoints w ctx.endpoints⟩

theorem steady_drop (h : Owned w₀ ctx.endpoints w) : Steady w₀ (ctx.drop w) :=
  h.dropEndpoints.steady

theorem steady_finish (h : Owned w₀ ctx.endpoints w) : Steady w₀ (ctx.finish w) :=
  h.closeEndpoints.dropEndpoints.steady

theorem loses_finish (ctx : Context) (w : World) : Loses w (ctx.finish w) :=
  (World.Loses.closeEndpoints w ctx.endpoints).trans (.dropEndpoints _ ctx.endpoints)

/-! ## Redirections -/

theorem openFile_exists (mode : Host.OpenMode) (path : Bytes) (w : World) :
    (openFile mode path).Leads w (fun stream w' ↦ (w'.streams.get? stream).isSome)
      fun _ ↦ True := by
  unfold Leads openFile
  rcases w.files.openFile w.directory mode path with reason | ⟨files, node⟩
  · trivial
  · simp [World.newStream]

/-- A redirection replaces an owned endpoint by another one. -/
theorem owned_redirect (hgo : Runner.Keeps Steady go) (r : Code.Redirection)
    (h : Owned w₀ ctx.endpoints w) :
    (redirect go ctx r).Leads w (fun ctx ↦ Owned w₀ ctx.endpoints) (Owned w₀ ctx.endpoints) := by
  obtain ⟨span, destination, mode, target⟩ := r
  unfold redirect
  refine (owned_leads h (keeps_evalExpr (hgo.inContext ctx) target)).bind fun values w₁ h₁ ↦ ?_
  refine (owned_leads h₁ (keeps_calm (calm_redirectionPath span values))).bind fun path w₂ h₂ ↦ ?_
  have hopen := (openFile_exists mode path w₂).keeping (keeps_calm (R := Steady) (calm_openFile mode path))
  refine (hopen.mono (fun _ _ h ↦ h) fun _ h ↦ h₂.after h.2).bind fun stream w₃ ⟨hstream, h₃⟩ ↦ ?_
  have hmade := (h₂.after h₃).newEndpoint
    (e := { stream := some stream, channel := ctx.channel? w₃ destination })
    (fun _ sid hsid ↦ Option.some.inj hsid ▸ hstream) nofun
  have hset := (hmade.mono fun id hid ↦ List.mem_cons_of_mem _ hid).setEndpoint destination
    fun id hid ↦ hmade.fresh id (hid ▸ List.mem_cons_self)
  exact hset

theorem steady_withRedirections (hgo : Runner.Keeps Steady go) {act : Context → Act Unit}
    (hact : ∀ ctx, (act ctx).Keeps Steady) (redirections : List Code.Redirection)
    (h : Owned w₀ ctx.endpoints w) :
    (withRedirections go ctx act redirections).Leads w (fun _ ↦ Steady w₀) (Steady w₀) := by
  induction redirections generalizing ctx w with
  | nil =>
    have hdone := owned_leads h (hact ctx)
    exact hdone.ensuring (fun _ w' ↦ steady_drop) fun w' ↦ steady_drop
  | cons r rest ih =>
    have hfirst := (owned_redirect hgo r h).orElseChange fun w' ↦ steady_drop
    exact hfirst.bind fun ctx' w' h' ↦ ih h'

/-! ## Forms -/

theorem steady_bindCreated (s : ScopeId) (destinations : List Destination) (w : World) :
    Steady w (bindCreated s destinations w) := by
  unfold bindCreated
  obtain ⟨scopes, heq, -⟩ := World.foldl_define_eq s (destinations.filterMap (·.created)) w
  rw [heq]
  exact .of_tables rfl rfl rfl

theorem steady_evalForm (hgo : Runner.Keeps Steady go) (ctx : Context) (form : Code.Form) :
    (evalForm go ctx form).Keeps Steady := by
  cases form with
  | command span head arguments redirections =>
    unfold evalForm
    refine (keeps_beginForm span).bind fun _ ↦ ?_
    refine (keeps_evalHead (hgo.inContext ctx) head).bind fun values ↦ ?_
    refine (keeps_soleFunction values).bind fun f ↦ ?_
    refine (keeps_evalExprs (hgo.inContext ctx) arguments).bind fun arguments ↦ ?_
    split
    · exact hgo.call ctx f arguments
    · intro w
      have hfork := owned_fork (.refl w) ctx (utf8 "redir")
      refine (hfork.bind fun fork w' ⟨h, _⟩ ↦ ?_).state
      exact steady_withRedirections hgo (fun ctx ↦ hgo.call ctx f arguments) redirections h
  | assignment span values targets =>
    unfold evalForm
    refine (keeps_beginForm span).bind fun _ ↦ ?_
    refine (keeps_evalExprs (hgo.inContext ctx) values).bind fun values ↦ ?_
    refine (keeps_findTargets (hgo.inContext ctx) targets).bind fun destinations ↦ ?_
    refine (keeps_distribute _ _ values).bind fun _ ↦ ?_
    refine (Act.Keeps.modify (steady_bindCreated ctx.scope destinations)).bind fun _ ↦ ?_
    exact keeps_note rfl

/-! ## Pipelines -/

/-- A context takes over an endpoint at a position, if there is one to take. -/
theorem owned_attach (h : Owned w₀ ctx.endpoints w) (n : Nat) {e : Option EndpointId}
    (he : ∀ id, e = some id → Fresh w₀ id w) :
    (attach ctx n e).Leads w
      (fun ctx' w' ↦ Owned w₀ ctx'.endpoints w' ∧ Loses w w' ∧
        (e.isSome → World.slot ctx'.endpoints n = e) ∧
          ∀ m, m ≠ n → World.slot ctx'.endpoints m = World.slot ctx.endpoints m)
      (Steady w₀) := by
  cases e with
  | none => exact ⟨h, .refl w, nofun, fun m _ ↦ rfl⟩
  | some id =>
    refine ⟨h.setEndpoint n he, .setEndpoint w _ n (some id), fun _ ↦ ?_, fun m hm ↦ ?_⟩
    · exact (World.slot_setEndpoint w _ n n _).trans (if_pos rfl)
    · exact (World.slot_setEndpoint w _ n m _).trans (if_neg hm)

/-- The two streams of a new pipe exist. -/
theorem newPipe_streams (w : World) :
    (w.newPipe.2.streams.get? w.newPipe.1.2.1).isSome ∧
      (w.newPipe.2.streams.get? w.newPipe.1.2.2).isSome := by
  constructor
  · simp [World.newPipe, World.newStream, Table.get?, Table.push, Table.size]
  · simp [World.newPipe, World.newStream, Table.get?, Table.push, Table.size]

/-- The endpoints of a link are new, and the one to read from refers to a new channel. -/
theorem owned_newLink (h : Owned w₀ endpoints w) :
    newLink.Leads w
      (fun link w' ↦ Owned w₀ (some link.1 :: endpoints) w' ∧ Steady w w' ∧ Linked w₀ link.2 w')
      (Steady w₀) := by
  obtain ⟨hreader, hwriter⟩ := newPipe_streams w
  let line : Line := { channel := .ofCapacity linkCapacity, attended := true }
  have hpipe : Steady w w.newPipe.2 := Persistent.calm (.newPipe w)
  have hline : Steady w.newPipe.2 (w.newPipe.2.newChannel line).2 :=
    Persistent.calm (.newChannel _ rfl)
  have hchannel : w₀.channels.size ≤ w.newPipe.2.channels.size := h.steady.channels.size_le
  let output : Endpoint :=
    { stream := some w.newPipe.1.2.2, channel := some w.newPipe.2.channels.size
      closesChannel := true }
  let input : Endpoint :=
    { stream := some w.newPipe.1.2.1, channel := some w.newPipe.2.channels.size }
  let w₁ := (w.newPipe.2.newChannel line).2
  have hstream₁ : ∀ sid, output.stream = some sid → (w₁.streams.get? sid).isSome :=
    fun sid hsid ↦ Option.some.inj hsid ▸ hwriter
  have howned₁ : Owned w₀ endpoints w₁ := h.after (hpipe.trans hline)
  have howned₂ := howned₁.newEndpoint (fun _ ↦ hstream₁) fun _ _ hc ↦ Option.some.inj hc ▸ hchannel
  have hsteady₂ : Steady w₁ (w₁.newEndpoint output).2 := .newEndpoint w₁ fun _ ↦ hstream₁
  have hstream₂ : ∀ sid, input.stream = some sid →
      ((w₁.newEndpoint output).2.streams.get? sid).isSome := by
    intro sid hsid
    rw [World.newEndpoint_exists]
    exact Option.some.inj hsid ▸ hreader
  have hsteady₃ : Steady (w₁.newEndpoint output).2 ((w₁.newEndpoint output).2.newEndpoint input).2 :=
    .newEndpoint _ fun _ ↦ hstream₂
  have hlinked : Linked w₀ _ ((w₁.newEndpoint output).2.newEndpoint input).2 :=
    Linked.newEndpoint howned₂.steady fun _ hc ↦ Option.some.inj hc ▸ hchannel
  exact ⟨howned₂.after hsteady₃, ((hpipe.trans hline).trans hsteady₂).trans hsteady₃, hlinked⟩

theorem owned_linkBefore (h : Owned w₀ endpoints w) (rest : List Code.Form) :
    (linkBefore rest).Leads w
      (fun link w' ↦ Owned w₀ (link.map (·.1) :: endpoints) w' ∧ Steady w w' ∧
        ∀ id, link.map (·.2) = some id → Linked w₀ id w') (Steady w₀) := by
  unfold linkBefore
  split
  · refine ⟨h.mono fun id hid ↦ ?_, .refl w, nofun⟩
    simpa using hid
  · refine (owned_newLink h).bind fun link w' ⟨howned, hsteady, hlinked⟩ ↦ ?_
    exact ⟨howned, hsteady, fun id hid ↦ Option.some.inj hid ▸ hlinked⟩

/-- A stage owns its endpoints.  The channel that it reads from and the endpoint for the next stage
belong to links, which are new. -/
theorem owned_openStage (h : Steady w₀ w) (ctx : Context) (number : Nat)
    {input : Option EndpointId} (hinput : ∀ id, input = some id → Linked w₀ id w)
    (rest : List Code.Form) :
    (openStage ctx number input rest).Leads w
      (fun stage w' ↦ Owned w₀ stage.ctx.endpoints w' ∧
        (∀ channel, stage.upper = some channel → w₀.channels.size ≤ channel) ∧
          ∀ id, stage.next = some id → Linked w₀ id w') (Steady w₀) := by
  refine (owned_fork h ctx _).bind fun forked w₁ ⟨howned₁, hsteady₁⟩ ↦ ?_
  have hinput₁ : ∀ id, input = some id → Linked w₀ id w₁ :=
    fun id hid ↦ (hinput id hid).after (.of_steady hsteady₁)
  refine (owned_attach howned₁ 0 fun id hid ↦ (hinput₁ id hid).fresh).bind
    fun reading w₂ ⟨howned₂, hloses₂, hslot₂, _⟩ ↦ ?_
  refine (owned_linkBefore howned₂ rest).bind fun link w₃ ⟨howned₃, hsteady₃, hlink⟩ ↦ ?_
  have howned₃' : Owned w₀ reading.endpoints w₃ :=
    howned₃.mono fun id hid ↦ List.mem_cons_of_mem _ hid
  refine (owned_attach howned₃' 1 fun id hid ↦ howned₃.fresh id (hid ▸ List.mem_cons_self)).bind
    fun writing w₄ ⟨howned₄, hloses₄, _, hslot₄⟩ ↦ ?_
  refine ⟨howned₄, fun channel hchannel ↦ ?_, fun id hid ↦ (hlink id hid).after hloses₄⟩
  cases input with
  | none => cases hchannel
  | some id =>
    have hslot : World.slot writing.endpoints 0 = some id :=
      (hslot₄ 0 (by decide)).trans (hslot₂ rfl)
    have hlinked : Linked w₀ id w₄ :=
      (((hinput₁ id rfl).after hloses₂).after (.of_steady hsteady₃)).after hloses₄
    apply hlinked.channel
    simpa [Context.channel?, Context.endpoint?, hslot] using hchannel

/-- Stages close their own endpoints and the links between them. -/
theorem steady_runStages (hgo : Runner.Keeps Steady go) (ctx : Context) (number : Nat)
    {input : Option EndpointId} (forms : List Code.Form) (h : Steady w₀ w)
    (hinput : ∀ id, input = some id → Linked w₀ id w) :
    (runStages go ctx number input forms).Leads w (fun _ ↦ Steady w₀) (Steady w₀) := by
  induction forms generalizing number input w with
  | nil => exact h
  | cons form rest ih =>
    refine (owned_openStage h ctx number hinput rest).bind
      fun stage w₁ ⟨howned, hupper, hnext⟩ ↦ ?_
    have hform : (Act.apart (settled (evalForm go stage.ctx form))).Keeps Steady :=
      .apart Mobile.move (keeps_settled (steady_evalForm hgo stage.ctx form))
    have hfinish : ((Act.apart (settled (evalForm go stage.ctx form))).ensuring
        stage.ctx.finish).Leads w₁
          (fun _ w' ↦ Steady w₀ w' ∧ ∀ id, stage.next = some id → Linked w₀ id w') (Steady w₀) := by
      refine (Leads.ofKeeps hform).ensuring (fun _ w₂ hsteady ↦ ⟨?_, fun id hid ↦ ?_⟩)
        fun w₂ hsteady ↦ steady_finish (howned.after hsteady)
      · exact steady_finish (howned.after hsteady)
      · exact ((hnext id hid).after (.of_steady hsteady)).after (loses_finish stage.ctx w₂)
    refine hfinish.bind fun result w₂ ⟨hsteady₂, hnext₂⟩ ↦ ?_
    have hclose : (closeInput stage.upper).Leads w₂
        (fun _ w' ↦ Steady w₀ w' ∧ ∀ id, stage.next = some id → Linked w₀ id w') (Steady w₀) := by
      rcases hchannel : stage.upper with _ | channel
      · exact ⟨hsteady₂, hnext₂⟩
      · exact ⟨hsteady₂.closeChannel (hupper channel hchannel), hnext₂⟩
    refine hclose.bind fun _ w₃ ⟨hsteady₃, hnext₃⟩ ↦ ?_
    exact (ih (number + 1) hsteady₃ hnext₃).bind fun others w₄ h₄ ↦ h₄

theorem steady_evalPipeline (hgo : Runner.Keeps Steady go) (ctx : Context)
    (forms : List Code.Form) : (evalPipeline go ctx forms).Keeps Steady := by
  unfold evalPipeline
  split
  · exact steady_evalForm hgo ctx _
  · refine .bind (fun w ↦ ?_) fun results ↦ keeps_verdict results
    have hstages : (runStages go ctx 1 none forms).Leads w (fun _ ↦ Steady w) (Steady w) :=
      steady_runStages hgo ctx 1 forms (.refl w) nofun
    exact hstages.state

theorem steady_evalBlock (hgo : Runner.Keeps Steady go) (ctx : Context) (block : Code.Block) :
    (evalBlock go ctx block).Keeps Steady :=
  keeps_evalPipelines fun forms _ ↦ steady_evalPipeline hgo ctx forms

/-! ## Requests -/

theorem steady_bindParameters (scope : ScopeId) (names : List Bytes) (values : List Value) :
    (bindParameters scope names values).Keeps Steady := by
  induction names generalizing values with
  | nil => exact .pure _
  | cons name names ih =>
    cases values with
    | nil => exact .pure _
    | cons v values =>
      refine .bind (keeps_calm (Act.calm_kindOf v)) fun kind ↦ .bind (.modify fun w ↦ ?_) fun _ ↦
        ih values
      have hnew : Steady w (w.newVariable (.plain (some kind) v)).2 :=
        Persistent.calm (.newVariable w (by simp))
      exact hnew.trans (.of_tables rfl rfl rfl)

/-- A closure body runs with forks of the endpoints of its caller. -/
theorem steady_callClosure (hgo : Runner.Keeps Steady go) (ctx : Context) (c : Closure)
    (arguments : List Value) : (callClosure go ctx c arguments).Keeps Steady := by
  unfold callClosure
  split
  · exact .raise _
  · refine .bind (keeps_newScope {}) fun scope ↦ .bind (steady_bindParameters scope _ _) fun _ w ↦ ?_
    have hbody : ∀ body, (Act.within c.body.span (evalBlock go body c.body)).Keeps Steady :=
      fun body ↦ .within Mobile.move (steady_evalBlock hgo body c.body)
    have howned := Owned.forkEndpoints (.refl w) ctx.endpoints
    exact steady_finish (howned.after (hbody _ _))

/-- A module runs with forks of the endpoints of whoever needs it. -/
theorem steady_runModule (hgo : Runner.Keeps Steady go) (ctx : Context) (name file text : Bytes)
    (chunk : Script.Chunk) (code : Code.Block) :
    (runModule go ctx name file text chunk code).Keeps Steady := by
  unfold runModule
  refine .bind (keeps_newScope {}) fun scope ↦ .bind (keeps_newScope {}) fun outer w ↦ ?_
  have hbody : ∀ body, (Act.within ⟨0, text.length⟩ (evalBlock go body code).attempt).Keeps Steady :=
    fun body ↦ .within Mobile.move (.attempt (steady_evalBlock hgo body code))
  have hfork : (Act.change fun w ↦ w.forkEndpoints ctx.endpoints).Leads w
      (fun endpoints ↦ Owned w endpoints) (Steady w) :=
    Owned.forkEndpoints (.refl w) ctx.endpoints
  refine (hfork.bind fun endpoints w₁ howned ↦ ?_).state
  refine (Leads.cleanup (hbody _) fun w₂ hsteady ↦ ?_).bind fun error w₂ hsteady ↦ ?_
  · exact steady_drop (howned.after hsteady)
  · split
    · exact hsteady
    · exact hsteady

/-- A capture owns the fork that its function runs in, and the channel and the pipe that it reads. -/
theorem steady_captureOutput (hgo : Runner.Keeps Steady go) (ctx : Context) (f : Fn)
    (arguments : List Value) : (captureOutput go ctx f arguments).Keeps Steady := by
  intro w
  unfold captureOutput
  have hpipe : (Act.change World.newPipe).Leads w
      (fun pipe w' ↦ Steady w w' ∧ (w'.streams.get? pipe.2.1).isSome ∧
        (w'.streams.get? pipe.2.2).isSome) (Steady w) :=
    ⟨Persistent.calm (.newPipe w), newPipe_streams w⟩
  refine (hpipe.bind fun (pipe, reader, writer) w₁ ⟨h₁, hreader, hwriter⟩ ↦ ?_).state
  let line : Line := { channel := .ofCapacity captureCapacity, attended := true }
  have hchannel : (Act.change fun w ↦ w.newChannel line).Leads w₁
      (fun channel w' ↦ Owned w [] w' ∧ w.channels.size ≤ channel ∧ w'.streams = w₁.streams)
      (Steady w) :=
    ⟨⟨h₁.trans (Persistent.calm (.newChannel w₁ rfl)), nofun⟩, h₁.channels.size_le, rfl⟩
  refine hchannel.bind fun channel w₂ ⟨h₂, hnew, hstreams⟩ ↦ ?_
  rw [← hstreams] at hreader hwriter
  let output : Endpoint := { stream := some writer, channel := some channel, closesChannel := true }
  have houtput : (Act.change fun w ↦ w.newEndpoint output).Leads w₂
      (fun output w' ↦ Owned w [some output] w' ∧ (w'.streams.get? reader).isSome) (Steady w) := by
    refine ⟨h₂.newEndpoint (fun _ sid hsid ↦ ?_) fun _ _ hc ↦ ?_, ?_⟩
    · exact Option.some.inj hsid ▸ hwriter
    · exact Option.some.inj hc ▸ hnew
    · exact (World.newEndpoint_exists w₂ _ reader).trans hreader
  refine houtput.bind fun output w₃ ⟨h₃, hreader₃⟩ ↦ ?_
  have hinput : (Act.change fun w ↦ w.newEndpoint { stream := some reader }).Leads w₃
      (fun input w' ↦ Owned w [some input, some output] w') (Steady w) :=
    h₃.newEndpoint (fun _ sid hsid ↦ Option.some.inj hsid ▸ hreader₃) nofun
  refine hinput.bind fun input w₄ h₄ ↦ ?_
  refine (owned_fork h₄.steady ctx captureLabel).bind fun fork w₅ ⟨h₅, hsteady₅⟩ ↦ ?_
  have hfresh : ∀ id, id = input ∨ some output = some id → Fresh w id w₅ := by
    intro id hid
    exact (h₄.fresh id (by simpa [eq_comm] using hid)).after (.of_steady hsteady₅)
  have hset : (fork.setEndpoint 1 (some output)).Leads w₅
      (fun fork w' ↦ Owned w (some input :: fork.endpoints) w') (Steady w) :=
    (h₅.setEndpoint 1 fun id hid ↦ hfresh id (.inr hid)).cons
      ((hfresh input (.inl rfl)).after (.setEndpoint w₅ _ _ _))
  refine hset.bind fun fork w₆ h₆ ↦ ?_
  have hcall : (Act.apart (go (.call fork f arguments))).Keeps Steady :=
    .apart Mobile.move (hgo.call fork f arguments)
  have hcleanup : ∀ w₇, Steady w₆ w₇ →
      Steady w (((fork.finish w₇).closeChannel channel).dropEndpoint input) := by
    intro w₇ hsteady
    have h₇ := h₆.after hsteady
    have hfork : Owned w fork.endpoints w₇ := h₇.mono fun id hid ↦ List.mem_cons_of_mem _ hid
    have hinput : Fresh w input (fork.finish w₇) :=
      (h₇.fresh input List.mem_cons_self).after (loses_finish fork w₇)
    have hclosed : Owned w [some input] ((fork.finish w₇).closeChannel channel) := by
      refine ⟨(steady_finish hfork).closeChannel hnew, fun id hid ↦ ?_⟩
      obtain rfl : id = input := by simpa using hid
      exact hinput
    exact (hclosed.dropEndpoint List.mem_cons_self).steady
  refine (Leads.cleanup hcall hcleanup).bind fun _ w₈ h₈ ↦ ?_
  have hgather : (gather channel pipe).Keeps Steady := keeps_gather (fun _ _ ↦ .of_takes) pipe
  exact h₈.trans (hgather w₈)

/-- Requests leave the endpoints of their callers as they are. -/
theorem steady_run (setup : Setup) (fuel : Nat) : Runner.Keeps Steady (run setup fuel) :=
  keeps_run (fun _ hgo ↦ steady_captureOutput hgo) (fun _ hgo ↦ steady_callClosure hgo)
    (fun _ hgo ↦ steady_runModule hgo) setup fuel

end Conduit.Eval
