import Conduit.Proofs.Capturing.Tap
import Conduit.Proofs.Lending

/-!
# Evaluation Returns What It Borrows

Contexts are forked for closure bodies, modules, redirections, stages and captures, and the forks
are closed or dropped on every path out of them.  The other endpoints that are made are for files,
for the links of pipelines and for the pipes of captures, which are new.  So evaluation returns all
streams that were there before, whether it succeeds, fails or does not come to an end.
-/

namespace Conduit.Eval

open World (Lent Returns Steady)
open Act (Leads)

variable {go : Runner} {ctx : Context} {w w₀ : World} {held endpoints : List (Option EndpointId)}

theorem lent_leads {α : Type} {act : Act α} (h : Lent w₀ held w) (hact : act.Keeps Returns) :
    act.Leads w (fun _ ↦ Lent w₀ held) (Lent w₀ held) :=
  (Leads.ofKeeps hact).mono (fun _ _ hw ↦ h.after hw) fun _ hw ↦ h.after hw

/-- What is steady and returns what it borrows. -/
theorem returns_of_steady {α : Type} {act : Act α} (hsteady : act.Keeps Steady)
    (hlent : ∀ w, act.Leads w (fun _ ↦ Lent w []) (Lent w [])) : act.Keeps Returns :=
  fun w ↦ ⟨hsteady w, (hlent w).state⟩

theorem Runner.Keeps.steady (hgo : Runner.Keeps Returns go) : Runner.Keeps Steady go where
  call ctx f arguments := (hgo.call ctx f arguments).mono fun _ _ ↦ Returns.steady
  load ctx name w hname := (hgo.load ctx name w hname).steady

/-! ## Contexts -/

theorem lent_fork (h : Lent w₀ held w) (ctx : Context) (label : Bytes) :
    (ctx.fork label).Leads w (fun fork ↦ Lent w₀ (fork.endpoints ++ held)) (Lent w₀ held) :=
  h.forkEndpoints ctx.endpoints

theorem lent_drop (h : Lent w₀ (ctx.endpoints ++ held) w) : Lent w₀ held (ctx.drop w) :=
  h.dropEndpoints

theorem lent_finish (h : Lent w₀ (ctx.endpoints ++ held) w) : Lent w₀ held (ctx.finish w) :=
  lent_drop (h.closeEndpoints.mono fun _ ↦ List.mem_append_right _)

/-! ## Redirections -/

/-- The stream for an opened file is new. -/
theorem lent_openFile (h : Lent w₀ held w) (mode : Host.OpenMode) (path : Bytes) :
    (openFile mode path).Leads w
      (fun stream w' ↦ Lent w₀ held w' ∧ (w'.streams.get? stream).isSome ∧
        w₀.streams.size ≤ stream) (Lent w₀ held) := by
  unfold Leads openFile
  rcases w.files.openFile w.directory mode path with reason | ⟨files, node⟩
  · exact h
  · let device : Device := .file node 0 (accessOf mode)
    have hfiles : Returns w { w with files } := .of_tables rfl rfl rfl
    have hstream : Returns { w with files } ({ w with files }.newStream device true).2 :=
      Persistent.calm (.newStream _ device true)
    exact ⟨h.after (hfiles.trans hstream), by simp, h.accounts.size_le⟩

theorem lent_redirect (hgo : Runner.Keeps Returns go) (r : Code.Redirection)
    (h : Lent w₀ (ctx.endpoints ++ held) w) :
    (redirect go ctx r).Leads w (fun ctx ↦ Lent w₀ (ctx.endpoints ++ held))
      (Lent w₀ (ctx.endpoints ++ held)) := by
  obtain ⟨span, destination, mode, target⟩ := r
  unfold redirect
  refine (lent_leads h (keeps_evalExpr (hgo.inContext ctx) target)).bind fun values w₁ h₁ ↦ ?_
  refine (lent_leads h₁ (keeps_calm (calm_redirectionPath span values))).bind fun path w₂ h₂ ↦ ?_
  refine (lent_openFile h₂ mode path).bind fun stream w₃ ⟨h₃, hexists, hnew⟩ ↦ ?_
  let e : Endpoint := { stream := some stream, channel := ctx.channel? w₃ destination }
  have hmade : Lent w₀ (ctx.endpoints ++ held) (w₃.newEndpoint e).2 :=
    h₃.newEndpoint_of_new fun sid hsid ↦ Option.some.inj hsid ▸ ⟨hnew, hexists⟩
  exact (hmade.mono fun _ ↦ List.mem_cons_of_mem _).setEndpoint destination

theorem lent_withRedirections (hgo : Runner.Keeps Returns go) {act : Context → Act Unit}
    (hact : ∀ ctx, (act ctx).Keeps Returns) (redirections : List Code.Redirection)
    (h : Lent w₀ (ctx.endpoints ++ held) w) :
    (withRedirections go ctx act redirections).Leads w (fun _ ↦ Lent w₀ held) (Lent w₀ held) := by
  induction redirections generalizing ctx w with
  | nil => exact (lent_leads h (hact ctx)).ensuring (fun _ _ ↦ lent_drop) fun _ ↦ lent_drop
  | cons r rest ih =>
    exact ((lent_redirect hgo r h).orElseChange fun _ ↦ lent_drop).bind fun ctx' w' h' ↦ ih h'

/-! ## Forms -/

theorem returns_evalForm (hgo : Runner.Keeps Returns go) (ctx : Context) (form : Code.Form) :
    (evalForm go ctx form).Keeps Returns := by
  cases form with
  | command span head arguments redirections =>
    unfold evalForm
    refine (keeps_beginForm span).bind fun _ ↦ ?_
    refine (keeps_evalHead (hgo.inContext ctx) head).bind fun values ↦ ?_
    refine (keeps_soleFunction values).bind fun f ↦ ?_
    refine (keeps_evalExprs (hgo.inContext ctx) arguments).bind fun arguments ↦ ?_
    split
    · exact hgo.call ctx f arguments
    · refine returns_of_steady (fun w ↦ ?_) fun w ↦ ?_
      · have hfork := owned_fork (.refl w) ctx (utf8 "redir")
        refine (hfork.bind fun fork w' ⟨h, _⟩ ↦ ?_).state
        exact steady_withRedirections hgo.steady (fun ctx ↦ hgo.steady.call ctx f arguments)
          redirections h
      · refine (lent_fork (Returns.refl w).lent ctx (utf8 "redir")).bind fun fork w' h ↦ ?_
        exact lent_withRedirections hgo (fun ctx ↦ hgo.call ctx f arguments) redirections h
  | assignment span values targets =>
    unfold evalForm
    refine (keeps_beginForm span).bind fun _ ↦ ?_
    refine (keeps_evalExprs (hgo.inContext ctx) values).bind fun values ↦ ?_
    refine (keeps_findTargets (hgo.inContext ctx) targets).bind fun destinations ↦ ?_
    refine (keeps_distribute _ _ values).bind fun _ ↦ ?_
    refine (Act.Keeps.modify fun w ↦ ?_).bind fun _ ↦ keeps_note rfl
    unfold bindCreated
    obtain ⟨scopes, heq, -⟩ :=
      World.foldl_define_eq ctx.scope (destinations.filterMap (·.created)) w
    rw [heq]
    exact .of_tables rfl rfl rfl

/-! ## Pipelines -/

theorem lent_attach (h : Lent w₀ (ctx.endpoints ++ held) w) (n : Nat) (e : Option EndpointId) :
    (attach ctx n e).Leads w (fun ctx' ↦ Lent w₀ (ctx'.endpoints ++ held)) (Lent w₀ held) := by
  cases e with
  | none => exact h
  | some id => exact (h.mono fun _ ↦ List.mem_cons_of_mem _).setEndpoint n

/-- The streams of a new pipe are new. -/
theorem newPipe_new (h : Lent w₀ held w) :
    w₀.streams.size ≤ w.newPipe.1.2.1 ∧ w₀.streams.size ≤ w.newPipe.1.2.2 := by
  have hlast : w.newPipe.1.2.2 = w.streams.size + 1 := Table.size_push w.streams _
  exact ⟨h.accounts.size_le, hlast ▸ Nat.le_succ_of_le h.accounts.size_le⟩

/-- Endpoints for the two ends of a new pipe borrow nothing, whatever channel they have. -/
theorem lent_ends (h : Lent w₀ held w) {line : Line} (hline : line.channel.queue = [])
    {output input : Endpoint} (houtput : output.stream = some w.newPipe.1.2.2)
    (hinput : input.stream = some w.newPipe.1.2.1) :
    Lent w₀ held (((w.newPipe.2.newChannel line).2.newEndpoint output).2.newEndpoint input).2 := by
  obtain ⟨hreader, hwriter⟩ := newPipe_streams w
  obtain ⟨hnewReader, hnewWriter⟩ := newPipe_new h
  have hmade : Lent w₀ held (w.newPipe.2.newChannel line).2 :=
    (h.after (Persistent.calm (.newPipe w))).after (Persistent.calm (.newChannel _ hline))
  have hwriting : Lent w₀ held ((w.newPipe.2.newChannel line).2.newEndpoint output).2 := by
    refine hmade.newEndpoint_of_new fun sid hsid ↦ ?_
    obtain rfl : w.newPipe.1.2.2 = sid := Option.some.inj (houtput.symm.trans hsid)
    exact ⟨hnewWriter, hwriter⟩
  refine hwriting.newEndpoint_of_new fun sid hsid ↦ ?_
  obtain rfl : w.newPipe.1.2.1 = sid := Option.some.inj (hinput.symm.trans hsid)
  refine ⟨hnewReader, ?_⟩
  rw [World.newEndpoint_exists]
  exact hreader

theorem lent_newLink {broken : World → Prop} (h : Lent w₀ held w) :
    newLink.Leads w (fun _ ↦ Lent w₀ held) broken :=
  lent_ends h rfl rfl rfl

theorem lent_openStage (h : Lent w₀ held w) (ctx : Context) (number : Nat)
    (input : Option EndpointId) (rest : List Code.Form) :
    (openStage ctx number input rest).Leads w (fun stage ↦ Lent w₀ (stage.ctx.endpoints ++ held))
      (Lent w₀ held) := by
  refine (lent_fork h ctx (stageLabel number)).bind fun forked w₁ h₁ ↦ ?_
  refine (lent_attach h₁ 0 input).bind fun reading w₂ h₂ ↦ ?_
  have hlink : (linkBefore rest).Leads w₂ (fun _ ↦ Lent w₀ (reading.endpoints ++ held))
      (Lent w₀ held) := by
    unfold linkBefore
    split
    · exact h₂
    · exact (lent_newLink h₂).bind fun link w₃ h₃ ↦ h₃
  refine hlink.bind fun link w₃ h₃ ↦ ?_
  refine (lent_attach h₃ 1 (link.map (·.1))).bind fun writing w₄ h₄ ↦ ?_
  exact h₄

/-- The reading end of a link may be left over, but it has not been borrowed. -/
theorem lent_runStages (hgo : Runner.Keeps Returns go) (ctx : Context) (number : Nat)
    (input : Option EndpointId) (forms : List Code.Form) (h : Lent w₀ held w) :
    (runStages go ctx number input forms).Leads w (fun _ ↦ Lent w₀ held) (Lent w₀ held) := by
  induction forms generalizing number input w with
  | nil => exact h
  | cons form rest ih =>
    refine (lent_openStage h ctx number input rest).bind fun stage w₁ h₁ ↦ ?_
    have hform : (Act.apart (settled (evalForm go stage.ctx form))).Keeps Returns :=
      .apart Mobile.move (keeps_settled (returns_evalForm hgo stage.ctx form))
    refine ((lent_leads h₁ hform).ensuring (fun _ _ ↦ lent_finish) fun _ ↦ lent_finish).bind
      fun result w₂ h₂ ↦ ?_
    have hclose : (closeInput stage.upper).Leads w₂ (fun _ ↦ Lent w₀ held) (Lent w₀ held) := by
      rcases stage.upper with _ | channel
      · exact h₂
      · exact h₂.closeChannel channel
    refine hclose.bind fun _ w₃ h₃ ↦ ?_
    exact (ih (number + 1) stage.next h₃).bind fun others w₄ h₄ ↦ h₄

theorem returns_evalPipeline (hgo : Runner.Keeps Returns go) (ctx : Context)
    (forms : List Code.Form) : (evalPipeline go ctx forms).Keeps Returns := by
  unfold evalPipeline
  split
  · exact returns_evalForm hgo ctx _
  · refine .bind (returns_of_steady (fun w ↦ ?_) fun w ↦ ?_) fun results ↦ keeps_verdict results
    · have hstages : (runStages go ctx 1 none forms).Leads w (fun _ ↦ Steady w) (Steady w) :=
        steady_runStages hgo.steady ctx 1 forms (.refl w) nofun
      exact hstages.state
    · exact lent_runStages hgo ctx 1 none forms (Returns.refl w).lent

theorem returns_evalBlock (hgo : Runner.Keeps Returns go) (ctx : Context) (block : Code.Block) :
    (evalBlock go ctx block).Keeps Returns :=
  keeps_evalPipelines fun forms _ ↦ returns_evalPipeline hgo ctx forms

/-! ## Requests -/

theorem returns_bindParameters (scope : ScopeId) (names : List Bytes) (values : List Value) :
    (bindParameters scope names values).Keeps Returns :=
  (dry_bindParameters scope names values).mono fun _ _ h ↦
    .of_tables h.endpoints h.streams h.channels

/-- A closure body runs with forks of the endpoints of its caller. -/
theorem returns_callClosure (hgo : Runner.Keeps Returns go) (ctx : Context) (c : Closure)
    (arguments : List Value) : (callClosure go ctx c arguments).Keeps Returns := by
  refine returns_of_steady (steady_callClosure hgo.steady ctx c arguments) fun w ↦ ?_
  have hstart : Lent w [] w := (Returns.refl w).lent
  unfold callClosure
  split
  · exact hstart
  · refine (lent_leads hstart (keeps_newScope {})).bind fun scope w₁ h₁ ↦ ?_
    refine (lent_leads h₁ (returns_bindParameters scope _ _)).bind fun _ w₂ h₂ ↦ ?_
    have hfork : (Act.change fun w ↦ w.forkEndpoints ctx.endpoints).Leads w₂
        (fun endpoints ↦ Lent w (endpoints ++ [])) (Lent w []) :=
      h₂.forkEndpoints ctx.endpoints
    refine hfork.bind fun endpoints w₃ h₃ ↦ ?_
    let body : Context :=
      { name := c.name, text := c.text, label := utf8 "closure", scope, outer := c.captured
        endpoints, chunk := c.chunk }
    have hbody : (Act.within c.body.span (evalBlock go body c.body)).Keeps Returns :=
      .within Mobile.move (returns_evalBlock hgo body c.body)
    have hfinish : ∀ w', Lent w (body.endpoints ++ []) w' → Lent w [] (body.finish w') :=
      fun _ ↦ lent_finish
    exact (lent_leads h₃ hbody).ensuring (fun _ ↦ hfinish) hfinish

/-- A module runs with forks of the endpoints of whoever needs it. -/
theorem returns_runModule (hgo : Runner.Keeps Returns go) (ctx : Context) (name file text : Bytes)
    (chunk : Script.Chunk) (code : Code.Block) :
    (runModule go ctx name file text chunk code).Keeps Returns := by
  refine returns_of_steady (steady_runModule hgo.steady ctx name file text chunk code) fun w ↦ ?_
  have hstart : Lent w [] w := (Returns.refl w).lent
  unfold runModule
  refine (lent_leads hstart (keeps_newScope {})).bind fun scope w₁ h₁ ↦ ?_
  refine (lent_leads h₁ (keeps_newScope {})).bind fun outer w₂ h₂ ↦ ?_
  have hfork : (Act.change fun w ↦ w.forkEndpoints ctx.endpoints).Leads w₂
      (fun endpoints ↦ Lent w (endpoints ++ [])) (Lent w []) :=
    h₂.forkEndpoints ctx.endpoints
  refine hfork.bind fun endpoints w₃ h₃ ↦ ?_
  let body : Context :=
    { name := file, text, label := utf8 "module " ++ name, scope, outer, endpoints, chunk }
  have hbody : (Act.within ⟨0, text.length⟩ (evalBlock go body code).attempt).Keeps Returns :=
    .within Mobile.move (.attempt (returns_evalBlock hgo body code))
  have hdrop : ∀ w', Lent w (body.endpoints ++ []) w' → Lent w [] (body.drop w') :=
    fun _ ↦ lent_drop
  refine ((lent_leads h₃ hbody).ensuring (fun _ ↦ hdrop) hdrop).bind fun error w₄ h₄ ↦ ?_
  split
  · exact h₄
  · exact h₄

/-- What a capture calls its function with is forked, but for the output endpoint. -/
theorem lent_tapped (h : Lent w₀ (some w.nextTap.output :: held) w.addTap) :
    Lent w₀ ((tapped ctx w).endpoints ++ held) (tappedWorld ctx w) := by
  have hforked := h.forkEndpoints ctx.endpoints
  refine Lent.setEndpoint 1 (hforked.mono fun id hid ↦ ?_)
  simp only [List.mem_append, List.mem_cons] at hid ⊢
  tauto

theorem lent_addTap (w : World) : Lent w [] w.addTap :=
  lent_ends (Returns.refl w).lent rfl rfl rfl

theorem returns_captureOutput (hgo : Runner.Keeps Returns go) (ctx : Context) (f : Fn)
    (arguments : List Value) : (captureOutput go ctx f arguments).Keeps Returns := by
  refine fun w ↦ ⟨steady_captureOutput hgo.steady ctx f arguments w, ?_⟩
  have hcall : (Act.apart (go (.call (tapped ctx w) f arguments))).Keeps Returns :=
    .apart Mobile.move (hgo.call _ f arguments)
  have hcalled : Lent w ((tapped ctx w).endpoints ++ []) (tappedCall go ctx f arguments w).2 :=
    (lent_tapped ((lent_addTap w).mono nofun)).after (hcall (tappedWorld ctx w))
  rw [captureOutput_eq]
  generalize tappedCall go ctx f arguments w = ended at hcalled ⊢
  obtain ⟨how, w'⟩ := ended
  have huntapped : Lent w [] (untapped ctx w w') :=
    (((lent_finish hcalled).closeChannel _).mono nofun).dropEndpoint
  have hgather : (gather w.nextTap.channel w.nextTap.pipe).Keeps Returns :=
    keeps_gather (fun _ _ ↦ .of_takes) _
  cases how with
  | done => exact huntapped.after (hgather _)
  | raised | foreign | halted => exact huntapped

/-- Requests return what they borrow. -/
theorem returns_run (setup : Setup) (fuel : Nat) : Runner.Keeps Returns (run setup fuel) :=
  keeps_run (fun _ hgo ↦ returns_captureOutput hgo) (fun _ hgo ↦ returns_callClosure hgo)
    (fun _ hgo ↦ returns_runModule hgo) setup fuel

end Conduit.Eval
