import Conduit.Proofs.Calm.Builtins
import Conduit.Proofs.Interruption.Actions
import Conduit.Proofs.Modules
import Conduit.Proofs.Quiet

/-!
# Evaluation that Heeds the Interrupt Flag

A form heeds the flag if it begins while the flag is not set, and that is what is checked before each
pipeline.  What a form calls may set the flag, also under protection, and may go on after that; but it
does so by calling functions, and their bodies are made of pipelines again.
-/

namespace Conduit.Eval

open World (Calm Loads Raises)
open Act (Heeds Stops)
open Value (AllUnpiped)

variable {setup : Setup} {go : Runner} {ctx : Context} {w : World} {given : Prop}

/-- A runner heeds the flag if calls of functions whose bodies have pipelines of one form do, and loads
of modules. -/
structure Runner.Heeds (setup : Setup) (go : Runner) : Prop where
  loads : Runner.Keeps Loads go
  call : ∀ ctx f arguments w, (go (.call ctx f arguments)).Stops setup
    ((Value.fn f).Unpiped ∧ AllUnpiped arguments) w
  load : ∀ ctx name w, (go (.load ctx name)).Stops setup True w

/-! ## References -/

theorem heeds_use (hgo : Runner.Heeds setup go) (ctx : Context) (name : Bytes) (w : World) :
    (use go ctx name).Stops setup given w := by
  unfold use
  refine .worldBind ?_
  split
  · exact (hgo.load ctx name w).assuming fun _ ↦ trivial
  · exact .pure fun _ ↦ trivial

theorem heeds_resolve (hgo : Runner.Heeds setup go) (ctx : Context) (qualifier name : Bytes)
    (w : World) : (resolve go ctx qualifier name).Stops setup given w := by
  unfold resolve
  refine .worldBind ?_
  iterate 5
    split
    · exact .pure fun _ ↦ trivial
  split
  · split
    · exact .pure fun _ ↦ trivial
    · exact .raise _
  · exact (heeds_use hgo ctx qualifier w).bind fun _ _ ↦ .worldBind (.pure fun _ ↦ trivial)

/-- What is read has been stored. -/
theorem heeds_readPlace (place : Place) (w : World) :
    (Act.readPlace place).Heeds setup given w Value.Unpiped := by
  have hcalm : Act.Keeps (Calm fun _ ↦ False) (Act.readPlace place) := Act.calm_readPlace place
  have hstored := Act.readPlace_stored place w
  refine .unnoted (hcalm w).journal (hcalm w).interrupted fun _ hw ↦ ⟨hw.calm (hcalm w) nofun, ?_⟩
  intro v hv c hc
  unfold Act.Leads at hstored
  rcases hact : Act.readPlace place w with ⟨outcome, w'⟩
  rw [hact] at hstored hv
  obtain rfl : outcome = .done v := hv
  exact hw c (hstored.2 c hc)

theorem heeds_evalVariable (hgo : Runner.Heeds setup go) (ctx : Context) (span : Span)
    (splice : Bool) (r : Reference) (w : World) :
    (evalVariable go ctx span splice r).Heeds setup given w AllUnpiped := by
  unfold evalVariable
  refine (heeds_resolve hgo ctx _ _ w).bind fun place w₁ ↦ ?_
  cases place with
  | none => exact (Heeds.note rfl).bind fun _ _ ↦ .raise _
  | some place =>
    refine (heeds_readPlace place w₁).bind fun v w₂ ↦ ?_
    split
    · split
      · exact .pure fun h ↦ Value.unpiped_list.mp h.2
      · exact .halt _
      · exact .raise _
    · exact .pure fun h ↦ .cons h.2 .nil

/-! ## Expressions -/

theorem heeds_makeClosure (ctx : Context) (parameters : List Bytes) (body : Code.Block) (w : World) :
    (makeClosure ctx parameters body).Heeds setup body.Unpiped w fun c ↦ c.body.Unpiped := by
  refine .unnoted rfl (.of_eq rfl) fun hbody hw ↦ ⟨fun c hc ↦ hw c hc, fun c hc ↦ ?_⟩
  cases hc
  exact hbody

mutual

theorem heeds_evalExpr (hgo : Runner.Heeds setup go) (ctx : Context) : ∀ (e : Code.Expr) (w : World),
    (evalExpr go ctx e).Heeds setup e.Unpiped w AllUnpiped
  | .text content, w => by
    unfold evalExpr
    exact .pure fun _ ↦ .cons (Value.unpiped_text content) .nil
  | .variable span splice r, w => by
    unfold evalExpr
    exact heeds_evalVariable hgo ctx span splice r w
  | .list items, w => by
    unfold evalExpr
    have hitems : (evalExprs go ctx items).Heeds setup (Code.Expr.list items).Unpiped w AllUnpiped :=
      heeds_evalExprs hgo ctx items w
    exact hitems.bind fun values _ ↦ .pure fun h ↦ .cons (Value.unpiped_list.mpr h.2) .nil
  | .lambda parameters body, w => by
    unfold evalExpr
    have hclosure : (makeClosure ctx parameters body).Heeds setup
        (Code.Expr.lambda parameters body).Unpiped w fun c ↦ c.body.Unpiped :=
      heeds_makeClosure ctx parameters body w
    exact hclosure.bind fun c _ ↦ .pure fun h ↦ .cons (Value.unpiped_closure.mpr h.2) .nil

theorem heeds_evalExprs (hgo : Runner.Heeds setup go) (ctx : Context) :
    ∀ (es : List Code.Expr) (w : World),
      (evalExprs go ctx es).Heeds setup (Code.exprsUnpiped es) w AllUnpiped
  | [], w => by
    unfold evalExprs
    exact .pure fun _ ↦ .nil
  | e :: rest, w => by
    unfold evalExprs
    have hfirst : (evalExpr go ctx e).Heeds setup (Code.exprsUnpiped (e :: rest)) w AllUnpiped :=
      (heeds_evalExpr hgo ctx e w).assuming fun h ↦ h.1
    refine hfirst.bind fun values w₁ ↦ ?_
    have hrest := (heeds_evalExprs hgo ctx rest w₁).assuming
      fun h : Code.exprsUnpiped (e :: rest) ∧ AllUnpiped values ↦ h.1.2
    exact hrest.bind fun others _ ↦ .pure fun h ↦ h.1.2.append h.2

end

theorem heeds_evalHead (hgo : Runner.Heeds setup go) (ctx : Context) (head : Code.Head) (w : World) :
    (evalHead go ctx head).Heeds setup head.Unpiped w AllUnpiped := by
  cases head with
  | named r =>
    refine (heeds_resolve hgo ctx _ _ w).bind fun place w₁ ↦ ?_
    cases place with
    | some place =>
      exact (heeds_readPlace place w₁).bind fun v _ ↦ .pure fun h ↦ .cons h.2 .nil
    | none =>
      dsimp only
      split
      · exact .pure fun _ ↦ .cons (by simp [Value.Unpiped]) .nil
      · exact .fail _
  | computed e => exact heeds_evalExpr hgo ctx e w

theorem heeds_soleFunction (values : List Value) (w : World) :
    (soleFunction values).Heeds setup (AllUnpiped values) w fun f ↦ (Value.fn f).Unpiped := by
  unfold soleFunction
  split
  · exact .pure fun h ↦ h.head
  · exact .halt _
  · exact .fail _

/-! ## Forms -/

/-- A form begins where the flag is not set. -/
theorem heeds_beginForm (hflag : w.interrupted = false) (span : Span) :
    (beginForm span).Stops setup given w := by
  have hnote : (beginForm span w).2 =
      ({ w with here := span } : World).note (.form span false) := by
    rw [← hflag]
    rfl
  refine ⟨[.form span false], by rw [hnote]; rfl, fun _ hw _ ↦ ⟨?_, fun _ _ ↦ trivial⟩⟩
  rw [hnote]
  refine ⟨hw, hflag ▸ .form span, fun hset ↦ ?_⟩
  simp [hflag] at hset

theorem heeds_fork (ctx : Context) (label : Bytes) (w : World) :
    (ctx.fork label).Stops setup given w :=
  .handles (ctx.handles_fork label) (.change fun w ↦ Raises.moves.forkEndpoints w ctx.endpoints)

theorem raises_dropEndpoints (endpoints : List (Option EndpointId)) (w : World) :
    Raises w (w.dropEndpoints endpoints) :=
  Raises.moves.foldl Raises.dropEndpoint endpoints w

theorem heeds_drop (ctx : Context) (w : World) : (Act.modify ctx.drop).Stops setup given w :=
  .handles (.modify ctx.handles_drop) (.modify (raises_dropEndpoints ctx.endpoints))

theorem raises_finish (ctx : Context) (w : World) : Raises w (ctx.finish w) :=
  (Raises.moves.foldl Raises.closeEndpoint ctx.endpoints w).trans (raises_dropEndpoints _ _)

theorem heeds_finish (ctx : Context) (w : World) : (Act.modify ctx.finish).Stops setup given w :=
  .handles (.modify ctx.handles_finish) (.modify (raises_finish ctx))

theorem raises_setEndpoint (ctx : Context) (n : Nat) (e : Option EndpointId) :
    Act.Keeps Raises (ctx.setEndpoint n e) := by
  refine .change fun w ↦ ?_
  unfold World.setEndpoint
  dsimp only
  cases World.slot (World.grow ctx.endpoints (n + 1)) n with
  | none => exact .of_eq rfl
  | some id => exact Raises.dropEndpoint _ id

theorem heeds_setEndpoint (ctx : Context) (n : Nat) (e : Option EndpointId) (w : World) :
    (ctx.setEndpoint n e).Stops setup given w :=
  .handles (ctx.handles_setEndpoint n e) (raises_setEndpoint ctx n e)

theorem heeds_newEndpoint (make : World → Endpoint) (w : World) :
    (Act.change fun w ↦ w.newEndpoint (make w)).Stops setup given w :=
  .handles (.change fun w ↦ .newEndpoint w _) (.change fun w ↦ Raises.moves.newEndpoint w _)

theorem heeds_redirect (hgo : Runner.Heeds setup go) (ctx : Context) (r : Code.Redirection)
    (w : World) : (redirect go ctx r).Stops setup r.Unpiped w := by
  obtain ⟨span, destination, mode, target⟩ := r
  have htarget : (evalExpr go ctx target).Heeds setup
      (Code.Redirection.mk span destination mode target).Unpiped w AllUnpiped :=
    heeds_evalExpr hgo ctx target w
  exact htarget.bind fun values w₁ ↦ (Heeds.calm (calm_redirectionPath span values)).bind
    fun path w₂ ↦ (Heeds.calm (calm_openFile mode path)).bind
    fun stream w₃ ↦ (heeds_newEndpoint _ w₃).bind
    fun e w₄ ↦ heeds_setEndpoint ctx destination (some e) w₄

theorem heeds_withRedirections (hgo : Runner.Heeds setup go) {act : Context → Act Unit}
    (hact : ∀ ctx w, (act ctx).Stops setup given w) (redirections : List Code.Redirection)
    (ctx : Context) (w : World) : (withRedirections go ctx act redirections).Stops setup
      (given ∧ Code.redirectionsUnpiped redirections) w := by
  induction redirections generalizing ctx w with
  | nil => exact .ensuring ((hact ctx w).assuming fun h ↦ h.1) fun w' ↦ heeds_drop ctx w'
  | cons r rest ih =>
    have hfirst := (heeds_redirect hgo ctx r w).assuming
      fun h : given ∧ Code.redirectionsUnpiped (r :: rest) ↦ h.2.1
    refine (hfirst.orElseChange fun w' ↦ heeds_drop ctx w').bind fun fork w₁ ↦ ?_
    exact (ih fork w₁).assuming fun h ↦ ⟨h.1.1, h.1.2.2⟩

theorem heeds_command (hgo : Runner.Heeds setup go) (ctx : Context) (span : Span) (head : Code.Head)
    (arguments : List Code.Expr) (redirections : List Code.Redirection)
    (hflag : w.interrupted = false) :
    (evalForm go ctx (.command span head arguments redirections)).Stops setup
      (Code.Form.command span head arguments redirections).Unpiped w := by
  unfold evalForm
  refine (heeds_beginForm hflag span).bind fun _ w₁ ↦ ?_
  refine Heeds.bind ((heeds_evalHead hgo ctx head w₁).assuming fun h ↦ h.1.1) fun values w₂ ↦ ?_
  refine Heeds.bind ((heeds_soleFunction values w₂).assuming fun h ↦ h.2) fun f w₃ ↦ ?_
  refine Heeds.bind ((heeds_evalExprs hgo ctx arguments w₃).assuming
    fun h ↦ h.1.1.1.2.1) fun values' w₄ ↦ ?_
  split
  · exact (hgo.call ctx f values' w₄).assuming fun h ↦ ⟨h.1.2, h.2⟩
  · refine (heeds_fork ctx _ w₄).bind fun fork w₅ ↦ ?_
    have hcall := heeds_withRedirections hgo (fun ctx w ↦ hgo.call ctx f values' w) redirections fork w₅
    exact hcall.assuming fun h ↦ ⟨⟨h.1.1.2, h.1.2⟩, h.1.1.1.1.1.2.2⟩

/-! ## Assignments -/

theorem heeds_findTarget (hgo : Runner.Heeds setup go) (ctx : Context) (t : Target) (w : World) :
    (findTarget go ctx t).Stops setup given w := by
  unfold findTarget
  refine (heeds_resolve hgo ctx _ _ w).bind fun place w₁ ↦ ?_
  cases place with
  | some place => exact .pure fun _ ↦ trivial
  | none =>
    dsimp only
    split
    · exact (Heeds.calm (.change fun w ↦ .newVariable w (by simp [Variable.closures]))).bind
        fun id _ ↦ .pure fun _ ↦ trivial
    · exact .raise _

theorem heeds_findTargets (hgo : Runner.Heeds setup go) (ctx : Context) (targets : List Target)
    (w : World) : (findTargets go ctx targets).Stops setup given w := by
  induction targets generalizing w given with
  | nil => exact .pure fun _ ↦ trivial
  | cons t rest ih =>
    exact (heeds_findTarget hgo ctx t w).bind fun d w₁ ↦ (ih w₁).bind
      fun others _ ↦ .pure fun _ ↦ trivial

theorem heeds_bindCreated (ctx : Context) (destinations : List Destination) (w : World) :
    (Act.modify (bindCreated ctx.scope destinations)).Stops setup given w := by
  obtain ⟨scopes, heq, -⟩ :=
    World.foldl_define_eq ctx.scope (destinations.filterMap (·.created)) w
  have hstate : (Act.modify (bindCreated ctx.scope destinations) w).2 = { w with scopes } := heq
  refine .unnoted (by rw [hstate]) (.of_eq (by rw [hstate])) fun _ hw ↦ ⟨?_, fun _ _ ↦ trivial⟩
  rw [hstate]
  exact hw

theorem heeds_assignment (hgo : Runner.Heeds setup go) (ctx : Context) (span : Span)
    (values : List Code.Expr) (targets : List Target) (hflag : w.interrupted = false) :
    (evalForm go ctx (.assignment span values targets)).Stops setup
      (Code.Form.assignment span values targets).Unpiped w := by
  unfold evalForm
  refine (heeds_beginForm hflag span).bind fun _ w₁ ↦ ?_
  refine Heeds.bind ((heeds_evalExprs hgo ctx values w₁).assuming fun h ↦ h.1) fun written w₂ ↦ ?_
  refine (heeds_findTargets hgo ctx targets w₂).bind fun destinations w₃ ↦ ?_
  refine (Heeds.calm (Act.calm_distribute _ _ written fun v hv c hc h ↦ h.1.2 v hv c hc)).bind
    fun _ w₄ ↦ ?_
  refine (heeds_bindCreated ctx destinations w₄).bind fun _ w₅ ↦ ?_
  exact (Heeds.note rfl).stops

/-- A form that begins while the flag is not set heeds it. -/
theorem heeds_evalForm (hgo : Runner.Heeds setup go) (ctx : Context) (form : Code.Form)
    (hflag : w.interrupted = false) : (evalForm go ctx form).Stops setup form.Unpiped w := by
  cases form with
  | command span head arguments redirections =>
    exact heeds_command hgo ctx span head arguments redirections hflag
  | assignment span values targets => exact heeds_assignment hgo ctx span values targets hflag

/-! ## Pipelines -/

theorem heeds_evalPipeline (hgo : Runner.Heeds setup go) (ctx : Context) (forms : List Code.Form)
    (hflag : w.interrupted = false) :
    (evalPipeline go ctx forms).Stops setup (forms.length = 1 ∧ Code.formsUnpiped forms) w := by
  by_cases hone : forms.length = 1
  · obtain ⟨form, rfl⟩ := List.length_eq_one_iff.mp hone
    exact (heeds_evalForm hgo ctx form hflag).assuming fun h ↦ h.2.1
  · -- Stages only have to keep adding events.
    have hloads : Act.Keeps Loads (evalPipeline go ctx forms) :=
      keeps_evalPipeline fun form _ ctx' _ ↦ keeps_evalForm hgo.loads ctx' form
    obtain ⟨events, hjournal, -⟩ := hloads w
    exact ⟨events, hjournal, fun h ↦ absurd h.1 hone⟩

/-- Once the flag is set nothing more begins, and until then each pipeline begins with the flag not
set. -/
theorem heeds_evalPipelines (hgo : Runner.Heeds setup go) (ctx : Context)
    (pipelines : List (List Code.Form)) (w : World) :
    (evalPipelines go ctx pipelines).Stops setup (Code.pipelinesUnpiped pipelines) w := by
  induction pipelines generalizing w with
  | nil => exact .pure fun _ ↦ trivial
  | cons forms rest ih =>
    cases hflag : w.interrupted with
    | true =>
      have hend := evalPipelines_interrupted go ctx forms rest hflag
      refine .unnoted (by rw [hend]) (by rw [hend]; exact id) fun _ hw ↦ ?_
      rw [hend]
      exact ⟨hw, nofun⟩
    | false =>
      have hrun : evalPipelines go ctx (forms :: rest) w =
          (evalPipeline go ctx forms >>= fun _ ↦ evalPipelines go ctx rest) w := by
        rw [evalPipelines, Act.bind_of_done (Act.checkInterrupt_clear hflag)]
      have hforms : (evalPipeline go ctx forms).Stops setup (Code.pipelinesUnpiped (forms :: rest)) w :=
        (heeds_evalPipeline hgo ctx forms hflag).assuming fun h ↦ h.1
      have hboth := hforms.bind fun _ w₁ ↦ (ih w₁).assuming fun h ↦ h.1.2
      unfold Stops Heeds at hboth ⊢
      rwa [hrun]

theorem heeds_evalBlock (hgo : Runner.Heeds setup go) (ctx : Context) (block : Code.Block)
    (w : World) : (evalBlock go ctx block).Stops setup block.Unpiped w := by
  obtain ⟨span, pipelines⟩ := block
  exact heeds_evalPipelines hgo ctx pipelines w

/-! ## Closures -/

theorem heeds_newScope (w : World) :
    (Act.change fun w ↦ w.newScope {}).Stops setup given w :=
  .unnoted rfl (.of_eq rfl) fun _ hw ↦ ⟨hw, fun _ _ ↦ trivial⟩

theorem heeds_forkEndpoints (endpoints : List (Option EndpointId)) (w : World) :
    (Act.change fun w ↦ w.forkEndpoints endpoints).Stops setup given w :=
  .handles (.change fun w ↦ .forkEndpoints w endpoints)
    (.change fun w ↦ Raises.moves.forkEndpoints w endpoints)

theorem heeds_bindParameters (scope : ScopeId) (names : List Bytes) (values : List Value)
    (w : World) : (bindParameters scope names values).Stops setup (AllUnpiped values) w := by
  induction names generalizing values w with
  | nil => exact .pure fun _ ↦ trivial
  | cons name names ih =>
    cases values with
    | nil => exact .pure fun _ ↦ trivial
    | cons v values =>
      refine (Heeds.calm (Act.calm_kindOf v)).bind fun kind w₁ ↦ ?_
      have hvariable : ∀ w : World, Calm (fun c ↦ AllUnpiped (v :: values) ∧ True → c.body.Unpiped) w
          (w.newVariable (.plain (some kind) v)).2 :=
        fun w ↦ .newVariable w fun c hc h ↦ h.1.head c hc
      have hdefine : (Act.modify fun w ↦ (w.newVariable (.plain (some kind) v)).2.define scope name
          (w.newVariable (.plain (some kind) v)).1).Stops setup (AllUnpiped (v :: values) ∧ True) w₁ :=
        .unnoted rfl (.of_eq rfl) fun h hw ↦
          ⟨(hw.calm (hvariable w₁) fun c hc ↦ hc h : World.Unpiped _), fun _ _ ↦ trivial⟩
      exact hdefine.bind fun _ w₂ ↦ (ih values w₂).assuming fun h ↦ h.1.1.tail

/-- The body of a closure is checked before each pipeline, whoever has called the closure. -/
theorem heeds_callClosure (hgo : Runner.Heeds setup go) (ctx : Context) (c : Closure)
    (arguments : List Value) (w : World) : (callClosure go ctx c arguments).Stops setup
      (c.body.Unpiped ∧ AllUnpiped arguments) w := by
  unfold callClosure
  split
  · exact .raise _
  · refine (heeds_newScope w).bind fun scope w₁ ↦ ?_
    refine Heeds.bind ((heeds_bindParameters scope c.parameters arguments w₁).assuming
      fun h ↦ h.1.2) fun _ w₂ ↦ ?_
    refine (heeds_forkEndpoints ctx.endpoints w₂).bind fun endpoints w₃ ↦ ?_
    refine .ensuring (.within ((heeds_evalBlock hgo _ c.body _).assuming fun h ↦ h.1.1.1.1)) ?_
    exact fun w' ↦ heeds_finish _ w'

/-! ## Modules -/

theorem heeds_runModule (hgo : Runner.Heeds setup go) (ctx : Context) (name file text : Bytes)
    (chunk : Script.Chunk) (code : Code.Block) (w : World) :
    (runModule go ctx name file text chunk code).Stops setup code.Unpiped w := by
  unfold runModule
  refine (heeds_newScope w).bind fun scope w₁ ↦ ?_
  refine (heeds_newScope w₁).bind fun outer w₂ ↦ ?_
  refine (heeds_forkEndpoints ctx.endpoints w₂).bind fun endpoints w₃ ↦ ?_
  refine Heeds.bind (.ensuring (.within (.attempt ((heeds_evalBlock hgo _ code _).assuming
    fun h ↦ h.1.1.1))) fun w' ↦ heeds_drop _ w') fun error w₄ ↦ ?_
  split
  · exact .pure fun _ ↦ trivial
  · exact .raise _

/-- A text that has been parsed has been so by the parser of the shell. -/
theorem heeds_parseModule (setup : Setup) (name file : Bytes) (w : World) :
    (parseModule setup name file).Heeds setup given w fun parsed ↦
      ∃ parser ∈ setup.parser, parser parsed.1 = .ok parsed.2 := by
  have hcalm : Act.Keeps (Calm fun _ ↦ False) (parseModule setup name file) :=
    calm_parseModule setup name file
  refine .unnoted (hcalm w).journal (hcalm w).interrupted fun _ hw ↦
    ⟨hw.calm (hcalm w) nofun, fun parsed hparsed ↦ ?_⟩
  rcases parseModule_cases setup name file w with ⟨why, v, hparse⟩ |
    ⟨found, parser, chunk, -, hparser, hchunk, hparse⟩
  · rw [hparse] at hparsed
    cases hparsed
  · rw [hparse] at hparsed
    cases hparsed
    exact ⟨parser, hparser, hchunk⟩

/-- The note that a body begins comes with what is known of its text. -/
theorem heeds_loadFile (hgo : Runner.Heeds setup go) (ctx : Context) (name : Bytes) (w : World) :
    (loadFile setup go ctx name).Stops setup given w := by
  unfold loadFile
  refine (heeds_parseModule setup name _ w).bind fun (text, chunk) w₁ ↦ .worldBind ?_
  rcases hcode : Code.ofScript [] (w₁.scope World.builtins).names chunk with e | code
  · exact .raise _
  · refine (Heeds.note rfl).bind fun _ w₂ ↦ ?_
    refine Heeds.bind ((heeds_runModule hgo ctx name _ text chunk code w₂).assuming ?_)
      fun scope w₃ ↦ ?_
    · rintro ⟨⟨-, parser, hparser, hchunk⟩, hloads⟩
      have hunpiped : chunk.Unpiped :=
        hloads name text List.mem_cons_self parser hparser chunk hchunk
      exact Code.compileChunk_unpiped hunpiped hcode
    · exact .unnoted rfl (.of_eq rfl) fun _ hw ↦ ⟨hw, fun _ _ ↦ trivial⟩

theorem heeds_loadModule (hgo : Runner.Heeds setup go) (ctx : Context) (name : Bytes) (w : World) :
    (loadModule setup go ctx name).Stops setup given w := by
  unfold loadModule
  split
  · exact .raise _
  · refine (Heeds.note rfl).bind fun _ w₁ ↦ ?_
    exact .ensuring (heeds_loadFile hgo ctx name w₁) fun w' ↦
      (Heeds.note rfl).stops

end Conduit.Eval
