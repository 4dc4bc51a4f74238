import Conduit.Proofs.Modules.Nesting

/-!
# Blaming Errors on Forms

An error without a span gets one where it is caught, the span under evaluation there.  Only the
beginning of a form moves this span: whatever runs below the form leaves it as it was, however deep
it goes and however it ends, since closures, modules, stages and captures run with a span of their
own.  So an error that leaves a form unblamed is blamed on that form by whoever evaluates the block,
and by the pipeline if the form is one of several stages.  An error that is blamed already stays as
it is wherever it is caught.

What runs below a form without protection is described by the frames around it: an error raised there
is what the form raises.
-/

namespace Conduit

/-! ## What runs without protection -/

namespace Act

/-- Running an action from a state comprises running an inner one from a state of its own, with
nothing around it that handles errors. -/
inductive Exposes {β : Type} (inner : Act β) (v : World) : {α : Type} → Act α → World → Prop where
  | self : Exposes inner v inner v
  | first {α γ : Type} {act : Act α} {next : α → Act γ} {w : World} :
      Exposes inner v act w → Exposes inner v (act >>= next) w
  | next {α γ : Type} {act : Act α} {next : α → Act γ} {w w₁ : World} {a : α} :
      act w = (.done a, w₁) → Exposes inner v (next a) w₁ → Exposes inner v (act >>= next) w
  | ensuring {α : Type} {act : Act α} {w : World} (cleanup : World → World) :
      Exposes inner v act w → Exposes inner v (act.ensuring cleanup) w
  | orElseChange {α : Type} {act : Act α} {w : World} (cleanup : World → World) :
      Exposes inner v act w → Exposes inner v (act.orElseChange cleanup) w
  | within {α : Type} {act : Act α} {w : World} (span : Span) :
      Exposes inner v act { w with here := span } → Exposes inner v (act.within span) w
  | apart {α : Type} {act : Act α} {w : World} :
      Exposes inner v act w → Exposes inner v act.apart w

variable {α β γ : Type} {inner : Act β} {act : Act α} {v w : World}

/-- What is raised inside is raised outside. -/
theorem Exposes.raised {e : Error} (h : Exposes inner v act w) (he : (inner v).1 = .raised e) :
    (act w).1 = .raised e := by
  induction h with
  | self => exact he
  | @first _ _ act next w _ ih =>
    rw [bind_apply]
    rcases hact : act w with ⟨outcome, w'⟩
    rw [hact] at ih
    obtain rfl : outcome = .raised e := ih
    rfl
  | next hdone _ ih => rwa [bind_of_done hdone]
  | ensuring cleanup _ ih => exact ih
  | @orElseChange _ act w cleanup _ ih =>
    unfold Act.orElseChange
    rcases hact : act w with ⟨outcome, w'⟩
    rw [hact] at ih
    obtain rfl : outcome = .raised e := ih
    rfl
  | within span _ ih => exact ih
  | apart _ ih => exact ih

/-- Runs without protection are nested in each other. -/
theorem Exposes.trans {middle : Act γ} {u : World} (h : Exposes middle u act w)
    (h' : Exposes inner v middle u) : Exposes inner v act w := by
  induction h with
  | self => exact h'
  | first _ ih => exact .first ih
  | next hdone _ ih => exact .next hdone ih
  | ensuring cleanup _ ih => exact .ensuring cleanup ih
  | orElseChange cleanup _ ih => exact .orElseChange cleanup ih
  | within span _ ih => exact .within span ih
  | apart _ ih => exact .apart ih

/-- An action with a result has had it before what comes afterwards. -/
theorem done_of_ensuring {cleanup : World → World} {a : α}
    (h : act.ensuring cleanup w = (.done a, v)) : ∃ w', act w = (.done a, w') ∧ v = cleanup w' := by
  unfold Act.ensuring at h
  rcases hact : act w with ⟨outcome, w'⟩
  rw [hact] at h
  obtain ⟨rfl, rfl⟩ := Prod.mk.inj h
  exact ⟨w', rfl, rfl⟩

theorem attempt_raised {act : Act Unit} {e : Error} (h : (act w).1 = .raised e) :
    act.attempt w = (.done (some (e.orSpan (act w).2.here)), (act w).2) := by
  unfold Act.attempt
  rcases hact : act w with ⟨outcome, w'⟩
  rw [hact] at h
  obtain rfl : outcome = .raised e := h
  rfl

theorem settled_raised {act : Act Unit} {e : Error} (h : (act w).1 = .raised e) :
    Eval.settled act w = (.done (.raised (e.orSpan (act w).2.here)), (act w).2) := by
  unfold Eval.settled
  rcases hact : act w with ⟨outcome, w'⟩
  rw [hact] at h
  obtain rfl : outcome = .raised e := h
  rfl

end Act

theorem Error.orSpan_of_some {e : Error} {span : Span} (h : e.span = some span) (other : Span) :
    e.orSpan other = e := by
  rw [Error.orSpan, h]

/-! ## The span under evaluation stays -/

/-- The span under evaluation is the same. -/
def World.Stays (w w' : World) : Prop := w'.here = w.here

namespace World.Stays

instance : Tolerant Stays where
  refl _ := rfl
  trans _ _ _ h h' := Eq.trans h' h
  calm h := h.here
  handles h := h.here
  note _ _ _ := rfl
  newScope _ _ := rfl
  failedLoad _ _ h := h
  load _ _ _ h := h

instance : Liberal Stays where
  define _ _ _ _ := rfl

instance : Nesting Stays where
  within _ _ := rfl

end World.Stays

namespace Eval

open World (Stays)
open Act (Exposes)

variable {go : Runner} {ctx : Context} {w : World}

/-- An action with a span of its own leaves the caller's in place, whatever it does. -/
theorem stays_within {α : Type} (span : Span) (act : Act α) : (act.within span).Keeps Stays :=
  fun _ ↦ rfl

theorem stays_callClosure (go : Runner) (ctx : Context) (c : Closure) (arguments : List Value) :
    (callClosure go ctx c arguments).Keeps Stays := by
  unfold callClosure
  split
  · exact .raise _
  · refine .bind (keeps_newScope {}) fun scope ↦ .bind (keeps_bindParameters _ _ _) fun _ ↦
      .bind (keeps_handles (.change fun w ↦ .forkEndpoints w _)) fun endpoints ↦
      .ensuring (stays_within _ _) fun w ↦ ?_
    exact Tolerant.handles (Context.handles_finish _ w)

theorem stays_runModule (go : Runner) (ctx : Context) (name file text : Bytes)
    (chunk : Script.Chunk) (code : Code.Block) :
    (runModule go ctx name file text chunk code).Keeps Stays := by
  unfold runModule
  refine .bind (keeps_newScope {}) fun scope ↦ .bind (keeps_newScope {}) fun outer ↦
    .bind (keeps_handles (.change fun w ↦ .forkEndpoints w _)) fun endpoints ↦
    .bind (.ensuring (stays_within _ _) fun w ↦ ?_) fun error ↦ ?_
  · exact Tolerant.handles (Context.handles_drop _ w)
  · split
    · exact .pure _
    · exact .raise _

/-- Requests leave the span under evaluation in place. -/
theorem stays_run (setup : Setup) (fuel : Nat) : Runner.Keeps Stays (run setup fuel) :=
  keeps_run (fun _ hgo ↦ keeps_captureOutput hgo) (fun go _ ↦ stays_callClosure go)
    (fun go _ ↦ stays_runModule go) setup fuel

/-- Once a form has begun, its span is the one under evaluation until it ends, in whatever way. -/
theorem here_evalForm (hgo : Runner.Keeps Stays go) (ctx : Context) (form : Code.Form) (w : World) :
    (evalForm go ctx form w).2.here = form.span := by
  cases form with
  | command span head arguments redirections =>
    have hrest : ((do
        let values ← evalHead go ctx head
        let f ← soleFunction values
        let arguments ← evalExprs go ctx arguments
        if redirections.isEmpty then go (.call ctx f arguments)
        else do
          let fork ← ctx.fork (utf8 "redir")
          withRedirections go fork (fun ctx ↦ go (.call ctx f arguments)) redirections) :
        Act Unit).Keeps Stays := by
      refine .bind (keeps_evalHead (hgo.inContext ctx) head) fun values ↦
        .bind (keeps_soleFunction values) fun f ↦
        .bind (keeps_evalExprs (hgo.inContext ctx) arguments) fun arguments ↦ ?_
      split
      · exact hgo.call ctx f arguments
      · exact .bind (keeps_handles (ctx.handles_fork _)) fun fork ↦
          keeps_withRedirections hgo (fun ctx ↦ hgo.call ctx f arguments) redirections fork
    exact hrest _
  | assignment span values targets =>
    have hrest : ((do
        let values ← evalExprs go ctx values
        let destinations ← findTargets go ctx targets
        Act.distribute (placesOf destinations false) (placesOf destinations true) values
        Act.modify (bindCreated ctx.scope destinations)
        Act.modify (World.note (.assigned ctx.scope span targets))) : Act Unit).Keeps Stays :=
      .bind (keeps_evalExprs (hgo.inContext ctx) values) fun _ ↦
        .bind (keeps_findTargets (hgo.inContext ctx) targets) fun _ ↦
        .bind (keeps_distribute _ _ _) fun _ ↦
        (keeps_bindCreated ctx.scope _).bind fun _ ↦ keeps_note rfl
    exact hrest _

/-- A form that raises an error has it blamed on its span where it is caught. -/
theorem orSpan_evalForm (hgo : Runner.Keeps Stays go) (ctx : Context) (form : Code.Form) (w : World)
    (e : Error) : e.orSpan (evalForm go ctx form w).2.here =
      ⟨e.kind, e.message, some (e.span.getD form.span)⟩ := by
  rw [here_evalForm hgo, Error.orSpan_eq]

/-! ## What a call comprises -/

/-- A command without redirections comprises the call of its function, once its head and its arguments
have been evaluated. -/
theorem exposes_command {span : Span} {head : Code.Head} {arguments : List Code.Expr}
    {w₁ w₂ w₃ : World} {values argumentValues : List Value} {f : Fn}
    (hhead : evalHead go ctx head (({ w with here := span } : World).note
      (.form span w.interrupted)) = (.done values, w₁))
    (hf : soleFunction values w₁ = (.done f, w₂))
    (harguments : evalExprs go ctx arguments w₂ = (.done argumentValues, w₃)) :
    Exposes (go (.call ctx f argumentValues)) w₃
      (evalForm go ctx (.command span head arguments [])) w :=
  .next rfl (.next hhead (.next hf (.next harguments .self)))

/-- The call of a closure with as many arguments as it has parameters comprises its body. -/
theorem exposes_closure {c : Closure} {arguments : List Value} {v : World}
    (hlength : arguments.length = c.parameters.length)
    (hbind : bindParameters w.scopes.size c.parameters arguments (w.newScope {}).2 = (.done (), v)) :
    Exposes (evalBlock go
        { name := c.name, text := c.text, label := utf8 "closure", scope := w.scopes.size,
          outer := c.captured, endpoints := (v.forkEndpoints ctx.endpoints).1, chunk := c.chunk }
        c.body)
      { (v.forkEndpoints ctx.endpoints).2 with here := c.body.span }
      (callClosure go ctx c arguments) w := by
  rw [callClosure, if_neg (not_not_intro hlength)]
  exact .next rfl (.next hbind (.next rfl (.ensuring _ (.within _ .self))))

/-- The builtin that calls a function comprises the call. -/
theorem exposes_callFunction (f : Fn) (arguments : List Value) :
    Exposes (go (.call ctx f arguments)) w (callFunction go ctx (.fn f :: arguments)) w :=
  .next rfl .self

section Blocks

variable {before after : List (List Code.Form)} {w₁ : World} {block : Code.Block}

/-- A block comprises the sole form of each of its pipelines, once the pipelines before it have been
evaluated and unless the interrupt flag is set. -/
theorem exposes_form {form : Code.Form} (hblock : block.pipelines = before ++ [form] :: after)
    (hbefore : evalPipelines go ctx before w = (.done (), w₁)) (hflag : w₁.interrupted = false) :
    Exposes (evalForm go ctx form) w₁ (evalBlock go ctx block) w := by
  rw [evalBlock, hblock, evalPipelines_append]
  refine .next hbefore ?_
  rw [evalPipelines]
  exact .next (Act.checkInterrupt_clear hflag) (.first .self)

/-- A block ends as the pipeline that raises an error. -/
theorem evalBlock_raises {forms : List Code.Form}
    (hblock : block.pipelines = before ++ forms :: after)
    (hbefore : evalPipelines go ctx before w = (.done (), w₁)) (hflag : w₁.interrupted = false)
    {e : Error} (he : (evalPipeline go ctx forms w₁).1 = .raised e) :
    evalBlock go ctx block w = evalPipeline go ctx forms w₁ := by
  rw [evalBlock, hblock, evalPipelines_append, Act.bind_of_done hbefore, evalPipelines,
    Act.bind_of_done (Act.checkInterrupt_clear hflag), Act.bind_apply]
  rcases hforms : evalPipeline go ctx forms w₁ with ⟨outcome, w'⟩
  rw [hforms] at he
  obtain rfl : outcome = .raised e := he
  rfl

end Blocks

/-! ## Forms that are stages -/

/-- The state after a stage has been ended. -/
def Stage.ended (stage : Stage) (w : World) : World :=
  stage.upper.elim (stage.ctx.finish w) (stage.ctx.finish w).closeChannel

/-- Running stages begins one of them, counted from zero, with its form and in a state of its own. -/
inductive StageBegins (go : Runner) (ctx : Context) (form : Code.Form) (stage : Stage) (v : World) :
    Nat → Nat → Option EndpointId → List Code.Form → World → Prop where
  | first {number : Nat} {input : Option EndpointId} {rest : List Code.Form} {w : World} :
      openStage ctx number input rest w = (.done stage, v) →
        StageBegins go ctx form stage v 0 number input (form :: rest) w
  | later {j number : Nat} {input : Option EndpointId} {first : Code.Form} {rest : List Code.Form}
      {w w₁ w₂ : World} {opened : Stage} {result : StageResult} :
      openStage ctx number input rest w = (.done opened, w₁) →
      (settled (evalForm go opened.ctx first)).apart w₁ = (.done result, w₂) →
      StageBegins go ctx form stage v j (number + 1) opened.next rest (opened.ended w₂) →
        StageBegins go ctx form stage v (j + 1) number input (first :: rest) w

theorem StageBegins.getElem? {form : Code.Form} {stage : Stage} {v : World} {j number : Nat}
    {input : Option EndpointId} {forms : List Code.Form}
    (h : StageBegins go ctx form stage v j number input forms w) : forms[j]? = some form := by
  induction h with
  | first _ => rfl
  | later _ _ _ ih => exact ih

/-- Stages that have been run: the first one has been made, settled and ended, and the others have
been run after it. -/
theorem done_runStages {number : Nat} {input : Option EndpointId} {form : Code.Form}
    {rest : List Code.Form} {results : List StageResult} {w' : World}
    (h : runStages go ctx number input (form :: rest) w = (.done results, w')) :
    ∃ stage w₁ result w₂ others, openStage ctx number input rest w = (.done stage, w₁) ∧
      (settled (evalForm go stage.ctx form)).apart w₁ = (.done result, w₂) ∧
      runStages go ctx (number + 1) stage.next rest (stage.ended w₂) = (.done others, w') ∧
      results = result :: others := by
  unfold runStages at h
  obtain ⟨stage, w₁, hopen, h⟩ := Act.done_of_bind h
  obtain ⟨result, w₂, hresult, h⟩ := Act.done_of_bind h
  obtain ⟨_, w₃, hclose, h⟩ := Act.done_of_bind h
  obtain ⟨others, w₄, hothers, h⟩ := Act.done_of_bind h
  cases h
  obtain ⟨v, hstage, rfl⟩ := Act.done_of_ensuring hresult
  cases hclose
  exact ⟨stage, w₁, result, v, others, hopen, hstage, hothers, rfl⟩

/-- The error that a stage ends with has been raised in it. -/
theorem raised_of_settled {act : Act Unit} {e : Error} {w' : World}
    (h : (settled act).apart w = (.done (.raised e), w')) :
    ∃ e', (act w).1 = .raised e' ∧ e = e'.orSpan (act w).2.here := by
  have hsettled : (settled act w).1 = .done (.raised e) := congrArg Prod.fst h
  unfold settled at hsettled
  rcases hact : act w with ⟨_ | e' | _ | _, v⟩ <;> rw [hact] at hsettled <;> cases hsettled
  exact ⟨e', rfl, rfl⟩

/-- The errors among the results of stages are those that have been raised in their forms, each
blamed on its form unless it is blamed already. -/
theorem stage_raised (hgo : Runner.Keeps Stays go) {number : Nat} {input : Option EndpointId}
    {forms : List Code.Form} {results : List StageResult} {w' : World}
    (h : runStages go ctx number input forms w = (.done results, w')) (j : Nat) (e : Error) :
    results[j]? = some (.raised e) ↔
      ∃ form stage v e', StageBegins go ctx form stage v j number input forms w ∧
        (evalForm go stage.ctx form v).1 = .raised e' ∧
        e = ⟨e'.kind, e'.message, some (e'.span.getD form.span)⟩ := by
  induction forms generalizing number input results w j with
  | nil =>
    cases h
    refine ⟨nofun, ?_⟩
    rintro ⟨form, stage, v, e', hbegins, -⟩
    cases hbegins
  | cons form rest ih =>
    obtain ⟨stage, w₁, result, w₂, others, hopen, hresult, hothers, rfl⟩ := done_runStages h
    cases j with
    | zero =>
      constructor
      · intro hraised
        obtain rfl : result = .raised e := Option.some.inj hraised
        obtain ⟨e', he', rfl⟩ := raised_of_settled hresult
        exact ⟨form, stage, w₁, e', .first hopen, he', orSpan_evalForm hgo _ _ _ _⟩
      · rintro ⟨form', stage', v, e', hbegins, he', rfl⟩
        cases hbegins with
        | first hopen' =>
          cases hopen.symm.trans hopen'
          have hsettled : .done result = (settled (evalForm go stage.ctx form) w₁).1 :=
            (congrArg Prod.fst hresult).symm
          rw [Act.settled_raised he', orSpan_evalForm hgo] at hsettled
          exact congrArg some (Outcome.done.inj hsettled)
    | succ j =>
      refine (ih hothers j).trans ⟨?_, ?_⟩
      · rintro ⟨form', stage', v, e', hbegins, he'⟩
        exact ⟨form', stage', v, e', .later hopen hresult hbegins, he'⟩
      · rintro ⟨form', stage', v, e', hbegins, he'⟩
        cases hbegins with
        | later hopen' hresult' hbegins =>
          cases hopen.symm.trans hopen'
          cases hresult.symm.trans hresult'
          exact ⟨form', stage', v, e', hbegins, he'⟩

/-- The error of the lowest failing stage is one of the results. -/
theorem exists_of_firstRaised? {results : List StageResult} {e : Error}
    (h : firstRaised? results = some e) : ∃ j : Nat, results[j]? = some (.raised e) := by
  induction results with
  | nil => cases h
  | cons result rest ih =>
    cases result with
    | raised e' =>
      cases h
      exact ⟨0, rfl⟩
    | finished | foreign =>
      obtain ⟨j, hj⟩ := ih h
      exact ⟨j + 1, hj⟩

/-- A pipeline of several stages raises the error of the lowest one that has raised one, if none has
let a foreign exception through. -/
theorem evalPipeline_raises {forms : List Code.Form} (hforms : forms.length ≠ 1)
    {results : List StageResult} {w' : World} {e : Error}
    (h : runStages go ctx 1 none forms w = (.done results, w'))
    (hforeign : firstForeign? results = none) (he : firstRaised? results = some e) :
    evalPipeline go ctx forms w = (.raised e, w') := by
  unfold evalPipeline
  split
  · exact absurd rfl hforms
  · rw [Act.bind_of_done h, verdict, hforeign, he]
    rfl

end Eval

/-! ## Spans of forms -/

namespace Script

/-- The span of a form. -/
def Form.span : Form → Span
  | .mk span _ _ _ _ => span

/-- The spans of the forms of the pipelines of a chunk, outside the bodies of lambdas. -/
def Chunk.formSpans : Chunk → List (List Span)
  | .mk _ pipelines => pipelines.map fun | .mk _ forms => forms.map Form.span

end Script

namespace Code

variable {builtins names names' : List Bytes}

theorem span_of_compileForm {form : Script.Form} {compiled : Form}
    (h : compileForm builtins names form = .ok (compiled, names')) : compiled.span = form.span := by
  obtain ⟨span, _ | ⟨target, targets⟩, head, arguments, redirections⟩ := form
  · obtain ⟨_, _, _, -, -, -, rfl, -⟩ := compileForm_command h
    rfl
  · obtain ⟨_, _, -, -, rfl, -⟩ := compileForm_assignment h
    rfl

theorem spans_of_compileForms {forms : List Script.Form} {compiled : List Form}
    (h : compileForms builtins names forms = .ok (compiled, names')) :
    compiled.map Form.span = forms.map Script.Form.span := by
  induction forms generalizing names compiled with
  | nil =>
    unfold compileForms at h
    cases h
    rfl
  | cons form rest ih =>
    obtain ⟨first, between, others, hfirst, hothers, rfl⟩ := compileForms_cons h
    rw [List.map_cons, List.map_cons, span_of_compileForm hfirst, ih hothers]

/-- The code of a chunk has the forms of the chunk, with their spans. -/
theorem spans_of_ofScript {chunk : Script.Chunk} {code : Block}
    (h : ofScript names builtins chunk = .ok code) :
    code.pipelines.map (·.map Form.span) = chunk.formSpans := by
  obtain ⟨span, pipelines⟩ := chunk
  obtain ⟨compiled, hcompiled, rfl⟩ := compileChunk_mk h
  clear h
  change compiled.map (·.map Form.span) =
    pipelines.map fun | .mk _ forms => forms.map Script.Form.span
  induction pipelines generalizing names compiled with
  | nil =>
    rw [compilePipelines] at hcompiled
    cases hcompiled
    rfl
  | cons pipeline rest ih =>
    obtain ⟨first, between, others, hfirst, hothers, rfl⟩ := compilePipelines_cons hcompiled
    obtain ⟨pipelineSpan, forms⟩ := pipeline
    have hforms : compileForms builtins names forms = .ok (first, between) := by
      rwa [compilePipeline] at hfirst
    rw [List.map_cons, List.map_cons, spans_of_compileForms hforms, ih others hothers]

end Code

namespace Eval

open Act (Exposes)

/-! ## Errors are blamed on forms -/

/-- Whatever a chunk is evaluated in, its code has the forms of the chunk with their spans, and

* if an error is raised while the sole form of one of its pipelines is executing, at any depth below
  it and with nothing around it that handles errors, protected evaluation of the chunk yields this
  error, blamed on the form unless it is blamed already;
* wherever stages run, their errors are those that are raised in their forms, each blamed on its form
  unless it is blamed already, and the error of the lowest one is what protected evaluation of the
  chunk yields if they are a pipeline of the chunk;
* an error that is blamed already stays as it is wherever it is caught. -/
theorem evalBlock_blames {outer builtins : List Bytes} {chunk : Script.Chunk} {code : Code.Block}
    (hcode : Code.ofScript outer builtins chunk = .ok code) (setup : Setup) (fuel : Nat)
    (ctx : Context) :
    code.pipelines.map (·.map Code.Form.span) = chunk.formSpans ∧
    (∀ before form after w w₁, code.pipelines = before ++ [form] :: after →
      evalPipelines (run setup fuel) ctx before w = (.done (), w₁) → w₁.interrupted = false →
      ∀ {β : Type} (inner : Act β) v e,
        Exposes inner v (evalForm (run setup fuel) ctx form) w₁ → (inner v).1 = .raised e →
        (Act.attempt (evalBlock (run setup fuel) ctx code) w).1 =
          .done (some ⟨e.kind, e.message, some (e.span.getD form.span)⟩)) ∧
    (∀ c number input forms w results w',
      runStages (run setup fuel) c number input forms w = (.done results, w') →
      ∀ j e, results[j]? = some (.raised e) ↔
        ∃ form stage v, forms[j]? = some form ∧
          StageBegins (run setup fuel) c form stage v j number input forms w ∧
          ∃ (β : Type) (inner : Act β) (u : World) (e' : Error),
            Exposes inner u (evalForm (run setup fuel) stage.ctx form) v ∧
            (inner u).1 = .raised e' ∧
            e = ⟨e'.kind, e'.message, some (e'.span.getD form.span)⟩) ∧
    (∀ before forms after w w₁ results w' e, code.pipelines = before ++ forms :: after →
      evalPipelines (run setup fuel) ctx before w = (.done (), w₁) → w₁.interrupted = false →
      forms.length ≠ 1 → runStages (run setup fuel) ctx 1 none forms w₁ = (.done results, w') →
      firstForeign? results = none → firstRaised? results = some e →
      (Act.attempt (evalBlock (run setup fuel) ctx code) w).1 = .done (some e)) ∧
    ∀ e span, e.span = some span →
      (∀ act w, (act w).1 = .raised e →
        (Act.attempt act w).1 = .done (some e) ∧ (settled act w).1 = .done (.raised e)) ∧
      ∀ go c f arguments w, (captureOutput go c f arguments w).1 = .raised e →
        (captureProtected go c f arguments w).1 = .done (.error e) := by
  have hgo := stays_run setup fuel
  refine ⟨Code.spans_of_ofScript hcode, ?_, ?_, ?_, ?_⟩
  · intro before form after w w₁ hpipelines hbefore hflag β inner v e hexposes he
    have hform := hexposes.raised he
    have hblock := evalBlock_raises hpipelines hbefore hflag hform
    have hraised : (evalBlock (run setup fuel) ctx code w).1 = .raised e := by
      rw [hblock]
      exact hform
    rw [Act.attempt_raised hraised, hblock]
    exact congrArg (fun e ↦ Outcome.done (some e)) (orSpan_evalForm hgo ctx form w₁ e)
  · intro c number input forms w results w' h j e
    rw [stage_raised hgo h]
    constructor
    · rintro ⟨form, stage, v, e', hbegins, he', rfl⟩
      exact ⟨form, stage, v, hbegins.getElem?, hbegins, Unit, _, v, e', .self, he', rfl⟩
    · rintro ⟨form, stage, v, -, hbegins, β, inner, u, e', hexposes, he', rfl⟩
      exact ⟨form, stage, v, e', hbegins, hexposes.raised he', rfl⟩
  · intro before forms after w w₁ results w' e hpipelines hbefore hflag hlength h hforeign he
    have hforms : evalPipeline (run setup fuel) ctx forms w₁ = (.raised e, w') :=
      evalPipeline_raises hlength h hforeign he
    obtain ⟨j, hj⟩ := exists_of_firstRaised? he
    obtain ⟨form, stage, v, e', -, -, rfl⟩ := (stage_raised hgo h j e).mp hj
    have hblock := evalBlock_raises hpipelines hbefore hflag (congrArg Prod.fst hforms)
    have hraised := congrArg Prod.fst (hblock.trans hforms)
    rw [Act.attempt_raised hraised, Error.orSpan_of_some rfl]
  · intro e span hspan
    refine ⟨fun act w he ↦ ⟨?_, ?_⟩, fun go c f arguments w he ↦ ?_⟩
    · rw [Act.attempt_raised he, Error.orSpan_of_some hspan]
    · rw [Act.settled_raised he, Error.orSpan_of_some hspan]
    · unfold captureProtected
      rcases hcapture : captureOutput go c f arguments w with ⟨outcome, w'⟩
      rw [hcapture] at he
      obtain rfl : outcome = .raised e := he
      exact congrArg (fun e ↦ Outcome.done (Except.error e)) (Error.orSpan_of_some hspan _)

/-! ## A call in a closure in a call -/

/-- The text `call { {|x| } }`: a closure calls a closure that takes an argument, and gives it none. -/
def callInCall : Script.Chunk :=
  .mk ⟨0, 15⟩ [.mk ⟨0, 15⟩ [.mk ⟨0, 15⟩ [] (.bareword ⟨0, 4⟩ (utf8 "call"))
    [.lambda ⟨5, 15⟩ [] (some (.mk ⟨7, 13⟩
      [.mk ⟨7, 13⟩ [.mk ⟨7, 13⟩ [] (.lambda ⟨7, 13⟩ [utf8 "x"] none) [] []]]))] []]]

/-- The form of the inner call. -/
def innerForm : Code.Form :=
  .command ⟨7, 13⟩ (.computed (.lambda [utf8 "x"] (.mk ⟨7, 13⟩ []))) [] []

/-- The form of the outer call. -/
def outerForm : Code.Form :=
  .command ⟨0, 15⟩ (.named (.ofText (utf8 "call"))) [.lambda [] (.mk ⟨7, 13⟩ [[innerForm]])] []

/-- The code of the text. -/
def callInCallCode : Code.Block := .mk ⟨0, 15⟩ [[outerForm]]

/-- A call of a closure with the inner call as its body comprises the inner call. -/
theorem exposes_inner {α : Type} {act : Act α} {c : Closure} {v w : World}
    (h : Exposes (run {} 2 (.call Shell.bareContext (.closure c) [])) v act w)
    (hparameters : c.parameters = []) (hbody : c.body.pipelines = [[innerForm]])
    (hflag : v.interrupted = false) :
    ∃ c' v', Exposes (evalForm (run {} 1) c' innerForm) v' act w := by
  have hlength : ([] : List Value).length = c.parameters.length := by
    rw [hparameters]
    rfl
  have hbind : bindParameters v.scopes.size c.parameters [] (v.newScope {}).2 =
      (.done (), (v.newScope {}).2) := by
    rw [hparameters]
    rfl
  have hpipelines : c.body.pipelines = [] ++ [innerForm] :: [] := hbody
  exact ⟨_, _, h.trans ((exposes_closure hlength hbind).trans (exposes_form hpipelines rfl hflag))⟩

/-- The inner call raises an error that is not blamed on anything, and protected evaluation of the
text blames it on the outer one. -/
theorem evalBlock_blames_call :
    Code.ofScript [] [utf8 "&call"] callInCall = .ok callInCallCode ∧
    (∃ c v, Exposes (evalForm (run {} 1) c innerForm) v
        (evalForm (run {} 3) Shell.bareContext outerForm) (Shell.start {}) ∧
      (evalForm (run {} 1) c innerForm v).1 = .raised .arityMismatch) ∧
    (Act.attempt (evalBlock (run {} 3) Shell.bareContext callInCallCode) (Shell.start {})).1 =
      .done (some ⟨.arityMismatch, utf8 "arity mismatch", some ⟨0, 15⟩⟩) := by
  have hcode : Code.ofScript [] [utf8 "&call"] callInCall = .ok callInCallCode := rfl
  have houter : Exposes (run {} 3 (.call Shell.bareContext (.builtin .call) _)) _
      (evalForm (run {} 3) Shell.bareContext outerForm) (Shell.start {}) :=
    exposes_command rfl rfl rfl
  obtain ⟨c, v, hinner⟩ := exposes_inner (houter.trans (exposes_callFunction _ _)) rfl rfl rfl
  have hraised : (evalForm (run {} 1) c innerForm v).1 = .raised .arityMismatch := rfl
  refine ⟨hcode, ⟨c, v, hinner, hraised⟩, ?_⟩
  exact (evalBlock_blames hcode {} 3 Shell.bareContext).2.1 [] outerForm [] _ _ rfl rfl rfl _ v _
    hinner hraised

end Eval

end Conduit
