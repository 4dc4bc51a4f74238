import Conduit.Proofs.Rules.Evaluation

/-!
# Bodies that Comply

A pipeline ends with an error that one of its stages has ended with.  The body of a closure runs in the
text that the closure stands in, and the body of a module in the text of its file, which is known from
the moment that the body begins.  An error of a module is reported in an error of its own, which is
blamed on nothing.
-/

namespace Conduit

/-- Whatever the parser makes of a text, if there is a parser, carries spans that fit the text. -/
def Rules.Admits (T : Rules) (setup : Setup) : Prop :=
  ∀ parser ∈ setup.parser, ∀ text chunk, parser text = .ok chunk → T.Fit text chunk.spans

namespace Eval

open World (Handles Onward)
open Act (Complies Plain)
open Value (AllObey)

variable {T : Rules} {go : Runner} {ctx : Context} {w : World}

/-! ## Pipelines -/

theorem mem_of_firstRaised? {results : List StageResult} {e : Error}
    (h : firstRaised? results = some e) : .raised e ∈ results := by
  induction results with
  | nil => cases h
  | cons result rest ih =>
    cases result with
    | raised e' =>
      cases h
      exact List.mem_cons_self
    | _ => exact List.mem_cons_of_mem _ (ih h)

theorem complies_verdict (hw : w.Obeys T) {results : List StageResult}
    (hresults : ∀ result ∈ results, result.Obeys T w.journal) : (verdict results).Plain T w := by
  unfold verdict
  split
  · exact .throwForeign hw _
  · rename_i e _ he
    exact .raise hw (hresults _ (mem_of_firstRaised? he) e rfl)
  · exact .pure hw trivial

theorem complies_openStage (hw : w.Obeys T) (ctx : Context) (number : Nat)
    (input : Option EndpointId) (rest : List Code.Form) :
    (openStage ctx number input rest).Complies T w fun stage _ ↦ stage.ctx.text = ctx.text := by
  refine .quietly hw (quiet_openStage ctx number input rest) fun stage w' h ↦ ?_
  have halike := openStage_alike ctx number input rest w
  unfold Act.Leads at halike
  rw [h] at halike
  exact halike.text

/-- Stages end with errors that are blamed where the rules allow it. -/
theorem complies_runStages (hgo : Runner.Complies T go) (hw : w.Obeys T)
    (htext : T.known w.journal ctx.text) (number : Nat) (input : Option EndpointId)
    {forms : List Code.Form} (hforms : T.Fit ctx.text (Code.formsSpans forms)) :
    (runStages go ctx number input forms).Complies T w fun results w' ↦
      ∀ result ∈ results, result.Obeys T w'.journal := by
  induction forms generalizing number input w with
  | nil => exact .pure hw nofun
  | cons form rest ih =>
    refine (complies_openStage hw ctx number input rest).bind fun stage w₁ hw₁ h₁ hsame ↦ ?_
    have hform : (evalForm go stage.ctx form).Plain T w₁ := by
      refine complies_evalForm hgo hw₁ ?_ ?_ <;> rw [hsame]
      · exact h₁.knows htext
      · exact hforms.left
    have hstage : (Act.apart (settled (evalForm go stage.ctx form))).Complies T w₁
        fun result w' ↦ result.Obeys T w'.journal := .apart hw₁ (.settled hform) fun _ _ h ↦ h
    have hfinish : ((Act.apart (settled (evalForm go stage.ctx form))).ensuring
        stage.ctx.finish).Complies T w₁ fun result w' ↦ result.Obeys T w'.journal :=
      hstage.ensuring (fun w' hw' ↦ ⟨hw'.handles (stage.ctx.handles_finish w'),
        .handles (stage.ctx.handles_finish w')⟩) fun result w' _ _ hresult e he span hspan ↦
          Onward.blames (.handles (stage.ctx.handles_finish w')) (hresult e he span hspan)
    refine hfinish.bind fun result w₂ hw₂ h₂ hresult ↦ ?_
    refine (Complies.quiet hw₂ (quiet_closeInput stage.upper)).bind fun _ w₃ hw₃ h₃ _ ↦ ?_
    have hknown : T.known w₃.journal ctx.text := ((h₁.trans h₂).trans h₃).knows htext
    refine (ih hw₃ hknown (number + 1) stage.next hforms.right).bind
      fun others w₄ hw₄ h₄ hothers ↦ .pure hw₄ fun result' hresult' ↦ ?_
    rcases List.mem_cons.mp hresult' with rfl | hresult'
    · exact fun e he span hspan ↦ (h₃.trans h₄).blames (hresult e he span hspan)
    · exact hothers result' hresult'

theorem complies_evalPipeline (hgo : Runner.Complies T go) (hw : w.Obeys T)
    (htext : T.known w.journal ctx.text) {forms : List Code.Form}
    (hforms : T.Fit ctx.text (Code.formsSpans forms)) : (evalPipeline go ctx forms).Plain T w := by
  unfold evalPipeline
  split
  · exact complies_evalForm hgo hw htext hforms.left
  · refine (complies_runStages hgo hw htext 1 none hforms).bind fun results w₁ hw₁ _ hresults ↦ ?_
    exact complies_verdict hw₁ hresults

theorem complies_evalPipelines (hgo : Runner.Complies T go) (hw : w.Obeys T)
    (htext : T.known w.journal ctx.text) {pipelines : List (List Code.Form)}
    (hpipelines : T.Fit ctx.text (Code.pipelinesSpans pipelines)) :
    (evalPipelines go ctx pipelines).Plain T w := by
  induction pipelines generalizing w with
  | nil => exact .pure hw trivial
  | cons forms rest ih =>
    refine (Complies.checkInterrupt hw).bind fun _ w₁ hw₁ h₁ _ ↦ ?_
    refine (complies_evalPipeline hgo hw₁ (h₁.knows htext) hpipelines.left).bind
      fun _ w₂ hw₂ h₂ _ ↦ ?_
    exact ih hw₂ ((h₁.trans h₂).knows htext) hpipelines.right

theorem complies_evalBlock (hgo : Runner.Complies T go) (hw : w.Obeys T)
    (htext : T.known w.journal ctx.text) {block : Code.Block}
    (hblock : T.Fit ctx.text block.spans) : (evalBlock go ctx block).Plain T w := by
  obtain ⟨span, pipelines⟩ := block
  exact complies_evalPipelines hgo hw htext hblock.tail

/-! ## Closures -/

theorem complies_newScope (hw : w.Obeys T) : (Act.change fun w ↦ w.newScope {}).Plain T w :=
  have hempty : ∀ id, ({} : Scope).Binds id → w.Ready (.bound id) :=
    fun id hid ↦ absurd hid (Scope.not_binds_empty id)
  ⟨⟨hw.toLawful.newScope hempty, hw.here⟩, .of_vars List.prefix_rfl rfl, trivial⟩

/-- Parameters are bound to variables that hold the arguments. -/
theorem complies_bindParameters (hw : w.Obeys T) (scope : ScopeId) (names : List Bytes)
    {values : List Value} (hvalues : AllObey T values w) :
    (bindParameters scope names values).Plain T w := by
  induction names generalizing values w with
  | nil => exact .pure hw trivial
  | cons name names ih =>
    cases values with
    | nil => exact .pure hw trivial
    | cons v values =>
      have hv : v.Obeys T w.journal := hvalues v List.mem_cons_self
      unfold bindParameters
      refine (Complies.kindOf hw hv).bind fun kind w₁ hw₁ _ ⟨heq, hkind⟩ ↦ ?_
      subst heq
      let x : Variable := .plain (some kind) v
      have hx : x.Obeys T w₁.journal := ⟨hkind, hv⟩
      have honward : Onward w₁ (w₁.newVariable x).2 := .newVariable w₁ x
      have hready : (w₁.newVariable x).2.Ready (.bound (w₁.newVariable x).1) := by
        change (((w₁.vars.push x).get? w₁.vars.size).getD default).isSet = true
        rw [Table.get?_push_size]
        rfl
      have hbind : (Act.modify fun w ↦
          (w.newVariable x).2.define scope name (w.newVariable x).1).Plain T w₁ :=
        ⟨⟨(hw₁.toLawful.newVariable hx).define hready scope name, hw₁.here⟩,
          honward.trans (.of_vars List.prefix_rfl rfl), trivial⟩
      refine hbind.bind fun _ w₂ hw₂ h₂ _ ↦ ih hw₂ fun u hu ↦ ?_
      exact h₂.value (hvalues u (List.mem_cons_of_mem _ hu))

/-- The body of a closure runs in the text that the closure stands in. -/
theorem complies_callClosure (hgo : Runner.Complies T go) (hw : w.Obeys T) {c : Closure}
    {arguments : List Value} (hc : c.Obeys T w.journal) (harguments : AllObey T arguments w) :
    (callClosure go ctx c arguments).Plain T w := by
  unfold callClosure
  split
  · exact .raiseUnblamed hw rfl
  · refine (complies_newScope hw).bind fun scope w₁ hw₁ h₁ _ ↦ ?_
    refine (complies_bindParameters hw₁ scope c.parameters (harguments.onward h₁)).bind
      fun _ w₂ hw₂ h₂ _ ↦ ?_
    refine (Complies.quiet hw₂ (.change fun w ↦ .forkEndpoints w _)).bind
      fun endpoints w₃ hw₃ h₃ _ ↦ ?_
    let body : Context :=
      { name := c.name, text := c.text, label := utf8 "closure", scope, outer := c.captured,
        endpoints, chunk := c.chunk }
    have hknown : T.known w₃.journal body.text := ((h₁.trans h₂).trans h₃).knows hc.known
    have hspan : T.blames w₃.journal c.body.span := by
      refine T.blames_fits hknown (hc.fits _ ?_)
      obtain ⟨⟩ := c.body
      exact List.mem_cons_self
    have hmoved : { w₃ with here := c.body.span }.Obeys T := .move hw₃.toLawful hspan
    have hbody : (evalBlock go body c.body).Plain T { w₃ with here := c.body.span } :=
      complies_evalBlock hgo hmoved hknown hc.fits
    exact (Complies.within hw₃ hbody fun _ _ h ↦ h).ensuringHandles body.handles_finish

/-! ## Modules -/

/-- The body of a module runs in the text of its file. -/
theorem complies_runModule (hgo : Runner.Complies T go) (hw : w.Obeys T) (name file : Bytes)
    {text : Bytes} (chunk : Script.Chunk) {code : Code.Block} (htext : T.known w.journal text)
    (hcode : T.Fit text code.spans) : (runModule go ctx name file text chunk code).Plain T w := by
  unfold runModule
  refine (complies_newScope hw).bind fun scope w₁ hw₁ h₁ _ ↦ ?_
  refine (complies_newScope hw₁).bind fun outer w₂ hw₂ h₂ _ ↦ ?_
  refine (Complies.quiet hw₂ (.change fun w ↦ .forkEndpoints w _)).bind
    fun endpoints w₃ hw₃ h₃ _ ↦ ?_
  let body : Context :=
    { name := file, text, label := utf8 "module " ++ name, scope, outer, endpoints, chunk }
  have hknown : T.known w₃.journal body.text := ((h₁.trans h₂).trans h₃).knows htext
  have hmoved : { w₃ with here := ⟨0, text.length⟩ }.Obeys T :=
    .move hw₃.toLawful (T.blames_fits hknown (T.fits_whole text))
  have hbody : (evalBlock go body code).Plain T { w₃ with here := ⟨0, text.length⟩ } :=
    complies_evalBlock hgo hmoved hknown hcode
  have hrun : (Act.within ⟨0, text.length⟩ (Act.attempt (evalBlock go body code))).Plain T w₃ :=
    .within hw₃ (Complies.attempt hbody) fun _ _ _ ↦ trivial
  refine (hrun.ensuringHandles body.handles_drop).bind fun error w₄ hw₄ _ _ ↦ ?_
  cases error with
  | none => exact .pure hw₄ trivial
  | some e => exact .raiseUnblamed hw₄ rfl

/-- A parsed file is what the parser makes of its text. -/
theorem fit_of_parseModule {setup : Setup} (hsetup : T.Admits setup) {name file text : Bytes}
    {chunk : Script.Chunk} {w' : World} (h : parseModule setup name file w = (.done (text, chunk), w')) :
    T.Fit text chunk.spans := by
  rcases parseModule_cases setup name file w with ⟨why, v, hparse⟩ |
    ⟨found, parser, parsed, -, hparser, hresult, hparse⟩ <;> rw [hparse] at h <;> cases h
  exact hsetup parser hparser _ _ hresult

/-- A module is compiled to code that fits its text, and the text is known before the code runs. -/
theorem complies_loadFile {setup : Setup} (hsetup : T.Admits setup) (hgo : Runner.Complies T go)
    (hw : w.Obeys T) (name : Bytes) : (loadFile setup go ctx name).Plain T w := by
  have hparse : (parseModule setup name (moduleFile setup name)).Complies T w fun parsed _ ↦
      T.Fit parsed.1 parsed.2.spans :=
    .quietly hw (quiet_parseModule setup name _) fun _ _ h ↦ fit_of_parseModule hsetup h
  unfold loadFile
  refine hparse.bind fun (text, chunk) w₁ hw₁ _ hchunk ↦ .worldBind ?_
  have hcompile : Code.Confined chunk.spans Code.Block.spans
      (Code.ofScript [] (w₁.scope World.builtins).names chunk) := Code.compileChunk_confined [] chunk
  rcases hcode : Code.ofScript [] (w₁.scope World.builtins).names chunk with e | code <;>
    rw [hcode] at hcompile
  · exact .raiseUnblamed hw₁ rfl
  · refine (Complies.note hw₁ (.bodyBegan name text)).bind fun _ w₂ hw₂ _ hnoted ↦ ?_
    have hknown : T.known w₂.journal text := hnoted ▸ T.known_body name text hw₁.past
    refine (complies_runModule hgo hw₂ name _ chunk hknown (hchunk.of_subset hcompile)).bind
      fun scope w₃ hw₃ _ _ ↦ ?_
    have hregistered : (register name scope w₃).Obeys T :=
      ⟨hw₃.toLawful.of_vars List.prefix_rfl rfl rfl fun _ ↦ .inl, hw₃.here⟩
    exact ⟨hregistered, .of_vars List.prefix_rfl rfl, trivial⟩

theorem complies_loadModule {setup : Setup} (hsetup : T.Admits setup) (hgo : Runner.Complies T go)
    (hw : w.Obeys T) (name : Bytes) : (loadModule setup go ctx name).Plain T w := by
  unfold loadModule
  split
  · exact .raiseUnblamed hw rfl
  · refine (Complies.note hw (.loadBegan name)).bind fun _ w₁ hw₁ _ _ ↦ ?_
    refine (complies_loadFile hsetup hgo hw₁ name).ensuring (fun w' hw' ↦ ⟨hw'.note _, ?_⟩)
      fun _ _ _ _ _ ↦ trivial
    exact .of_vars (List.prefix_append _ _) rfl

end Eval

end Conduit
