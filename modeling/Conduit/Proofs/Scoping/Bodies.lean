import Conduit.Proofs.Scoping.Evaluation

/-!
# Secure Bodies

The pipelines of a block run one after another, and what one of them brings the next ones see.  The
body of a closure sees its parameters, which have just been bound, its snapshot and the builtins, and
the body of a module sees the builtins.
-/

namespace Conduit.Eval

open World (Grows Calm Handles)
open Act (Secure Safe)
open Value (AllSound)

variable {go : Runner} {ctx : Context} {w : World}

/-! ## Pipelines -/

theorem secure_openStage (hw : w.Sound) (ctx : Context) (number : Nat) (input : Option EndpointId)
    (rest : List Code.Form) :
    (openStage ctx number input rest).Secure w fun stage _ ↦ ctx.Alike stage.ctx := by
  have hmade := Secure.handles hw (handles_openStage ctx number input rest)
  exact (hmade.yielding (openStage_alike ctx number input rest)).mono fun _ _ _ _ h ↦ h.2

theorem secure_runStages (hgo : Runner.Secure go) (hw : w.Sound) (hs : ctx.scope < w.scopes.size)
    (number : Nat) (input : Option EndpointId) {forms : List Code.Form}
    (hforms : ctx.chunk.Solo → Code.formsScoped (ctx.Sees w) forms) :
    (runStages go ctx number input forms).Safe w := by
  induction forms generalizing number input w with
  | nil => exact .pure hw trivial
  | cons form rest ih =>
    refine (secure_openStage hw ctx number input rest).bind fun stage w₁ hw₁ hg₁ halike ↦ ?_
    have hscope : stage.ctx.scope < w₁.scopes.size := by
      rw [halike.scope]
      exact Nat.lt_of_lt_of_le hs hg₁.size_le
    have hform : stage.ctx.chunk.Solo → form.Scoped (stage.ctx.Sees w₁) := by
      intro hsolo
      rw [halike.chunk] at hsolo
      exact (hforms hsolo).1.mono fun _ hname ↦ halike.sees (hname.grows hg₁)
    have hstage := Secure.apart (.settled (secure_evalForm hgo hw₁ hscope hform).safe)
    refine (hstage.ensuring stage.ctx.handles_finish).bind fun result w₂ hw₂ hg₂ _ ↦ ?_
    refine (Secure.handles hw₂ (handles_closeInput stage.upper)).bind fun _ w₃ hw₃ hg₃ _ ↦ ?_
    have hg : Grows w w₃ := (hg₁.trans hg₂).trans hg₃
    have hrest : ctx.chunk.Solo → Code.formsScoped (ctx.Sees w₃) rest :=
      fun hsolo ↦ Code.formsScoped_mono (fun _ hname ↦ hname.grows hg) (hforms hsolo).2
    refine (ih hw₃ (Nat.lt_of_lt_of_le hs hg.size_le) (number + 1) stage.next hrest).bind
      fun others w₄ hw₄ _ _ ↦ ?_
    exact .pure hw₄ trivial

theorem secure_verdict (hw : w.Sound) (results : List StageResult) : (verdict results).Safe w := by
  unfold verdict
  split
  · exact .throwForeign hw _
  · exact .raise hw _
  · exact .pure hw trivial

/-- A pipeline is secure, and when it succeeds what it brings is seen. -/
theorem secure_evalPipeline (hgo : Runner.Secure go) (hw : w.Sound)
    (hs : ctx.scope < w.scopes.size) {forms : List Code.Form}
    (hforms : ctx.chunk.Solo → Code.formsScoped (ctx.Sees w) forms) :
    (evalPipeline go ctx forms).Secure w fun _ w' ↦
      ∀ name ∈ Code.broughtBy forms, ctx.Sees w' name := by
  unfold evalPipeline
  split
  · exact secure_evalForm hgo hw hs fun hsolo ↦ (hforms hsolo).1
  · rename_i hne
    rw [Code.broughtBy_of_ne hne]
    refine (secure_runStages hgo hw hs 1 none hforms).bind fun results w₁ hw₁ _ _ ↦ ?_
    exact (secure_verdict hw₁ results).mono fun _ _ _ _ _ name hname ↦ nomatch hname

theorem secure_evalPipelines (hgo : Runner.Secure go) (hw : w.Sound)
    (hs : ctx.scope < w.scopes.size) {pipelines : List (List Code.Form)}
    (hscoped : ctx.chunk.Solo → Code.pipelinesScoped (ctx.Sees w) pipelines) :
    (evalPipelines go ctx pipelines).Safe w := by
  induction pipelines generalizing w with
  | nil => exact .pure hw trivial
  | cons forms rest ih =>
    refine (Secure.checkInterrupt hw).bind fun _ w₁ hw₁ hg₁ _ ↦ ?_
    have hs₁ : ctx.scope < w₁.scopes.size := Nat.lt_of_lt_of_le hs hg₁.size_le
    have hforms : ctx.chunk.Solo → Code.formsScoped (ctx.Sees w₁) forms :=
      fun hsolo ↦ Code.formsScoped_mono (fun _ hname ↦ hname.grows hg₁) (hscoped hsolo).1
    refine (secure_evalPipeline hgo hw₁ hs₁ hforms).bind fun _ w₂ hw₂ hg₂ hbrought ↦ ?_
    apply ih hw₂ (Nat.lt_of_lt_of_le hs₁ hg₂.size_le)
    intro hsolo
    -- What the pipeline has brought is seen now, and the rest was seen before.
    refine Code.pipelinesScoped_mono (fun name hname ↦ ?_) (hscoped hsolo).2
    rcases hname with hname | hname
    · exact hbrought name hname
    · exact hname.grows (hg₁.trans hg₂)

theorem secure_evalBlock (hgo : Runner.Secure go) (hw : w.Sound) (hs : ctx.scope < w.scopes.size)
    {block : Code.Block} (hblock : ctx.chunk.Solo → block.Scoped (ctx.Sees w)) :
    (evalBlock go ctx block).Safe w := by
  obtain ⟨span, pipelines⟩ := block
  exact secure_evalPipelines hgo hw hs hblock

/-! ## Closures -/

/-- Parameters that match the arguments are bound afterwards. -/
theorem secure_bindParameters {scope : ScopeId} {names : List Bytes} {values : List Value}
    (hw : w.Sound) (hs : scope < w.scopes.size) (hlength : values.length = names.length)
    (hvalues : AllSound values w) :
    (bindParameters scope names values).Secure w fun _ w' ↦ ∀ name ∈ names, w'.Has scope name := by
  induction names generalizing values w with
  | nil => exact .pure hw nofun
  | cons name names ih =>
    cases values with
    | nil => cases hlength
    | cons v values =>
      have hkind : (Act.kindOf v).Safe w := .calm hw (Act.calm_kindOf v)
      refine hkind.bind fun kind w₁ hw₁ hg₁ _ ↦ ?_
      let x : Variable := .plain (some kind) v
      have hv : ∀ c ∈ x.closures, c.Sound w₁ :=
        fun c hc ↦ (hvalues v List.mem_cons_self c hc).grows hg₁
      have hnew : Calm (·.Sound w₁) w₁ (w₁.newVariable x).2 := .newVariable w₁ hv
      have hdefine : Grows (w₁.newVariable x).2
          ((w₁.newVariable x).2.define scope name (w₁.newVariable x).1) :=
        .define _ scope name _
      have hs₁ : scope < (w₁.newVariable x).2.scopes.size := by
        rw [hnew.scopes]
        exact Nat.lt_of_lt_of_le hs hg₁.size_le
      have hbind : (Act.modify fun w ↦
          (w.newVariable x).2.define scope name (w.newVariable x).1).Secure w₁
            fun _ w' ↦ w'.Has scope name := by
        refine ⟨?_, Grows.trans (.of_scopes hnew.scopes) hdefine, World.has_define hs₁ name _⟩
        exact (hw₁.calm hnew fun _ hc ↦ hc).scopes hdefine rfl rfl rfl
      refine hbind.bind fun _ w₂ hw₂ hg₂ hname ↦ ?_
      have hg : Grows w w₂ := hg₁.trans hg₂
      refine (ih hw₂ (Nat.lt_of_lt_of_le hs hg.size_le) (Nat.succ.inj hlength)
        fun u hu ↦ (hvalues u (List.mem_cons_of_mem _ hu)).grows hg).mono
          fun _ w₃ _ hg₃ hnames other hother ↦ ?_
      rcases List.mem_cons.mp hother with rfl | hother
      · exact hg₃.has _ _ hname
      · exact hnames other hother

theorem secure_newScope (hw : w.Sound) :
    (Act.change fun w ↦ w.newScope {}).Secure w fun scope w' ↦ scope < w'.scopes.size := by
  have hgrows : Grows w (w.newScope {}).2 := .newScope {} w
  refine ⟨hw.scopes hgrows rfl rfl rfl, hgrows, ?_⟩
  simp

/-- Wherever a sound closure is called, its body finds what it was promised. -/
theorem secure_callClosure (hgo : Runner.Secure go) (hw : w.Sound) {c : Closure}
    {arguments : List Value} (hc : c.Sound w) (harguments : AllSound arguments w) :
    (callClosure go ctx c arguments).Safe w := by
  unfold callClosure
  split
  · exact .raise hw _
  · rename_i harity
    refine (secure_newScope hw).bind fun scope w₁ hw₁ hg₁ hs ↦ ?_
    refine (secure_bindParameters hw₁ hs (Decidable.not_not.mp harity)
      (harguments.grows hg₁)).bind fun _ w₂ hw₂ hg₂ hparameters ↦ ?_
    refine (Secure.handles hw₂ (.change fun w ↦ .forkEndpoints w _)).bind
      fun endpoints w₃ hw₃ hg₃ _ ↦ ?_
    let body : Context :=
      { name := c.name, text := c.text, label := utf8 "closure", scope, outer := c.captured,
        endpoints, chunk := c.chunk }
    have hg : Grows w w₃ := (hg₁.trans hg₂).trans hg₃
    have hscope : body.scope < w₃.scopes.size :=
      Nat.lt_of_lt_of_le hs (hg₂.trans hg₃).size_le
    have hbody : body.chunk.Solo → c.body.Scoped (body.Sees w₃) := by
      refine fun hsolo ↦ (hc.grows hg hsolo).mono fun name hname ↦ (body.sees_iff w₃ name).mpr ?_
      rcases hname with hname | hname
      · exact .inl (hg₃.has _ _ (hparameters name hname))
      · exact .inr hname
    have hmoved : { w₃ with here := c.body.span }.Sound := Secure.moved hw₃ c.body.span
    exact (Secure.within _ (secure_evalBlock hgo hmoved hscope hbody)).ensuring body.handles_finish

/-! ## Modules -/

/-- The body of a module sees the builtins. -/
theorem secure_runModule (hgo : Runner.Secure go) (hw : w.Sound) (name file text : Bytes)
    {chunk : Script.Chunk} {code : Code.Block}
    (hcode : chunk.Solo → code.Scoped (w.Has World.builtins)) :
    (runModule go ctx name file text chunk code).Safe w := by
  unfold runModule
  refine (secure_newScope hw).bind fun scope w₁ hw₁ hg₁ hs ↦ ?_
  refine (secure_newScope hw₁).bind fun outer w₂ hw₂ hg₂ _ ↦ ?_
  refine (Secure.handles hw₂ (.change fun w ↦ .forkEndpoints w _)).bind
    fun endpoints w₃ hw₃ hg₃ _ ↦ ?_
  let body : Context :=
    { name := file, text, label := utf8 "module " ++ name, scope, outer, endpoints, chunk }
  have hg : Grows w w₃ := (hg₁.trans hg₂).trans hg₃
  have hscope : body.scope < w₃.scopes.size := Nat.lt_of_lt_of_le hs (hg₂.trans hg₃).size_le
  have hbody : body.chunk.Solo → code.Scoped (body.Sees w₃) :=
    fun hsolo ↦ (hcode hsolo).mono fun other hother ↦
      (body.sees_iff w₃ other).mpr (.inr (.inr (hg.has _ _ hother)))
  have hmoved : { w₃ with here := ⟨0, text.length⟩ }.Sound := Secure.moved hw₃ _
  have hrun := Secure.within _ (.attempt (secure_evalBlock hgo hmoved hscope hbody))
  refine (hrun.ensuring body.handles_drop).bind fun error w₄ hw₄ _ _ ↦ ?_
  cases error with
  | none => exact .pure hw₄ trivial
  | some e => exact .raise hw₄ _

/-- A module is compiled against the builtin names, so its code is scoped by them. -/
theorem secure_loadFile (hgo : Runner.Secure go) (hw : w.Sound) (setup : Setup) (name : Bytes) :
    (loadFile setup go ctx name).Safe w := by
  unfold loadFile
  refine (Secure.calm hw (calm_parseModule setup name _)).bind fun (text, chunk) w₁ hw₁ _ _ ↦ ?_
  refine .worldBind ?_
  rcases hcompile : Code.ofScript [] (w₁.scope World.builtins).names chunk with e | code
  · exact .raise hw₁ _
  · have hcode : chunk.Solo → code.Scoped (w₁.Has World.builtins) := by
      intro hsolo
      refine (Code.compileChunk_scoped hsolo hcompile).mono fun other hother ↦ ?_
      rcases hother with hother | hother
      · exact (Scope.mem_names_iff _ other).mp hother
      · cases hother
    have hbegan : (Act.modify (World.note (.bodyBegan name text))).Safe w₁ :=
      ⟨hw₁.note nofun, .of_scopes rfl, trivial⟩
    refine hbegan.bind fun _ w₂ hw₂ hg _ ↦ ?_
    have hcode₂ : chunk.Solo → code.Scoped (w₂.Has World.builtins) :=
      fun hsolo ↦ (hcode hsolo).mono fun other hother ↦ hg.has _ _ hother
    refine (secure_runModule hgo hw₂ name _ text hcode₂).bind fun scope w₃ hw₃ _ _ ↦ ?_
    have hregistered : (register name scope w₃).Sound := hw₃.scopes (.of_scopes rfl) rfl rfl rfl
    exact ⟨hregistered, .of_scopes rfl, trivial⟩

theorem secure_loadModule (hgo : Runner.Secure go) (hw : w.Sound) (setup : Setup) (name : Bytes) :
    (loadModule setup go ctx name).Safe w := by
  unfold loadModule
  split
  · exact .raise hw _
  · have hbegan : (Act.modify (World.note (.loadBegan name))).Safe w :=
      ⟨hw.note nofun, .of_scopes rfl, trivial⟩
    refine hbegan.bind fun _ w₁ hw₁ _ _ ↦ ?_
    refine (secure_loadFile hgo hw₁ setup name).ensuringSound (fun w' hw' ↦ ?_) fun _ _ ↦ id
    exact ⟨hw'.note nofun, .of_scopes rfl⟩

end Conduit.Eval
