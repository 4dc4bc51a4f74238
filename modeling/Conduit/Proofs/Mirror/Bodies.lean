import Conduit.Eval.Call
import Conduit.Proofs.Mirror.Evaluation

/-!
# Bodies that Run alike

Pipelines and blocks run in two contexts that are alike.  A closure body and a module body run in
new scopes, which are paired from then on.
-/

namespace Conduit.Eval

open Act (Mirror Same Any)

variable {r : Pairing} {o o' : ScopeId} {go : Runner} {ctx ctx' : Context} {w w' : World}

/-! ## Stages -/

theorem mirror_settled {act act' : Act Unit} (h : Mirror o o' r Any act act' w w') :
    Mirror o o' r Same (settled act) (settled act') w w' := by
  unfold Mirror at h
  unfold Mirror settled
  generalize act w = ends, act' w' = ends' at h
  cases h with
  | done hrs hw ha => exact .done hrs hw rfl
  | raised e hrs hw =>
    refine .done hrs hw ?_
    rw [hw.congr World.here fun _ ↦ rfl]
  | foreign what hrs hw => exact .done hrs hw rfl
  | halted reason hrs hw => exact .halted reason hrs hw

theorem mirror_newLink (hw : w.Mirrors o o' r w') : Mirror o o' r Same newLink newLink w w' := by
  have hpipe := hw.newPipe
  unfold newLink Mirror Act.change
  dsimp only
  generalize w.newPipe = ends, w'.newPipe = ends' at hpipe
  obtain ⟨⟨pipe, reader, writer⟩, w₁⟩ := ends
  obtain ⟨_, w₁'⟩ := ends'
  obtain ⟨rfl, hw₁⟩ := hpipe
  let line : Line := { channel := .ofCapacity linkCapacity, attended := true }
  have hline : line.Like r line := ⟨⟨.nil, rfl, rfl⟩, rfl⟩
  have hchannel := hw₁.newChannel hline
  have houtput := hchannel.2.newEndpoint
    { stream := some writer, channel := some (w₁.newChannel line).1, closesChannel := true }
  have hinput := houtput.2.newEndpoint
    { stream := some reader, channel := some (w₁.newChannel line).1 }
  refine .done (le_refl r) (s := r) ?_ ?_
  · rw [hchannel.1]
    exact hinput.2
  · dsimp only [Same]
    rw [hchannel.1]
    exact Prod.ext houtput.1 hinput.1

theorem mirror_linkBefore (hw : w.Mirrors o o' r w') (rest : List Code.Form) :
    Mirror o o' r Same (linkBefore rest) (linkBefore rest) w w' := by
  unfold linkBefore
  split
  · exact .pure hw rfl
  · exact (mirror_newLink hw).bindSame fun s link w₁ w₁' _ hw₁ ↦ .pure hw₁ rfl

theorem mirror_closeInput (hw : w.Mirrors o o' r w') (channel : Option ChannelId) :
    Mirror o o' r Any (closeInput channel) (closeInput channel) w w' := by
  cases channel with
  | none => exact .modify (le_refl r) hw
  | some channel => exact .modify (le_refl r) (hw.closeChannel channel)

theorem mirror_attach (hctx : ctx.Like o o' r ctx') (hw : w.Mirrors o o' r w') (n : Nat)
    (e : Option EndpointId) :
    Mirror o o' r (Context.Like o o') (attach ctx n e) (attach ctx' n e) w w' := by
  cases e with
  | none => exact .pure hw hctx
  | some e => exact .setEndpoint hctx hw n (some e)

/-- Two stages in contexts that are alike. -/
structure Stage.Like (o o' : ScopeId) (r : Pairing) (stage stage' : Stage) : Prop where
  ctx : stage.ctx.Like o o' r stage'.ctx
  upper : stage'.upper = stage.upper
  next : stage'.next = stage.next

theorem mirror_openStage (hctx : ctx.Like o o' r ctx') (hw : w.Mirrors o o' r w') (number : Nat)
    (input : Option EndpointId) (rest : List Code.Form) :
    Mirror o o' r (Stage.Like o o') (openStage ctx number input rest)
      (openStage ctx' number input rest) w w' := by
  unfold openStage
  refine (Mirror.fork hctx hw _).bind fun s₁ fork fork' w₁ w₁' _ hw₁ hfork ↦ ?_
  refine (mirror_attach hfork hw₁ 0 input).bind fun s₂ reading reading' w₂ w₂' _ hw₂ hreading ↦ ?_
  refine (mirror_linkBefore hw₂ rest).bindSame fun s₃ link w₃ w₃' h₃ hw₃ ↦ ?_
  refine (mirror_attach (hreading.mono h₃) hw₃ 1 _).bind
    fun s₄ ready ready' w₄ w₄' _ hw₄ hready ↦ ?_
  refine .worldBind (.pure hw₄ ⟨hready, ?_, rfl⟩)
  dsimp only
  rw [hready.channel?_eq hw₄]

theorem mirror_runStages (hgo : Runner.Mirrored o o' go) (hctx : ctx.Like o o' r ctx')
    (hw : w.Mirrors o o' r w') (number : Nat) (input : Option EndpointId)
    (forms : List Code.Form) :
    Mirror o o' r Same (runStages go ctx number input forms) (runStages go ctx' number input forms)
      w w' := by
  induction forms generalizing r number input w w' with
  | nil => exact .pure hw rfl
  | cons form rest ih =>
    unfold runStages
    refine (mirror_openStage hctx hw number input rest).bind
      fun s₁ stage stage' w₁ w₁' h₁ hw₁ hstage ↦ ?_
    have hstage₁ : Mirror o o' s₁ Same (Act.apart (settled (evalForm go stage.ctx form)))
        (Act.apart (settled (evalForm go stage'.ctx form))) w₁ w₁' :=
      .apart hw₁ fun w w' hw ↦ mirror_settled (mirror_evalForm hgo hstage.ctx hw form)
    refine (hstage₁.ensuring fun s w w' hw ↦ hstage.ctx.finish hw).bindSame
      fun s₂ result w₂ w₂' h₂ hw₂ ↦ ?_
    rw [hstage.upper, hstage.next]
    refine (mirror_closeInput hw₂ stage.upper).bind fun s₃ _ _ w₃ w₃' h₃ hw₃ _ ↦ ?_
    refine (ih (hctx.mono (h₁.trans (h₂.trans h₃))) hw₃ _ _).bindSame
      fun s₄ others w₄ w₄' _ hw₄ ↦ ?_
    exact .pure hw₄ rfl

theorem mirror_verdict (hw : w.Mirrors o o' r w') (results : List StageResult) :
    Mirror o o' r Any (verdict results) (verdict results) w w' := by
  unfold verdict
  split
  · exact .throwForeign hw _
  · exact .raise hw _
  · exact .pure hw trivial

/-! ## Pipelines and blocks -/

theorem mirror_evalPipeline (hgo : Runner.Mirrored o o' go) (hctx : ctx.Like o o' r ctx')
    (hw : w.Mirrors o o' r w') (forms : List Code.Form) :
    Mirror o o' r Any (evalPipeline go ctx forms) (evalPipeline go ctx' forms) w w' := by
  unfold evalPipeline
  split
  · exact mirror_evalForm hgo hctx hw _
  · exact (mirror_runStages hgo hctx hw 1 none forms).bindSame
      fun s results w₁ w₁' _ hw₁ ↦ mirror_verdict hw₁ results

theorem mirror_evalPipelines (hgo : Runner.Mirrored o o' go) (hctx : ctx.Like o o' r ctx')
    (hw : w.Mirrors o o' r w') (pipelines : List (List Code.Form)) :
    Mirror o o' r Any (evalPipelines go ctx pipelines) (evalPipelines go ctx' pipelines) w w' := by
  induction pipelines generalizing r w w' with
  | nil => exact .pure hw trivial
  | cons forms rest ih =>
    refine (Mirror.checkInterrupt hw).bind fun s₁ _ _ w₁ w₁' h₁ hw₁ _ ↦ ?_
    have hctx₁ := hctx.mono h₁
    refine (mirror_evalPipeline hgo hctx₁ hw₁ forms).bind fun s₂ _ _ w₂ w₂' h₂ hw₂ _ ↦ ?_
    exact ih (hctx₁.mono h₂) hw₂

theorem mirror_evalBlock (hgo : Runner.Mirrored o o' go) (hctx : ctx.Like o o' r ctx')
    (hw : w.Mirrors o o' r w') (block : Code.Block) :
    Mirror o o' r Any (evalBlock go ctx block) (evalBlock go ctx' block) w w' :=
  mirror_evalPipelines hgo hctx hw block.pipelines

/-! ## Closures -/

theorem mirror_bindParameters {i i' : ScopeId} (hi : r i i') (hw : w.Mirrors o o' r w')
    (names : List Bytes) {vs vs' : List Value} (hvs : Value.AllLike r vs vs') :
    Mirror o o' r Any (bindParameters i names vs) (bindParameters i' names vs') w w' := by
  induction names generalizing r vs vs' w w' with
  | nil => cases hvs <;> exact .pure hw trivial
  | cons name names ih =>
    cases hvs with
    | nil => exact .pure hw trivial
    | @cons v v' _ _ hv hrest =>
      refine (Mirror.kindOf hw hv).bindSame fun s₁ kind w₁ w₁' h₁ hw₁ ↦ ?_
      have hnew := hw₁.newVariable (.plain (some kind) (hv.mono h₁))
      have hdefine : Mirror o o' s₁ Any
          (Act.modify fun w ↦ (w.newVariable (.plain (some kind) v)).2.define i name
            (w.newVariable (.plain (some kind) v)).1)
          (Act.modify fun w ↦ (w.newVariable (.plain (some kind) v')).2.define i' name
            (w.newVariable (.plain (some kind) v')).1) w₁ w₁' := by
        refine .modify (le_refl s₁) ?_
        rw [hnew.1]
        exact hnew.2.define (h₁ _ _ hi) name _
      refine hdefine.bind fun s₂ _ _ w₂ w₂' h₂ hw₂ _ ↦ ?_
      exact ih ((h₁.trans h₂) _ _ hi) hw₂ (Value.AllLike.mono (h₁.trans h₂) hrest)

theorem mirror_forkEndpoints (hctx : ctx.Like o o' r ctx') (hw : w.Mirrors o o' r w') :
    Mirror o o' r Same (Act.change fun w ↦ w.forkEndpoints ctx.endpoints)
      (Act.change fun w ↦ w.forkEndpoints ctx'.endpoints) w w' := by
  have hfork := hw.forkEndpoints ctx.endpoints
  rw [hctx.endpoints]
  exact .change (le_refl r) hfork.2 hfork.1

theorem mirror_callClosure (hgo : Runner.Mirrored o o' go) (hctx : ctx.Like o o' r ctx')
    (hw : w.Mirrors o o' r w') {c c' : Closure} (hc : c.Like r c') {vs vs' : List Value}
    (hvs : Value.AllLike r vs vs') :
    Mirror o o' r Any (callClosure go ctx c vs) (callClosure go ctx' c' vs') w w' := by
  have hlength : vs'.length = vs.length := hvs.length_eq.symm
  unfold callClosure
  rw [hlength, hc.parameters, hc.body]
  split
  · exact .raise hw _
  · refine (Mirror.newScope hw {}).bind fun s₁ i i' w₁ w₁' h₁ hw₁ hi ↦ ?_
    refine (mirror_bindParameters hi hw₁ _ (Value.AllLike.mono h₁ hvs)).bind
      fun s₂ _ _ w₂ w₂' h₂ hw₂ _ ↦ ?_
    refine (mirror_forkEndpoints (hctx.mono (h₁.trans h₂)) hw₂).bindSame
      fun s₃ endpoints w₃ w₃' h₃ hw₃ ↦ ?_
    have hbody : Context.Like o o' s₃
        { name := c.name, text := c.text, label := utf8 "closure", scope := i, outer := c.captured,
          endpoints, chunk := c.chunk }
        { name := c'.name, text := c'.text, label := utf8 "closure", scope := i',
          outer := c'.captured, endpoints, chunk := c'.chunk } := by
      have houter : s₃ c.captured c'.captured := (h₁.trans (h₂.trans h₃)) _ _ hc.captured
      exact ⟨⟨hc.name, hc.text⟩, rfl, rfl, (h₂.trans h₃) _ _ hi, .inl houter⟩
    exact (Mirror.within hw₃ _ fun w w' hw ↦ mirror_evalBlock hgo hbody hw c.body).ensuring
      fun s w w' hw ↦ hbody.finish hw

/-! ## Modules -/

theorem mirror_runModule (hgo : Runner.Mirrored o o' go) (hctx : ctx.Like o o' r ctx')
    (hw : w.Mirrors o o' r w') (name file text : Bytes) (chunk : Script.Chunk) (code : Code.Block) :
    Mirror o o' r (fun s i i' ↦ s i i') (runModule go ctx name file text chunk code)
      (runModule go ctx' name file text chunk code) w w' := by
  unfold runModule
  refine (Mirror.newScope hw {}).bind fun s₁ i i' w₁ w₁' h₁ hw₁ hi ↦ ?_
  refine (Mirror.newScope hw₁ {}).bind fun s₂ j j' w₂ w₂' h₂ hw₂ hj ↦ ?_
  refine (mirror_forkEndpoints (hctx.mono (h₁.trans h₂)) hw₂).bindSame
    fun s₃ endpoints w₃ w₃' h₃ hw₃ ↦ ?_
  have hbody : Context.Like o o' s₃
      { name := file, text, label := utf8 "module " ++ name, scope := i, outer := j, endpoints,
        chunk }
      { name := file, text, label := utf8 "module " ++ name, scope := i', outer := j', endpoints,
        chunk } :=
    ⟨⟨rfl, rfl⟩, rfl, rfl, (h₂.trans h₃) _ _ hi, .inl (h₃ _ _ hj)⟩
  have hrun := Mirror.within hw₃ ⟨0, text.length⟩
    fun w w' hw ↦ (mirror_evalBlock hgo hbody hw code).attempt
  refine (hrun.ensuring fun s w w' hw ↦ hbody.drop hw).bindSame fun s₄ error w₄ w₄' h₄ hw₄ ↦ ?_
  cases error with
  | none => exact .pure hw₄ ((h₂.trans (h₃.trans h₄)) _ _ hi)
  | some e => exact .raise hw₄ _

theorem mirror_loadFile (hgo : Runner.Mirrored o o' go) (hctx : ctx.Like o o' r ctx')
    (hw : w.Mirrors o o' r w') (setup : Setup) (name : Bytes) :
    Mirror o o' r Any (loadFile setup go ctx name) (loadFile setup go ctx' name) w w' := by
  unfold loadFile
  refine (Mirror.blind (.parseModule setup name _) hw).bindSame
    fun s₁ (text, chunk) w₁ w₁' h₁ hw₁ ↦ .worldBind ?_
  rw [hw₁.builtins]
  rcases Code.ofScript [] (w₁.scope World.builtins).names chunk with e | code
  · exact .raise hw₁ _
  · refine (Mirror.modify (le_refl s₁) (hw₁.note _ _)).bind fun s₂ _ _ w₂ w₂' h₂ hw₂ _ ↦ ?_
    refine (mirror_runModule hgo (hctx.mono (h₁.trans h₂)) hw₂ name _ text chunk code).bind
      fun s₃ i i' w₃ w₃' h₃ hw₃ hi ↦ ?_
    exact .modify (le_refl s₃) (hw₃.register name hi)

theorem mirror_loadModule (hgo : Runner.Mirrored o o' go) (hctx : ctx.Like o o' r ctx')
    (hw : w.Mirrors o o' r w') (setup : Setup) (name : Bytes) :
    Mirror o o' r Any (loadModule setup go ctx name) (loadModule setup go ctx' name) w w' := by
  unfold loadModule
  split
  · exact .raise hw _
  · refine (Mirror.modify (le_refl r) (hw.note _ _)).bind fun s₁ _ _ w₁ w₁' h₁ hw₁ _ ↦ ?_
    exact (mirror_loadFile hgo (hctx.mono h₁) hw₁ setup name).ensuring
      fun s w w' hw ↦ hw.note _ _

end Conduit.Eval
