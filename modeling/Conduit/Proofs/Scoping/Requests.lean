import Conduit.Proofs.Scoping.Bodies

/-!
# Secure Requests

Builtins pass on values that they were given, have received or have captured, and these are sound.
So every request is secure, with whatever bound it runs and in whatever context.
-/

namespace Conduit.Eval

open World (Grows Calm Handles)
open Act (Secure Safe)
open Value (AllSound)

variable {go : Runner} {ctx : Context} {w : World}

/-! ## Builtins -/

theorem secure_putValue (hw : w.Sound) (ctx : Context) {v : Value} (hv : v.Sound w) :
    (putValue ctx v).Safe w :=
  .calm hw (calm_putValue ctx hv)

/-- A value that is received is sound, since it was queued. -/
theorem secure_receiveFrom (hw : w.Sound) (channel : ChannelId) :
    (receiveFrom channel).Secure w fun v w' ↦ ∀ u ∈ v, u.Sound w' := by
  refine (receiveFrom_stored channel w).mono (fun v w' ⟨htakes, hstored⟩ ↦ ?_) fun w' heq ↦ ?_
  · have hhandles : Handles w w' := .of_takes htakes
    have hgrows : Grows w w' := .of_scopes hhandles.scopes
    have hreceived : ∀ u ∈ v, u.Sound w' :=
      fun u hu c hc ↦ (hw.closures c (hstored u hu c hc)).grows hgrows
    exact ⟨hw.handles hhandles, hgrows, hreceived⟩
  · rw [heq]
    exact ⟨hw, .refl w⟩

/-- Taking values is secure if each step is, from whatever state it starts in. -/
theorem secure_takeEach (hw : w.Sound) (channel : ChannelId) {step : Value → Act Unit}
    (hstep : ∀ v w', w'.Sound → Grows w w' → v.Sound w' → (step v).Safe w') (n : Nat) :
    (takeEach channel step n).Safe w := by
  induction n generalizing w with
  | zero => exact .pure hw trivial
  | succ n ih =>
    refine (secure_receiveFrom hw channel).bind fun received w₁ hw₁ hg₁ hreceived ↦ ?_
    cases received with
    | none => exact .pure hw₁ trivial
    | some v =>
      refine (hstep v w₁ hw₁ hg₁ (hreceived v rfl)).bind fun _ w₂ hw₂ hg₂ _ ↦ ?_
      exact ih hw₂ fun u w' hw' hg' ↦ hstep u w' hw' ((hg₁.trans hg₂).trans hg')

theorem secure_consume (hw : w.Sound) (channel : ChannelId) {step : Value → Act Unit}
    {again : Act Unit}
    (hstep : ∀ v w', w'.Sound → Grows w w' → v.Sound w' → (step v).Safe w')
    (hagain : ∀ w', w'.Sound → Grows w w' → again.Safe w') :
    (consume channel step again).Safe w := by
  unfold consume
  refine .worldBind ((secure_takeEach hw channel hstep _).bind fun _ w₁ hw₁ hg₁ _ ↦ ?_)
  refine .worldBind ?_
  split
  · refine (secure_receiveFrom hw₁ channel).bind fun _ w₂ hw₂ _ _ ↦ ?_
    exact .pure hw₂ trivial
  · exact hagain w₁ hw₁ hg₁

theorem secure_inputChannel (hw : w.Sound) (ctx : Context) : (inputChannel ctx).Safe w :=
  .calm hw (calm_inputChannel ctx)

theorem sound_builtin (b : Builtin) (w : World) : (Value.fn (.builtin b)).Sound w := by
  simp [Value.Sound]

theorem secure_collect (hgo : Runner.Secure go) (hw : w.Sound) {arguments : List Value}
    (harguments : AllSound arguments w) : (collect go ctx arguments).Safe w := by
  refine (secure_inputChannel hw ctx).bind fun channel w₁ hw₁ hg₁ _ ↦ ?_
  apply secure_consume hw₁
  · intro v w' hw' _ hv
    exact secure_putValue hw' ctx hv
  · intro w' hw' hg'
    exact hgo.call w' ctx _ _ hw' (sound_builtin _ w') (harguments.grows (hg₁.trans hg'))

theorem secure_countQueued (hw : w.Sound) (channel : ChannelId) (n : Nat) :
    (countQueued channel n).Safe w := by
  induction n generalizing w with
  | zero => exact (secure_receiveFrom hw channel).bind fun _ w₁ hw₁ _ _ ↦ .pure hw₁ trivial
  | succ n ih =>
    refine (secure_receiveFrom hw channel).bind fun received w₁ hw₁ _ _ ↦ ?_
    cases received with
    | none => exact .pure hw₁ trivial
    | some v => exact (ih hw₁).bind fun _ w₂ hw₂ _ _ ↦ .pure hw₂ trivial

theorem secure_count (hw : w.Sound) (ctx : Context) : (count ctx).Safe w := by
  refine (secure_inputChannel hw ctx).bind fun channel w₁ hw₁ _ _ ↦ .worldBind ?_
  refine (secure_countQueued hw₁ channel _).bind fun n w₂ hw₂ _ _ ↦ ?_
  exact secure_putValue hw₂ ctx (by simp [Value.Sound])

/-- The function and the other arguments are as sound as the arguments are. -/
theorem secure_functionArgument (hw : w.Sound) {arguments : List Value}
    (harguments : AllSound arguments w) :
    (functionArgument arguments).Secure w fun given w' ↦
      (Value.fn given.1).Sound w' ∧ AllSound given.2 w' := by
  unfold functionArgument
  split
  · refine .pure hw ⟨harguments _ List.mem_cons_self, fun v hv ↦ ?_⟩
    exact harguments v (List.mem_cons_of_mem _ hv)
  · exact .fail hw _

theorem secure_each (hgo : Runner.Secure go) (hw : w.Sound) {arguments : List Value}
    (harguments : AllSound arguments w) : (each go ctx arguments).Safe w := by
  refine (secure_functionArgument hw harguments).bind fun (f, rest) w₁ hw₁ hg₁ ⟨hf, _⟩ ↦ ?_
  refine (secure_inputChannel hw₁ ctx).bind fun channel w₂ hw₂ hg₂ _ ↦ ?_
  apply secure_consume hw₂
  · intro v w' hw' hg' hv
    exact hgo.call w' ctx f [v] hw' (hf.grows (hg₂.trans hg')) (Value.allSound_singleton hv)
  · intro w' hw' hg'
    have hgrows : Grows w w' := (hg₁.trans hg₂).trans hg'
    exact hgo.call w' ctx _ _ hw' (sound_builtin _ w') (harguments.grows hgrows)

theorem secure_callFunction (hgo : Runner.Secure go) (hw : w.Sound) {arguments : List Value}
    (harguments : AllSound arguments w) : (callFunction go ctx arguments).Safe w :=
  (secure_functionArgument hw harguments).bind fun (f, rest) w₁ hw₁ _ ⟨hf, hrest⟩ ↦
    hgo.call w₁ ctx f rest hw₁ hf hrest

theorem sound_outcomeValue (e : Option Error) (w : World) : (outcomeValue e).Sound w := by
  simp [Value.Sound]

theorem secure_tryFunction (hgo : Runner.Secure go) (hw : w.Sound) {arguments : List Value}
    (harguments : AllSound arguments w) : (tryFunction go ctx arguments).Safe w := by
  refine (secure_functionArgument hw harguments).bind fun (f, rest) w₁ hw₁ _ ⟨hf, hrest⟩ ↦ ?_
  refine (Secure.attempt (hgo.call w₁ ctx f rest hw₁ hf hrest)).bind fun e w₂ hw₂ _ _ ↦ ?_
  exact secure_putValue hw₂ ctx (sound_outcomeValue e w₂)

/-- The value that a reference leads to is sound, since it was stored. -/
theorem secure_lookupReference (hgo : Runner.Secure go) (hw : w.Sound) (arguments : List Value) :
    (lookupReference go ctx arguments).Safe w := by
  unfold lookupReference
  split
  · refine (Secure.ofExcept hw _).bind fun qualifier w₁ hw₁ _ _ ↦ ?_
    refine (Secure.ofExcept hw₁ _).bind fun name w₂ hw₂ _ _ ↦ ?_
    refine (secure_resolve hgo hw₂ qualifier name).bind fun place w₃ hw₃ _ _ ↦ ?_
    cases place with
    | none =>
      have hempty : (Value.list []).Sound w₃ := by simp [Value.Sound, Value.closuresOf]
      exact secure_putValue hw₃ ctx hempty
    | some place =>
      refine (secure_readPlace hw₃ place).bind fun v w₄ hw₄ _ hv ↦ ?_
      exact secure_putValue hw₄ ctx (Value.sound_list.mpr (Value.allSound_singleton hv))
  · exact .fail hw _

/-! ## Captured output -/

/-- What is gathered is sound: values that were queued, and texts. -/
theorem secure_gather (hw : w.Sound) (channel : ChannelId) (pipe : PipeId) :
    (gather channel pipe).Secure w AllSound := by
  have hhandles : Handles w (gather channel pipe w).2 :=
    (Handles.drainChannel w channel).trans (.other _ _ _ _ _ _ _ _ _ _ _ _)
  have hgrows : Grows w (gather channel pipe w).2 := .of_scopes hhandles.scopes
  refine ⟨hw.handles hhandles, hgrows, fun v hv c hc ↦ ?_⟩
  rcases List.mem_append.mp hv with hv | hv
  · rcases hline : w.channels.get? channel with _ | line
    · simp [hline] at hv
    · have hqueued : v ∈ line.channel.queue := by simpa [hline] using hv
      exact (hw.closures c (.inr ⟨channel, line, hline, v, hqueued, hc⟩)).grows hgrows
  · obtain ⟨content, -, rfl⟩ := List.mem_map.mp hv
    simp at hc

theorem secure_captureOutput (hgo : Runner.Secure go) (hw : w.Sound) {f : Fn}
    {arguments : List Value} (hf : (Value.fn f).Sound w) (harguments : AllSound arguments w) :
    (captureOutput go ctx f arguments).Secure w AllSound := by
  unfold captureOutput
  have hpipe : Act.Keeps Handles (Act.change World.newPipe) :=
    .change fun w ↦ .newPipe w
  refine (Secure.handles hw hpipe).bind fun (pipe, reader, writer) w₁ hw₁ hg₁ _ ↦ ?_
  have hchannel : Act.Keeps Handles (Act.change fun w ↦ w.newChannel
      { channel := .ofCapacity captureCapacity, attended := true }) :=
    .change fun w ↦ .newChannel w rfl
  refine (Secure.handles hw₁ hchannel).bind fun channel w₂ hw₂ hg₂ _ ↦ ?_
  refine (Secure.handles hw₂ (.change fun w ↦ .newEndpoint w _)).bind fun output w₃ hw₃ hg₃ _ ↦ ?_
  refine (Secure.handles hw₃ (.change fun w ↦ .newEndpoint w _)).bind fun input w₄ hw₄ hg₄ _ ↦ ?_
  refine (Secure.handles hw₄ (ctx.handles_fork _)).bind fun fork w₅ hw₅ hg₅ _ ↦ ?_
  refine (Secure.handles hw₅ (fork.handles_setEndpoint 1 (some output))).bind
    fun fork w₆ hw₆ hg₆ _ ↦ ?_
  have hg : Grows w w₆ := ((((hg₁.trans hg₂).trans hg₃).trans hg₄).trans hg₅).trans hg₆
  have hcall := hgo.call w₆ fork f arguments hw₆ (hf.grows hg) (harguments.grows hg)
  refine ((Secure.apart hcall).ensuring fun w' ↦ ?_).bind fun _ w₇ hw₇ _ _ ↦ ?_
  · have hclose : Handles w' ((fork.finish w').closeChannel channel) :=
      (fork.handles_finish w').trans (.closeChannel _ _)
    exact hclose.trans (.dropEndpoint _ _)
  · exact secure_gather hw₇ channel pipe

theorem secure_captureProtected (hgo : Runner.Secure go) (hw : w.Sound) {f : Fn}
    {arguments : List Value} (hf : (Value.fn f).Sound w) (harguments : AllSound arguments w) :
    (captureProtected go ctx f arguments).Secure w fun output w' ↦
      ∀ values, output = .ok values → AllSound values w' := by
  have hcapture : (captureOutput go ctx f arguments).Secure w AllSound :=
    secure_captureOutput hgo hw hf harguments
  unfold Secure Act.Leads at hcapture ⊢
  unfold captureProtected
  rcases hact : captureOutput go ctx f arguments w with ⟨_ | _ | _ | _, w'⟩ <;>
    rw [hact] at hcapture
  case done values => exact ⟨hcapture.1, hcapture.2.1, fun _ heq ↦ Except.ok.inj heq ▸ hcapture.2.2⟩
  case raised e => exact ⟨hcapture.1, hcapture.2, nofun⟩
  all_goals exact hcapture

theorem secure_captureFunction (hgo : Runner.Secure go) (hw : w.Sound) {arguments : List Value}
    (harguments : AllSound arguments w) : (captureFunction go ctx arguments).Safe w := by
  refine (secure_functionArgument hw harguments).bind fun (f, rest) w₁ hw₁ _ ⟨hf, hrest⟩ ↦ ?_
  refine (secure_captureProtected hgo hw₁ hf hrest).bind fun output w₂ hw₂ _ houtput ↦ ?_
  have hboth : ∀ v e, v.Sound w₂ →
      (do putValue ctx v; putValue ctx (outcomeValue e) : Act Unit).Safe w₂ := by
    intro v e hv
    refine (secure_putValue hw₂ ctx hv).bind fun _ w₃ hw₃ _ _ ↦ ?_
    exact secure_putValue hw₃ ctx (sound_outcomeValue e w₃)
  cases output with
  | ok values => exact hboth _ _ (Value.sound_list.mpr (houtput values rfl))
  | error e =>
    have hunset : (Value.list unset).Sound w₂ :=
      Value.sound_list.mpr (Value.allSound_singleton (Value.sound_text _ w₂))
    exact hboth _ _ hunset

/-! ## Requests -/

/-- An interruption is noted. -/
theorem secure_noted {act : Act Unit} (h : act.Safe w) :
    (do act; Act.modify (World.note .interrupted) : Act Unit).Safe w :=
  h.bind fun _ _ hw' _ _ ↦ ⟨hw'.note nofun, .of_scopes rfl, trivial⟩

theorem secure_callBuiltin (hgo : Runner.Secure go) (hw : w.Sound) (b : Builtin)
    {arguments : List Value} (harguments : AllSound arguments w) :
    (callBuiltin go ctx b arguments).Safe w := by
  cases b with
  | put => exact .calm hw (calm_put ctx arguments harguments)
  | echo => exact .calm hw (calm_echo ctx arguments)
  | fail => exact .calm hw (calm_fail arguments)
  | nop => exact .pure hw trivial
  | cd => exact .calm hw (calm_cd arguments)
  | collect => exact secure_collect hgo hw harguments
  | count => exact secure_count hw ctx
  | each => exact secure_each hgo hw harguments
  | slurp => exact .calm hw (calm_slurp ctx)
  | trip => exact secure_noted (.calm hw calm_setInterrupt)
  | boom => exact .throwForeign hw _
  | call => exact secure_callFunction hgo hw harguments
  | «try» => exact secure_tryFunction hgo hw harguments
  | capture => exact secure_captureFunction hgo hw harguments
  | ctx => exact .calm hw (calm_showContext ctx)
  | lookup => exact secure_lookupReference hgo hw arguments
  | sigint => exact secure_noted (.calm hw calm_signalStub)

theorem secure_callFn (hgo : Runner.Secure go) (hw : w.Sound) {f : Fn} {arguments : List Value}
    (hf : (Value.fn f).Sound w) (harguments : AllSound arguments w) :
    (callFn go ctx f arguments).Safe w := by
  cases f with
  | builtin b => exact secure_callBuiltin hgo hw b harguments
  | inert name => exact .pure hw trivial
  | external name => exact .calm hw (calm_callExternal ctx name arguments)
  | closure c =>
    have hc : c ∈ (Value.fn (.closure c)).closures := by simp
    exact secure_callClosure hgo hw (hf c hc) harguments

/-- Requests are secure, with whatever bound and in whatever context. -/
theorem secure_run (setup : Setup) (fuel : Nat) : Runner.Secure (run setup fuel) := by
  induction fuel with
  | zero => exact ⟨fun w _ _ _ hw _ _ ↦ .halt hw _, fun w _ _ hw ↦ .halt hw _⟩
  | succ fuel ih =>
    constructor
    · intro w ctx f arguments hw hf harguments
      exact secure_callFn ih hw hf harguments
    · intro w ctx name hw
      exact secure_loadModule ih hw setup name

end Conduit.Eval
