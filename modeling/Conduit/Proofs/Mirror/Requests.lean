import Conduit.Eval.Run
import Conduit.Proofs.Calm.Builtins
import Conduit.Proofs.Mirror.Bodies

/-!
# Requests that are Carried out alike

Builtins handle values, ask contexts for what they have and hand functions over to be called.  With
them every request is carried out in ways that match, however deeply requests nest.
-/

namespace Conduit.Eval

open Act (Mirror Same Any)

variable {r : Pairing} {o o' : ScopeId} {go : Runner} {ctx ctx' : Context} {w w' : World}

/-! ## Channels -/

theorem mirror_sendTo (hw : w.Mirrors o o' r w') (channel : ChannelId) {v v' : Value}
    (hv : v.Like r v') : Mirror o o' r Same (sendTo channel v) (sendTo channel v') w w' := by
  have hline := hw.like.line? channel
  unfold Mirror sendTo
  generalize w.channels.get? channel = line, w'.channels.get? channel = line' at hline
  cases hline with
  | none => exact .done (le_refl r) hw rfl
  | some hline =>
    dsimp only
    rw [hline.channel.closed, hline.attended, hline.channel.hasRoom_eq]
    split
    · exact .done (le_refl r) hw rfl
    · split
      · refine .done (le_refl r) (hw.modifyChannel channel fun c c' hc ↦ ?_) rfl
        exact ⟨hc.queue.append (.cons hv .nil), hc.capacity, hc.closed⟩
      · exact .halted _ (le_refl r) hw

/-- What is received from channels that are alike, and what is left of them. -/
theorem recv?_like {c c' : Channel Value} (hc : c.Like r c') :
    Option.Rel (fun received received' ↦ received.1.Like r received'.1 ∧
      Option.Rel (Value.Like r) received.2 received'.2) c.recv? c'.recv? := by
  obtain ⟨queue, capacity, closed⟩ := hc
  obtain ⟨_, items, _⟩ := c
  obtain ⟨bound, items', isClosed⟩ := c'
  dsimp only at queue capacity closed
  subst capacity closed
  cases queue with
  | nil =>
    cases isClosed with
    | true => exact .some ⟨⟨.nil, rfl, rfl⟩, .none⟩
    | false => exact .none
  | cons hv hrest =>
    unfold Channel.recv?
    simp only [List.isEmpty_cons, Bool.not_false, Bool.or_true, if_true]
    exact .some ⟨⟨hrest, rfl, rfl⟩, .some hv⟩

theorem mirror_receiveFrom (hw : w.Mirrors o o' r w') (channel : ChannelId) :
    Mirror o o' r (fun s ↦ Option.Rel (Value.Like s)) (receiveFrom channel) (receiveFrom channel)
      w w' := by
  have hline := hw.like.line? channel
  unfold Mirror receiveFrom
  generalize w.channels.get? channel = line, w'.channels.get? channel = line' at hline
  cases hline with
  | none => exact .halted _ (le_refl r) hw
  | @some line line' hline =>
    have hreceived := recv?_like hline.channel
    dsimp only [Option.bind_some]
    generalize line.channel.recv? = received, line'.channel.recv? = received' at hreceived
    cases hreceived with
    | none => exact .halted _ (le_refl r) hw
    | some h => exact .done (le_refl r) (hw.modifyChannel channel fun _ _ _ ↦ h.1) h.2

theorem mirror_outputChannel (hctx : ctx.Like o o' r ctx') (hw : w.Mirrors o o' r w')
    (message : Bytes) :
    Mirror o o' r Same (outputChannel ctx message) (outputChannel ctx' message) w w' := by
  refine .worldBind ?_
  rw [hctx.channel?_eq hw]
  split
  · exact .pure hw rfl
  · exact .fail hw _

theorem mirror_inputChannel (hctx : ctx.Like o o' r ctx') (hw : w.Mirrors o o' r w') :
    Mirror o o' r Same (inputChannel ctx) (inputChannel ctx') w w' := by
  refine .worldBind ?_
  rw [hctx.channel?_eq hw]
  split
  · exact .pure hw rfl
  · exact .fail hw _

theorem mirror_putValue (hctx : ctx.Like o o' r ctx') (hw : w.Mirrors o o' r w') {v v' : Value}
    (hv : v.Like r v') : Mirror o o' r Any (putValue ctx v) (putValue ctx' v') w w' := by
  refine (mirror_outputChannel hctx hw _).bindSame fun s₁ channel w₁ w₁' h₁ hw₁ ↦ ?_
  refine (mirror_sendTo hw₁ channel (hv.mono h₁)).bindSame fun s₂ _ w₂ w₂' _ hw₂ ↦ ?_
  exact .pure hw₂ trivial

theorem mirror_putAll (hw : w.Mirrors o o' r w') (channel : ChannelId) {vs vs' : List Value}
    (hvs : Value.AllLike r vs vs') :
    Mirror o o' r Any (putAll channel vs) (putAll channel vs') w w' := by
  induction vs generalizing r vs' w w' with
  | nil =>
    cases hvs
    exact .pure hw trivial
  | cons v rest ih =>
    cases hvs with
    | cons hv hrest =>
      refine (Mirror.checkInterrupt hw).bind fun s₁ _ _ w₁ w₁' h₁ hw₁ _ ↦ ?_
      refine (mirror_sendTo hw₁ channel (hv.mono h₁)).bindSame fun s₂ accepted w₂ w₂' h₂ hw₂ ↦ ?_
      split
      · exact ih hw₂ (Value.AllLike.mono (h₁.trans h₂) hrest)
      · exact .pure hw₂ trivial

/-! ## Core builtins -/

theorem mirror_put (hctx : ctx.Like o o' r ctx') (hw : w.Mirrors o o' r w') {vs vs' : List Value}
    (hvs : Value.AllLike r vs vs') : Mirror o o' r Any (put ctx vs) (put ctx' vs') w w' :=
  (mirror_outputChannel hctx hw _).bindSame fun _ channel _ _ h₁ hw₁ ↦
    mirror_putAll hw₁ channel (Value.AllLike.mono h₁ hvs)

theorem mirror_wordsOf (hw : w.Mirrors o o' r w') {vs vs' : List Value}
    (hvs : Value.AllLike r vs vs') : Mirror o o' r Same (wordsOf vs) (wordsOf vs') w w' := by
  induction vs generalizing r vs' w w' with
  | nil =>
    cases hvs
    exact .pure hw rfl
  | cons v rest ih =>
    cases hvs with
    | cons hv hrest =>
      refine (Mirror.kindOf hw hv).bindSame fun s₁ _ w₁ w₁' h₁ hw₁ ↦ ?_
      refine (ih hw₁ (Value.AllLike.mono h₁ hrest)).bindSame fun s₂ others w₂ w₂' _ hw₂ ↦ ?_
      rw [hv.word_eq]
      exact .pure hw₂ rfl

/-- A write succeeds on both sides or on none. -/
theorem mirror_writeLine (hw : w.Mirrors o o' r w') (stream : StreamId) (line : Bytes) :
    Mirror o o' r Any
      (Act.world >>= fun w ↦ match w.write stream line with
        | .ok w => Act.modify fun _ ↦ w
        | .error reason => Act.fail (utf8 "echo: " ++ reason.text))
      (Act.world >>= fun w ↦ match w.write stream line with
        | .ok w => Act.modify fun _ ↦ w
        | .error reason => Act.fail (utf8 "echo: " ++ reason.text)) w w' := by
  have hblind : Act.Blind (Act.world >>= fun w ↦ match w.write stream line with
      | .ok w => Act.modify fun _ ↦ w
      | .error reason => Act.fail (utf8 "echo: " ++ reason.text)) := by
    intro w m
    rw [Act.world_bind, Act.world_bind, World.write_withMemory]
    cases w.write stream line <;> rfl
  exact (hblind.mirror hw).any

theorem mirror_echo (hctx : ctx.Like o o' r ctx') (hw : w.Mirrors o o' r w') {vs vs' : List Value}
    (hvs : Value.AllLike r vs vs') : Mirror o o' r Any (echo ctx vs) (echo ctx' vs') w w' := by
  refine .worldBind ?_
  rw [hctx.stream?_eq hw]
  split
  · exact .fail hw _
  · exact (mirror_wordsOf hw hvs).bindSame fun _ words w₁ w₁' _ hw₁ ↦ mirror_writeLine hw₁ _ _

theorem failTexts_eq {vs vs' : List Value} (hvs : Value.AllLike r vs vs') :
    failTexts vs' = failTexts vs := by
  induction hvs with
  | nil => rfl
  | cons hv _ ih => rw [failTexts, failTexts, hv.toText_eq, ih]

theorem mirror_fail (hw : w.Mirrors o o' r w') {vs vs' : List Value}
    (hvs : Value.AllLike r vs vs') : Mirror o o' r Any (fail vs) (fail vs') w w' := by
  unfold fail
  rw [failTexts_eq hvs]
  exact (Mirror.ofExcept hw _).bindSame fun s₁ texts w₁ w₁' _ hw₁ ↦ .fail hw₁ _

theorem cd_eq {vs vs' : List Value} (hvs : Value.AllLike r vs vs') : cd vs' = cd vs := by
  have htarget : cdTarget vs' = cdTarget vs := by
    cases hvs with
    | nil => rfl
    | cons hv _ => rw [cdTarget, cdTarget, hv.toText_eq]
  rw [cd, cd, htarget, hvs.length_eq]

/-! ## Input -/

theorem mirror_takeEach (hw : w.Mirrors o o' r w') (channel : ChannelId)
    {step step' : Value → Act Unit}
    (hstep : ∀ s v v' w w', r ≤ s → v.Like s v' → w.Mirrors o o' s w' →
      Mirror o o' s Any (step v) (step' v') w w') (n : Nat) :
    Mirror o o' r Any (takeEach channel step n) (takeEach channel step' n) w w' := by
  induction n generalizing r w w' with
  | zero => exact .pure hw trivial
  | succ n ih =>
    refine (mirror_receiveFrom hw channel).bind fun s₁ v v' w₁ w₁' h₁ hw₁ hv ↦ ?_
    cases hv with
    | none => exact .pure hw₁ trivial
    | some hv =>
      refine (hstep s₁ _ _ w₁ w₁' h₁ hv hw₁).bind fun s₂ _ _ w₂ w₂' h₂ hw₂ _ ↦ ?_
      exact ih hw₂ fun t v v' w w' ht ↦ hstep t v v' w w' (h₁.trans (h₂.trans ht))

theorem queued_eq (hw : w.Mirrors o o' r w') (channel : ChannelId) :
    ((w'.channels.get? channel).map fun line ↦ line.channel.queue.length).getD 0 =
      ((w.channels.get? channel).map fun line ↦ line.channel.queue.length).getD 0 := by
  have hline := hw.like.line? channel
  generalize w.channels.get? channel = line, w'.channels.get? channel = line' at hline
  cases hline with
  | none => rfl
  | some hline => exact hline.channel.queue.length_eq.symm

theorem mirror_consume (hw : w.Mirrors o o' r w') (channel : ChannelId)
    {step step' : Value → Act Unit} {again again' : Act Unit}
    (hstep : ∀ s v v' w w', r ≤ s → v.Like s v' → w.Mirrors o o' s w' →
      Mirror o o' s Any (step v) (step' v') w w')
    (hagain : ∀ s w w', r ≤ s → w.Mirrors o o' s w' → Mirror o o' s Any again again' w w') :
    Mirror o o' r Any (consume channel step again) (consume channel step' again') w w' := by
  unfold consume
  refine .worldBind ?_
  dsimp only
  rw [queued_eq hw]
  refine (mirror_takeEach hw channel hstep _).bind fun s₁ _ _ w₁ w₁' h₁ hw₁ _ ↦ .worldBind ?_
  simp only [queued_eq hw₁]
  split
  · exact (mirror_receiveFrom hw₁ channel).bind fun _ _ _ _ _ _ hw₂ _ ↦ .pure hw₂ trivial
  · exact hagain s₁ w₁ w₁' h₁ hw₁

theorem mirror_collect (hgo : Runner.Mirrored o o' go) (hctx : ctx.Like o o' r ctx')
    (hw : w.Mirrors o o' r w') {vs vs' : List Value} (hvs : Value.AllLike r vs vs') :
    Mirror o o' r Any (collect go ctx vs) (collect go ctx' vs') w w' := by
  refine (mirror_inputChannel hctx hw).bindSame fun s₁ channel w₁ w₁' h₁ hw₁ ↦ ?_
  apply mirror_consume hw₁
  · intro s v v' w w' hs hv hw
    exact mirror_putValue (hctx.mono (h₁.trans hs)) hw hv
  · intro s w w' hs hw
    have hgrown := h₁.trans hs
    exact hgo.call hw (hctx.mono hgrown) (.builtin .collect) (Value.AllLike.mono hgrown hvs)

theorem mirror_countQueued (hw : w.Mirrors o o' r w') (channel : ChannelId) (n : Nat) :
    Mirror o o' r Same (countQueued channel n) (countQueued channel n) w w' := by
  induction n generalizing r w w' with
  | zero =>
    exact (mirror_receiveFrom hw channel).bind fun s₁ _ _ w₁ w₁' _ hw₁ _ ↦ .pure hw₁ rfl
  | succ n ih =>
    refine (mirror_receiveFrom hw channel).bind fun s₁ v v' w₁ w₁' _ hw₁ hv ↦ ?_
    cases hv with
    | none => exact .pure hw₁ rfl
    | some _ => exact (ih hw₁).bindSame fun s₂ others w₂ w₂' _ hw₂ ↦ .pure hw₂ rfl

theorem mirror_count (hctx : ctx.Like o o' r ctx') (hw : w.Mirrors o o' r w') :
    Mirror o o' r Any (count ctx) (count ctx') w w' := by
  refine (mirror_inputChannel hctx hw).bindSame fun s₁ channel w₁ w₁' h₁ hw₁ ↦ .worldBind ?_
  rw [queued_eq hw₁]
  refine (mirror_countQueued hw₁ channel _).bindSame fun s₂ n w₂ w₂' h₂ hw₂ ↦ ?_
  exact mirror_putValue (hctx.mono (h₁.trans h₂)) hw₂ (.text _)

/-- The functions and the other arguments are alike. -/
theorem mirror_functionArgument (hw : w.Mirrors o o' r w') {vs vs' : List Value}
    (hvs : Value.AllLike r vs vs') :
    Mirror o o' r (fun s given given' ↦ given.1.Like s given'.1 ∧
      Value.AllLike s given.2 given'.2) (functionArgument vs) (functionArgument vs') w w' := by
  rcases hvs with _ | ⟨hv, hrest⟩
  · exact .fail hw _
  · cases hv with
    | fn hf => exact .pure hw ⟨hf, hrest⟩
    | absent => exact .fail hw _
    | text content => exact .fail hw _
    | list h => exact .fail hw _

theorem mirror_each (hgo : Runner.Mirrored o o' go) (hctx : ctx.Like o o' r ctx')
    (hw : w.Mirrors o o' r w') {vs vs' : List Value} (hvs : Value.AllLike r vs vs') :
    Mirror o o' r Any (each go ctx vs) (each go ctx' vs') w w' := by
  refine (mirror_functionArgument hw hvs).bind fun s₁ given given' w₁ w₁' h₁ hw₁ hgiven ↦ ?_
  refine (mirror_inputChannel (hctx.mono h₁) hw₁).bindSame fun s₂ channel w₂ w₂' h₂ hw₂ ↦ ?_
  apply mirror_consume hw₂
  · intro s v v' w w' hs hv hw
    exact hgo.call hw (hctx.mono (h₁.trans (h₂.trans hs))) (hgiven.1.mono (h₂.trans hs))
      (.cons hv .nil)
  · intro s w w' hs hw
    have hgrown := h₁.trans (h₂.trans hs)
    exact hgo.call hw (hctx.mono hgrown) (.builtin .each) (Value.AllLike.mono hgrown hvs)

theorem mirror_slurp (hctx : ctx.Like o o' r ctx') (hw : w.Mirrors o o' r w') :
    Mirror o o' r Any (slurp ctx) (slurp ctx') w w' := by
  refine .worldBind ?_
  rw [hctx.stream?_eq hw]
  split
  · exact .fail hw _
  · refine (Mirror.blind (.change fun w m ↦ World.readAll_withMemory w m _) hw).bindSame
      fun s₁ bytes w₁ w₁' h₁ hw₁ ↦ ?_
    exact mirror_putValue (hctx.mono h₁) hw₁ (.text bytes)

/-! ## Calls -/

theorem like_outcomeValue (r : Pairing) (e : Option Error) :
    (outcomeValue e).Like r (outcomeValue e) :=
  Value.like_self fun c hc ↦ by simp at hc

theorem mirror_callFunction (hgo : Runner.Mirrored o o' go) (hctx : ctx.Like o o' r ctx')
    (hw : w.Mirrors o o' r w') {vs vs' : List Value} (hvs : Value.AllLike r vs vs') :
    Mirror o o' r Any (callFunction go ctx vs) (callFunction go ctx' vs') w w' :=
  (mirror_functionArgument hw hvs).bind fun _ _ _ _ _ h₁ hw₁ hgiven ↦
    hgo.call hw₁ (hctx.mono h₁) hgiven.1 hgiven.2

theorem mirror_tryFunction (hgo : Runner.Mirrored o o' go) (hctx : ctx.Like o o' r ctx')
    (hw : w.Mirrors o o' r w') {vs vs' : List Value} (hvs : Value.AllLike r vs vs') :
    Mirror o o' r Any (tryFunction go ctx vs) (tryFunction go ctx' vs') w w' := by
  refine (mirror_functionArgument hw hvs).bind fun s₁ given given' w₁ w₁' h₁ hw₁ hgiven ↦ ?_
  have hcall := hgo.call hw₁ (hctx.mono h₁) hgiven.1 hgiven.2
  refine hcall.attempt.bindSame fun s₂ e w₂ w₂' h₂ hw₂ ↦ ?_
  exact mirror_putValue (hctx.mono (h₁.trans h₂)) hw₂ (like_outcomeValue s₂ e)

/-! ## Captures -/

theorem mirror_gather (hw : w.Mirrors o o' r w') (channel : ChannelId) (pipe : PipeId) :
    Mirror o o' r Value.AllLike (gather channel pipe) (gather channel pipe) w w' := by
  have hpipes : w'.pipes = w.pipes := hw.congr World.pipes fun _ ↦ rfl
  have hline := hw.like.line? channel
  have hsent : Value.AllLike r
      (((w.channels.get? channel).map fun line ↦ line.channel.queue).getD [])
      (((w'.channels.get? channel).map fun line ↦ line.channel.queue).getD []) := by
    generalize w.channels.get? channel = line, w'.channels.get? channel = line' at hline
    cases hline with
    | none => exact .nil
    | some hline => exact hline.channel.queue
  have hdrained : (w.modifyChannel channel fun c ↦ c.drain.1).Mirrors o o' r
      (w'.modifyChannel channel fun c ↦ c.drain.1) :=
    hw.modifyChannel channel fun c c' hc ↦ ⟨.nil, hc.capacity, hc.closed⟩
  unfold Mirror gather
  refine .done (le_refl r) (s := r) ?_ ?_
  · exact hdrained.blind
      (f := fun w ↦ { w with pipes := w.pipes.modify pipe fun _ ↦ [] }) fun _ _ ↦ rfl
  · rw [hpipes]
    exact hsent.append (Value.allLike_texts r _)

theorem mirror_newPipe (hw : w.Mirrors o o' r w') :
    Mirror o o' r Same (Act.change World.newPipe) (Act.change World.newPipe) w w' :=
  .change (le_refl r) hw.newPipe.2 hw.newPipe.1

theorem mirror_newEndpoint (hw : w.Mirrors o o' r w') (e : Endpoint) :
    Mirror o o' r Same (Act.change fun w ↦ w.newEndpoint e) (Act.change fun w ↦ w.newEndpoint e)
      w w' :=
  .change (le_refl r) (hw.newEndpoint e).2 (hw.newEndpoint e).1

theorem mirror_newChannel (hw : w.Mirrors o o' r w') (capacity : Nat) (attended : Bool) :
    Mirror o o' r Same
      (Act.change fun w ↦ w.newChannel { channel := .ofCapacity capacity, attended })
      (Act.change fun w ↦ w.newChannel { channel := .ofCapacity capacity, attended }) w w' := by
  let line : Line := { channel := .ofCapacity capacity, attended }
  have hline : line.Like r line := ⟨⟨.nil, rfl, rfl⟩, rfl⟩
  exact .change (le_refl r) (hw.newChannel hline).2 (hw.newChannel hline).1

theorem mirror_captureOutput (hgo : Runner.Mirrored o o' go) (hctx : ctx.Like o o' r ctx')
    (hw : w.Mirrors o o' r w') {f f' : Fn} (hf : f.Like r f') {vs vs' : List Value}
    (hvs : Value.AllLike r vs vs') :
    Mirror o o' r Value.AllLike (captureOutput go ctx f vs) (captureOutput go ctx' f' vs')
      w w' := by
  unfold captureOutput
  refine (mirror_newPipe hw).bindSame fun s₁ (pipe, reader, writer) w₁ w₁' h₁ hw₁ ↦ ?_
  refine (mirror_newChannel hw₁ _ _).bindSame fun s₂ channel w₂ w₂' h₂ hw₂ ↦ ?_
  refine (mirror_newEndpoint hw₂ _).bindSame fun s₃ output w₃ w₃' h₃ hw₃ ↦ ?_
  refine (mirror_newEndpoint hw₃ _).bindSame fun s₄ input w₄ w₄' h₄ hw₄ ↦ ?_
  have h : r ≤ s₄ := h₁.trans (h₂.trans (h₃.trans h₄))
  refine (Mirror.fork (hctx.mono h) hw₄ _).bind fun s₅ fork fork' w₅ w₅' h₅ hw₅ hfork ↦ ?_
  refine (Mirror.setEndpoint hfork hw₅ 1 (some output)).bind
    fun s₆ fork fork' w₆ w₆' h₆ hw₆ hfork ↦ ?_
  have hgrown : r ≤ s₆ := h.trans (h₅.trans h₆)
  have hcall : Mirror o o' s₆ Any (go (.call fork f vs)).apart (go (.call fork' f' vs')).apart
      w₆ w₆' :=
    .apart hw₆ fun w w' hw ↦
      hgo.call hw hfork (hf.mono hgrown) (Value.AllLike.mono hgrown hvs)
  refine (hcall.ensuring fun s w w' hw ↦ ?_).bind fun s₇ _ _ w₇ w₇' _ hw₇ _ ↦
    mirror_gather hw₇ channel pipe
  exact ((hfork.finish hw).closeChannel channel).dropEndpoint input

theorem mirror_captureProtected (hgo : Runner.Mirrored o o' go) (hctx : ctx.Like o o' r ctx')
    (hw : w.Mirrors o o' r w') {f f' : Fn} (hf : f.Like r f') {vs vs' : List Value}
    (hvs : Value.AllLike r vs vs') :
    Mirror o o' r (fun s ↦ ExceptLike (Value.AllLike s)) (captureProtected go ctx f vs)
      (captureProtected go ctx' f' vs') w w' := by
  have h := mirror_captureOutput hgo hctx hw hf hvs
  unfold Mirror at h
  unfold Mirror captureProtected
  generalize captureOutput go ctx f vs w = ends, captureOutput go ctx' f' vs' w' = ends' at h
  cases h with
  | done hrs hw ha => exact .done hrs hw (.ok ha)
  | raised e hrs hw =>
    refine .done hrs hw ?_
    rw [hw.congr World.here fun _ ↦ rfl]
    exact .error _
  | foreign what hrs hw => exact .foreign what hrs hw
  | halted reason hrs hw => exact .halted reason hrs hw

theorem mirror_captureFunction (hgo : Runner.Mirrored o o' go) (hctx : ctx.Like o o' r ctx')
    (hw : w.Mirrors o o' r w') {vs vs' : List Value} (hvs : Value.AllLike r vs vs') :
    Mirror o o' r Any (captureFunction go ctx vs) (captureFunction go ctx' vs') w w' := by
  refine (mirror_functionArgument hw hvs).bind fun s₁ given given' w₁ w₁' h₁ hw₁ hgiven ↦ ?_
  have hctx₁ := hctx.mono h₁
  refine (mirror_captureProtected hgo hctx₁ hw₁ hgiven.1 hgiven.2).bind
    fun s₂ result result' w₂ w₂' h₂ hw₂ hresult ↦ ?_
  have hctx₂ := hctx₁.mono h₂
  have hput : ∀ {us us' : List Value} (e : Option Error), Value.AllLike s₂ us us' →
      Mirror o o' s₂ Any
        (putValue ctx (.list us) >>= fun _ ↦ putValue ctx (outcomeValue e))
        (putValue ctx' (.list us') >>= fun _ ↦ putValue ctx' (outcomeValue e)) w₂ w₂' :=
    fun e hus ↦ (mirror_putValue hctx₂ hw₂ (.list hus)).bind fun s₃ _ _ w₃ w₃' h₃ hw₃ _ ↦
      mirror_putValue (hctx₂.mono h₃) hw₃ (like_outcomeValue s₃ e)
  cases hresult with
  | ok h => exact hput none h
  | error e => exact hput (some e) (.cons (.text _) .nil)

/-! ## Reflection -/

theorem describe_eq (hctx : ctx.Like o o' r ctx') (hw : w.Mirrors o o' r w') :
    describe ctx' w' = describe ctx w := by
  have hhere : w'.here = w.here := hw.congr World.here fun _ ↦ rfl
  unfold describe visibleEndpoints sortedNames
  rw [hctx.source.1, hctx.label, hctx.endpoints, hhere, funext hw.endpoint, hctx.scope_eq hw,
    hctx.outer_eq hw]

theorem mirror_showContext (hctx : ctx.Like o o' r ctx') (hw : w.Mirrors o o' r w') :
    Mirror o o' r Any (showContext ctx) (showContext ctx') w w' := by
  refine .worldBind ?_
  rw [describe_eq hctx hw]
  exact mirror_putValue hctx hw (Value.like_self fun c hc ↦ by simp at hc)

theorem mirror_lookupReference (hgo : Runner.Mirrored o o' go) (hctx : ctx.Like o o' r ctx')
    (hw : w.Mirrors o o' r w') {vs vs' : List Value} (hvs : Value.AllLike r vs vs') :
    Mirror o o' r Any (lookupReference go ctx vs) (lookupReference go ctx' vs') w w' := by
  rcases hvs with _ | ⟨hq, _ | ⟨hn, _ | ⟨_, _⟩⟩⟩
  case cons.cons.nil =>
    unfold lookupReference
    dsimp only
    rw [hq.toText_eq, hn.toText_eq]
    refine (Mirror.ofExcept hw _).bindSame fun s₁ qualifier w₁ w₁' h₁ hw₁ ↦ ?_
    refine (Mirror.ofExcept hw₁ _).bindSame fun s₂ name w₂ w₂' h₂ hw₂ ↦ ?_
    have hctx₂ := hctx.mono (h₁.trans h₂)
    refine (mirror_resolve hgo hctx₂ hw₂ qualifier name).bindSame fun s₃ place w₃ w₃' h₃ hw₃ ↦ ?_
    have hctx₃ := hctx₂.mono h₃
    cases place with
    | none => exact mirror_putValue hctx₃ hw₃ (.list .nil)
    | some place =>
      refine (Mirror.readPlace hw₃ place).bind fun s₄ v v' w₄ w₄' h₄ hw₄ hv ↦ ?_
      exact mirror_putValue (hctx₃.mono h₄) hw₄ (.list (.cons hv .nil))
  all_goals exact .fail hw _

/-! ## Requests -/

theorem callExternal_eq (hctx : ctx.Like o o' r ctx') (name : Bytes) {vs vs' : List Value}
    (hvs : Value.AllLike r vs vs') : callExternal ctx' name vs' = callExternal ctx name vs := by
  have htexts : externalArguments vs' = externalArguments vs := by
    induction hvs with
    | nil => rfl
    | cons hv _ ih => rw [externalArguments, externalArguments, hv.toText_eq, ih]
  unfold callExternal Context.stream? Context.endpoint?
  rw [hctx.endpoints, htexts]

/-- An interruption is noted. -/
theorem mirror_noted (hw : w.Mirrors o o' r w') {act : Act Unit} (hact : Act.Blind act) :
    Mirror o o' r Any (do act; Act.modify (World.note .interrupted))
      (do act; Act.modify (World.note .interrupted)) w w' :=
  (Mirror.blind hact hw).bind fun s _ _ _ _ _ hw₁ _ ↦ .modify (le_refl s) (hw₁.note _ _)

theorem mirror_callBuiltin (hgo : Runner.Mirrored o o' go) (hctx : ctx.Like o o' r ctx')
    (hw : w.Mirrors o o' r w') (b : Builtin) {vs vs' : List Value} (hvs : Value.AllLike r vs vs') :
    Mirror o o' r Any (callBuiltin go ctx b vs) (callBuiltin go ctx' b vs') w w' := by
  cases b with
  | put => exact mirror_put hctx hw hvs
  | echo => exact mirror_echo hctx hw hvs
  | fail => exact mirror_fail hw hvs
  | nop => exact .pure hw trivial
  | cd =>
    unfold callBuiltin
    dsimp only
    rw [cd_eq hvs]
    exact (Mirror.blind (.cd vs) hw).any
  | collect => exact mirror_collect hgo hctx hw hvs
  | count => exact mirror_count hctx hw
  | each => exact mirror_each hgo hctx hw hvs
  | slurp => exact mirror_slurp hctx hw
  | trip => exact mirror_noted hw .setInterrupt
  | boom => exact .throwForeign hw _
  | call => exact mirror_callFunction hgo hctx hw hvs
  | «try» => exact mirror_tryFunction hgo hctx hw hvs
  | capture => exact mirror_captureFunction hgo hctx hw hvs
  | ctx => exact mirror_showContext hctx hw
  | lookup => exact mirror_lookupReference hgo hctx hw hvs
  | sigint => exact mirror_noted hw .signalStub

theorem mirror_callFn (hgo : Runner.Mirrored o o' go) (hctx : ctx.Like o o' r ctx')
    (hw : w.Mirrors o o' r w') {f f' : Fn} (hf : f.Like r f') {vs vs' : List Value}
    (hvs : Value.AllLike r vs vs') :
    Mirror o o' r Any (callFn go ctx f vs) (callFn go ctx' f' vs') w w' := by
  cases hf with
  | builtin b => exact mirror_callBuiltin hgo hctx hw b hvs
  | inert name => exact .pure hw trivial
  | external name =>
    unfold callFn
    dsimp only
    rw [callExternal_eq hctx name hvs]
    exact (Mirror.blind (.callExternal ctx name vs) hw).any
  | closure hc => exact mirror_callClosure hgo hctx hw hc hvs

/-- Requests are carried out in ways that match, with whatever bound. -/
theorem mirrored_run (o o' : ScopeId) (setup : Setup) (fuel : Nat) :
    Runner.Mirrored o o' (run setup fuel) := by
  induction fuel with
  | zero => exact ⟨fun hw _ _ _ ↦ .halt hw _, fun _ hw _ ↦ .halt hw _⟩
  | succ fuel ih =>
    exact ⟨fun hw hctx hf hvs ↦ mirror_callFn ih hctx hw hf hvs,
      fun name hw hctx ↦ mirror_loadModule ih hctx hw setup name⟩

end Conduit.Eval
