import Conduit.Proofs.Calm.External
import Conduit.Proofs.Interruption.Evaluation

/-!
# Requests that Heed the Interrupt Flag

The functions that set the flag note that they have.  Protected calls turn the errors of an interrupted
evaluation into values and go on, but all that they go on with is sending values.  So every request
heeds the flag, with whatever bound it runs and in whatever context.
-/

namespace Conduit.Eval

open World (Calm Handles Raises)
open Act (Heeds Stops)
open Value (AllUnpiped)

variable {setup : Setup} {go : Runner} {given : Prop} {w : World}

/-! ## Values and input -/

theorem heeds_putValue (ctx : Context) {v : Value} (hv : given → v.Unpiped) (w : World) :
    (putValue ctx v).Stops setup given w :=
  .calm (calm_putValue ctx fun c hc h ↦ hv h c hc)

theorem heeds_put (ctx : Context) (arguments : List Value) (w : World) :
    (put ctx arguments).Stops setup (AllUnpiped arguments) w :=
  .calm (calm_put ctx arguments fun v hv c hc h ↦ h v hv c hc)

theorem heeds_inputChannel (ctx : Context) (w : World) : (inputChannel ctx).Stops setup given w :=
  .calm (calm_inputChannel ctx)

/-- A value that is received has been queued. -/
theorem heeds_receiveFrom (channel : ChannelId) (w : World) :
    (receiveFrom channel).Heeds setup given w fun v ↦ ∀ u ∈ v, u.Unpiped := by
  have hstored := receiveFrom_stored channel w
  unfold Act.Leads at hstored
  rcases hact : receiveFrom channel w with ⟨v | _ | _ | _, w'⟩ <;> rw [hact] at hstored
  case done =>
    obtain ⟨htakes, hqueued⟩ := hstored
    have hhandles : Handles w w' := .of_takes htakes
    have hraises : Raises w w' := by
      obtain ⟨f, rfl, -⟩ := htakes
      exact .of_eq rfl
    refine .unnoted (by rw [hact]; exact hhandles.journal) (by rw [hact]; exact hraises) fun _ hw ↦ ?_
    rw [hact]
    refine ⟨hw.handles hhandles, fun v' hv' u hu c hc ↦ hw c (hqueued u ?_ c hc)⟩
    rwa [Outcome.done.inj hv']
  all_goals
    obtain rfl : w' = w := hstored
    refine .unnoted (by rw [hact]) (by rw [hact]; exact id) fun _ hw ↦ ?_
    rw [hact]
    exact ⟨hw, nofun⟩

theorem heeds_takeEach (channel : ChannelId) {step : Value → Act Unit}
    (hstep : ∀ v w, (step v).Stops setup (given ∧ v.Unpiped) w) (n : Nat) (w : World) :
    (takeEach channel step n).Stops setup given w := by
  induction n generalizing w with
  | zero => exact .pure fun _ ↦ trivial
  | succ n ih =>
    refine (heeds_receiveFrom channel w).bind fun received w₁ ↦ ?_
    cases received with
    | none => exact .pure fun _ ↦ trivial
    | some v =>
      refine Heeds.bind ((hstep v w₁).assuming fun h ↦ ⟨h.1, h.2 v rfl⟩) fun _ w₂ ↦ ?_
      exact (ih w₂).assuming fun h ↦ h.1.1

theorem heeds_consume (channel : ChannelId) {step : Value → Act Unit} {again : Act Unit}
    (hstep : ∀ v w, (step v).Stops setup (given ∧ v.Unpiped) w)
    (hagain : ∀ w, again.Stops setup given w) (w : World) :
    (consume channel step again).Stops setup given w := by
  unfold consume
  refine .worldBind ((heeds_takeEach channel hstep _ w).bind fun _ w₁ ↦ .worldBind ?_)
  split
  · exact (heeds_receiveFrom channel w₁).bind fun _ _ ↦ .pure fun _ ↦ trivial
  · exact (hagain w₁).assuming fun h ↦ h.1

theorem heeds_collect (hgo : Runner.Heeds setup go) (ctx : Context) (arguments : List Value)
    (w : World) : (collect go ctx arguments).Stops setup (AllUnpiped arguments) w := by
  refine (heeds_inputChannel ctx w).bind fun channel w₁ ↦ heeds_consume channel ?_ ?_ w₁
  · exact fun v w ↦ heeds_putValue ctx (fun h ↦ h.2) w
  · exact fun w ↦ (hgo.call ctx _ _ w).assuming fun h ↦ ⟨Value.unpiped_builtin _, h.1⟩

theorem heeds_countQueued (channel : ChannelId) (n : Nat) (w : World) :
    (countQueued channel n).Stops setup given w := by
  induction n generalizing w given with
  | zero => exact (heeds_receiveFrom channel w).bind fun _ _ ↦ .pure fun _ ↦ trivial
  | succ n ih =>
    refine (heeds_receiveFrom channel w).bind fun received w₁ ↦ ?_
    cases received with
    | none => exact .pure fun _ ↦ trivial
    | some v => exact (ih w₁).bind fun _ _ ↦ .pure fun _ ↦ trivial

theorem heeds_count (ctx : Context) (w : World) : (count ctx).Stops setup given w :=
  (heeds_inputChannel ctx w).bind fun channel w₁ ↦ .worldBind <|
    (heeds_countQueued channel _ w₁).bind fun _ w₂ ↦
      heeds_putValue ctx (fun _ ↦ Value.unpiped_text _) w₂

theorem heeds_functionArgument (arguments : List Value) (w : World) :
    (functionArgument arguments).Heeds setup (AllUnpiped arguments) w fun call ↦
      (Value.fn call.1).Unpiped ∧ AllUnpiped call.2 := by
  unfold functionArgument
  split
  · exact .pure fun h ↦ ⟨h.head, h.tail⟩
  · exact .fail _

theorem heeds_each (hgo : Runner.Heeds setup go) (ctx : Context) (arguments : List Value)
    (w : World) : (each go ctx arguments).Stops setup (AllUnpiped arguments) w := by
  refine (heeds_functionArgument arguments w).bind fun (f, rest) w₁ ↦ ?_
  refine (heeds_inputChannel ctx w₁).bind fun channel w₂ ↦ heeds_consume channel ?_ ?_ w₂
  · exact fun v w ↦ (hgo.call ctx f [v] w).assuming fun h ↦ ⟨h.1.1.2.1, .cons h.2 .nil⟩
  · exact fun w ↦ (hgo.call ctx _ _ w).assuming fun h ↦ ⟨Value.unpiped_builtin _, h.1.1⟩

/-! ## Calls -/

theorem heeds_callFunction (hgo : Runner.Heeds setup go) (ctx : Context) (arguments : List Value)
    (w : World) : (callFunction go ctx arguments).Stops setup (AllUnpiped arguments) w :=
  (heeds_functionArgument arguments w).bind fun (f, rest) w₁ ↦
    (hgo.call ctx f rest w₁).assuming fun h ↦ h.2

theorem unpiped_outcomeValue (error : Option Error) : (outcomeValue error).Unpiped := by
  simp [Value.Unpiped]

/-- A call under protection heeds the flag, and its caller only sends a value after it. -/
theorem heeds_tryFunction (hgo : Runner.Heeds setup go) (ctx : Context) (arguments : List Value)
    (w : World) : (tryFunction go ctx arguments).Stops setup (AllUnpiped arguments) w := by
  refine (heeds_functionArgument arguments w).bind fun (f, rest) w₁ ↦ ?_
  refine Heeds.bind (.attempt ((hgo.call ctx f rest w₁).assuming fun h ↦ h.2)) fun error w₂ ↦ ?_
  exact heeds_putValue ctx (fun _ ↦ unpiped_outcomeValue error) w₂

/-! ## Captured output -/

/-- What is gathered are values that have been queued, and texts. -/
theorem heeds_gather (channel : ChannelId) (pipe : PipeId) (w : World) :
    (gather channel pipe).Heeds setup given w AllUnpiped := by
  have hhandles : Handles w (gather channel pipe w).2 := (quiet_gather channel pipe).handles w
  refine .unnoted hhandles.journal (.of_eq rfl) fun _ hw ↦ ⟨hw.handles hhandles, ?_⟩
  intro values hvalues v hv c hc
  have hgather : gather channel pipe w = (.done values, (gather channel pipe w).2) :=
    Prod.ext hvalues rfl
  rcases queued_of_gather hgather v hv with ⟨id, line, hline, hqueued⟩ | ⟨content, rfl⟩
  · exact hw c (.inr ⟨id, line, hline, v, hqueued, hc⟩)
  · simp at hc

theorem heeds_captureOutput (hgo : Runner.Heeds setup go) (ctx : Context) (f : Fn)
    (arguments : List Value) (w : World) : (captureOutput go ctx f arguments).Heeds setup
      ((Value.fn f).Unpiped ∧ AllUnpiped arguments) w AllUnpiped := by
  unfold captureOutput
  refine (Heeds.calm (.change fun w ↦ .newPipe w)).bind fun (pipe, reader, writer) w₁ ↦ ?_
  refine (Heeds.calm (.change fun w ↦ .newChannel w rfl)).bind fun channel w₂ ↦ ?_
  refine (heeds_newEndpoint _ w₂).bind fun output w₃ ↦ ?_
  refine (heeds_newEndpoint _ w₃).bind fun input w₄ ↦ ?_
  refine (heeds_fork ctx _ w₄).bind fun fork w₅ ↦ ?_
  refine (heeds_setEndpoint fork 1 (some output) w₅).bind fun fork w₆ ↦ ?_
  refine Heeds.bind (.ensuring (.apart ((hgo.call fork f arguments w₆).assuming
    fun h ↦ h.1.1.1.1.1.1)) fun w' ↦ ?_) fun _ w₇ ↦ heeds_gather channel pipe w₇
  refine .handles (.modify fun w ↦ ?_) (.modify fun w ↦ ?_)
  · exact ((fork.handles_finish w).trans (.closeChannel _ channel)).trans (.dropEndpoint _ input)
  · have hclose : Raises w ((fork.finish w).closeChannel channel) :=
      (raises_finish fork w).trans (.of_eq rfl)
    exact hclose.trans (.dropEndpoint _ input)

theorem heeds_captureProtected (hgo : Runner.Heeds setup go) (ctx : Context) (f : Fn)
    (arguments : List Value) (w : World) : (captureProtected go ctx f arguments).Heeds setup
      ((Value.fn f).Unpiped ∧ AllUnpiped arguments) w fun output ↦
        ∀ values, output = .ok values → AllUnpiped values := by
  have houtput : (captureOutput go ctx f arguments).Heeds setup
      ((Value.fn f).Unpiped ∧ AllUnpiped arguments) w AllUnpiped :=
    heeds_captureOutput hgo ctx f arguments w
  unfold Heeds at houtput ⊢
  unfold captureProtected
  obtain ⟨events, hjournal, hheeds⟩ := houtput
  rcases hact : captureOutput go ctx f arguments w with ⟨values | e | what | reason, w'⟩ <;>
    rw [hact] at hjournal hheeds <;>
    refine ⟨events, hjournal, fun hgiven hw hloads ↦ ⟨(hheeds hgiven hw hloads).1, ?_⟩⟩
  case done =>
    rintro output ⟨⟩ others ⟨⟩
    exact (hheeds hgiven hw hloads).2 values rfl
  case raised =>
    rintro output ⟨⟩
    exact nofun
  all_goals exact nofun

theorem heeds_captureFunction (hgo : Runner.Heeds setup go) (ctx : Context)
    (arguments : List Value) (w : World) :
    (captureFunction go ctx arguments).Stops setup (AllUnpiped arguments) w := by
  refine (heeds_functionArgument arguments w).bind fun (f, rest) w₁ ↦ ?_
  refine Heeds.bind ((heeds_captureProtected hgo ctx f rest w₁).assuming fun h ↦ h.2)
    fun output w₂ ↦ ?_
  cases output with
  | ok values =>
    exact (heeds_putValue ctx (fun h ↦ Value.unpiped_list.mpr (h.2 values rfl)) w₂).bind
      fun _ w₃ ↦ heeds_putValue ctx (fun _ ↦ unpiped_outcomeValue none) w₃
  | error e =>
    exact (heeds_putValue ctx (fun _ ↦
      Value.unpiped_list.mpr (.cons (Value.unpiped_text _) .nil)) w₂).bind
        fun _ w₃ ↦ heeds_putValue ctx (fun _ ↦ unpiped_outcomeValue (some e)) w₃

/-! ## Reflection -/

theorem heeds_lookupReference (hgo : Runner.Heeds setup go) (ctx : Context)
    (arguments : List Value) (w : World) : (lookupReference go ctx arguments).Stops setup given w := by
  unfold lookupReference
  split
  · refine (Heeds.calm (.ofExcept _)).bind fun qualifier w₁ ↦ ?_
    refine (Heeds.calm (.ofExcept _)).bind fun name w₂ ↦ ?_
    refine (heeds_resolve hgo ctx qualifier name w₂).bind fun place w₃ ↦ ?_
    cases place with
    | none => exact heeds_putValue ctx (fun _ ↦ Value.unpiped_list.mpr .nil) w₃
    | some place =>
      exact (heeds_readPlace place w₃).bind fun v w₄ ↦
        heeds_putValue ctx (fun h ↦ Value.unpiped_list.mpr (.cons h.2 .nil)) w₄
  · exact .fail _

/-! ## Interruption -/

/-- A flag that has been set is noted to be. -/
theorem heeds_interrupted (hset : w.interrupted = true) :
    (Act.modify (World.note .interrupted)).Stops setup given w := by
  refine ⟨[.interrupted], rfl, fun _ hw _ ↦ ⟨⟨hw, ?_, fun _ ↦ hset⟩, fun _ _ ↦ trivial⟩⟩
  intro before span now after heq
  rcases List.append_eq_singleton_iff.mp heq.symm with ⟨-, hform⟩ | ⟨-, hform⟩
  · cases hform
  · cases hform

/-- What sets the flag, if it ends, notes then that it has. -/
theorem heeds_noted {act : Act Unit} (h : act.Stops setup given w)
    (hset : ∀ w', act w = (.done (), w') → w'.interrupted = true) :
    (act >>= fun _ ↦ Act.modify (World.note .interrupted)).Stops setup given w :=
  h.bindFrom fun _ w' hact ↦ heeds_interrupted (hset w' hact)

theorem heeds_trip (w : World) : trip.Stops setup given w := by
  refine heeds_noted (.calm calm_setInterrupt) fun w' hact ↦ ?_
  obtain rfl : { w with interrupted := true } = w' := (Prod.mk.inj hact).2
  rfl

/-- The signal that has been sent is waited for until it has set the flag. -/
theorem heeds_sigint (w : World) : sigint.Stops setup given w := by
  refine heeds_noted (.calm calm_signalStub) fun w' hact ↦ ?_
  unfold signalStub at hact
  dsimp only at hact
  split at hact
  · split at hact
    · cases hact
      assumption
    · cases hact
  · cases hact

/-! ## Dispatch -/

theorem heeds_callBuiltin (hgo : Runner.Heeds setup go) (ctx : Context) (b : Builtin)
    (arguments : List Value) (w : World) :
    (callBuiltin go ctx b arguments).Stops setup (AllUnpiped arguments) w := by
  cases b with
  | put => exact heeds_put ctx arguments w
  | echo => exact .calm (calm_echo ctx arguments)
  | fail => exact .calm (calm_fail arguments)
  | nop => exact .pure fun _ ↦ trivial
  | cd => exact .calm (calm_cd arguments)
  | collect => exact heeds_collect hgo ctx arguments w
  | count => exact heeds_count ctx w
  | each => exact heeds_each hgo ctx arguments w
  | slurp => exact .calm (calm_slurp ctx)
  | trip => exact heeds_trip w
  | boom => exact .throwForeign _
  | call => exact heeds_callFunction hgo ctx arguments w
  | «try» => exact heeds_tryFunction hgo ctx arguments w
  | capture => exact heeds_captureFunction hgo ctx arguments w
  | ctx => exact .calm (calm_showContext ctx)
  | lookup => exact heeds_lookupReference hgo ctx arguments w
  | sigint => exact heeds_sigint w

theorem heeds_callFn (hgo : Runner.Heeds setup go) (ctx : Context) (f : Fn)
    (arguments : List Value) (w : World) :
    (callFn go ctx f arguments).Stops setup ((Value.fn f).Unpiped ∧ AllUnpiped arguments) w := by
  cases f with
  | builtin b => exact (heeds_callBuiltin hgo ctx b arguments w).assuming fun h ↦ h.2
  | inert name => exact .pure fun _ ↦ trivial
  | external name => exact .calm (calm_callExternal ctx name arguments)
  | closure c =>
    exact (heeds_callClosure hgo ctx c arguments w).assuming fun h ↦
      ⟨Value.unpiped_closure.mp h.1, h.2⟩

/-- Every request heeds the flag, with whatever bound it runs. -/
theorem heeds_run (setup : Setup) (fuel : Nat) : Runner.Heeds setup (run setup fuel) := by
  induction fuel with
  | zero => exact ⟨keeps_requests setup 0, fun _ _ _ _ ↦ .halt _, fun _ _ _ ↦ .halt _⟩
  | succ fuel ih =>
    exact ⟨keeps_requests setup (fuel + 1), heeds_callFn ih, heeds_loadModule ih⟩

end Conduit.Eval
