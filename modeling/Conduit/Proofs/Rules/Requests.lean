import Conduit.Proofs.Rules.Bodies

/-!
# Requests that Comply

Builtins pass on values that they were given, have received or have captured, and these obey the rules;
the values that they make themselves are texts and lists of texts.  So every request complies, with
whatever bound it runs and in whatever context.
-/

namespace Conduit.Eval

open World (Handles Onward)
open Act (Complies Plain)
open Value (AllObey)

variable {T : Rules} {go : Runner} {ctx : Context} {w : World}

/-! ## Sending and receiving -/

theorem lawful_enqueue (hw : w.Lawful T) (channel : ChannelId) {v : Value}
    (hv : v.Obeys T w.journal) : (w.modifyChannel channel fun c ↦ c.enqueue v).Lawful T := by
  refine hw.of_vars List.prefix_rfl rfl rfl fun u hu ↦ ?_
  obtain ⟨id, line', hline', hu⟩ := hu
  change (w.channels.modify _ _).get? _ = _ at hline'
  rw [Table.get?_modify] at hline'
  split at hline'
  · obtain ⟨line, hline, rfl⟩ := Option.map_eq_some_iff.mp hline'
    rcases List.mem_append.mp hu with hu | hu
    · exact .inl ⟨id, line, hline, hu⟩
    · rw [List.mem_singleton] at hu
      exact .inr (hu ▸ hv)
  · exact .inl ⟨id, line', hline', hu⟩

theorem complies_sendTo (hw : w.Obeys T) (channel : ChannelId) {v : Value}
    (hv : v.Obeys T w.journal) : (sendTo channel v).Plain T w := by
  have hsent : (w.modifyChannel channel fun c ↦ c.enqueue v).Obeys T :=
    ⟨lawful_enqueue hw.toLawful channel hv, hw.here⟩
  have honward : Onward w (w.modifyChannel channel fun c ↦ c.enqueue v) :=
    .of_vars List.prefix_rfl rfl
  refine ⟨?_, ?_, ?_⟩ <;> unfold sendTo <;> (repeat' split)
  all_goals first | exact hw | exact hsent | exact .refl w | exact honward | trivial | exact nofun

theorem complies_putValue (hw : w.Obeys T) (ctx : Context) {v : Value} (hv : v.Obeys T w.journal) :
    (putValue ctx v).Plain T w := by
  refine (Complies.quiet hw (quiet_outputChannel ctx _)).bind fun channel w₁ hw₁ h₁ _ ↦ ?_
  exact (complies_sendTo hw₁ channel (h₁.value hv)).bind fun _ w₂ hw₂ _ _ ↦ .pure hw₂ trivial

theorem complies_putAll (hw : w.Obeys T) (channel : ChannelId) {values : List Value}
    (hvalues : AllObey T values w) : (putAll channel values).Plain T w := by
  induction values generalizing w with
  | nil => exact .pure hw trivial
  | cons v rest ih =>
    unfold putAll
    refine (Complies.checkInterrupt hw).bind fun _ w₁ hw₁ h₁ _ ↦ ?_
    have hv : v.Obeys T w₁.journal := h₁.value (hvalues v List.mem_cons_self)
    refine (complies_sendTo hw₁ channel hv).bind fun accepted w₂ hw₂ h₂ _ ↦ ?_
    split
    · exact ih hw₂ fun u hu ↦ (h₁.trans h₂).value (hvalues u (List.mem_cons_of_mem _ hu))
    · exact .pure hw₂ trivial

theorem complies_put (hw : w.Obeys T) (ctx : Context) {arguments : List Value}
    (harguments : AllObey T arguments w) : (put ctx arguments).Plain T w :=
  (Complies.quiet hw (quiet_outputChannel ctx _)).bind fun channel _ hw₁ h₁ _ ↦
    complies_putAll hw₁ channel (harguments.onward h₁)

/-- What is received was queued. -/
theorem complies_receiveFrom (hw : w.Obeys T) (channel : ChannelId) :
    (receiveFrom channel).Complies T w fun v w' ↦ ∀ u ∈ v, u.Obeys T w'.journal := by
  have honward : Onward w (receiveFrom channel w).2 := .handles ((quiet_receiveFrom channel).handles w)
  refine .quietly hw (quiet_receiveFrom channel) fun v w' h u hu ↦ ?_
  rw [h] at honward
  cases hu
  exact honward.value (hw.queued u (queued_of_receiveFrom h))

/-! ## Words -/

theorem complies_wordsOf (hw : w.Obeys T) {values : List Value} (hvalues : AllObey T values w) :
    (wordsOf values).Plain T w := by
  induction values generalizing w with
  | nil => exact .pure hw trivial
  | cons v rest ih =>
    unfold wordsOf
    refine (Complies.kindOf hw (hvalues v List.mem_cons_self)).bind fun _ w₁ hw₁ h₁ _ ↦ ?_
    refine (ih hw₁ fun u hu ↦ h₁.value (hvalues u (List.mem_cons_of_mem _ hu))).bind
      fun _ w₂ hw₂ _ _ ↦ .pure hw₂ trivial

theorem complies_echo (hw : w.Obeys T) (ctx : Context) {arguments : List Value}
    (harguments : AllObey T arguments w) : (echo ctx arguments).Plain T w := by
  unfold echo
  refine .worldBind ?_
  split
  · exact .fail hw _
  · refine (complies_wordsOf hw harguments).bind fun words w₁ hw₁ _ _ ↦ .worldBind ?_
    split
    · rename_i w₂ hwrite
      exact ⟨hw₁.handles (.write hwrite), .handles (.write hwrite), trivial⟩
    · exact .fail hw₁ _

theorem quiet_fail (arguments : List Value) : (fail arguments).Quiet :=
  .bind (.ofExcept (.failTexts arguments)) fun _ ↦ .fail _

/-! ## Input -/

theorem complies_takeEach (hw : w.Obeys T) (channel : ChannelId) {step : Value → Act Unit}
    (hstep : ∀ v w', w'.Obeys T → Onward w w' → v.Obeys T w'.journal → (step v).Plain T w') (n : Nat) :
    (takeEach channel step n).Plain T w := by
  induction n generalizing w with
  | zero => exact .pure hw trivial
  | succ n ih =>
    refine (complies_receiveFrom hw channel).bind fun received w₁ hw₁ h₁ hreceived ↦ ?_
    cases received with
    | none => exact .pure hw₁ trivial
    | some v =>
      refine (hstep v w₁ hw₁ h₁ (hreceived v rfl)).bind fun _ w₂ hw₂ h₂ _ ↦ ?_
      exact ih hw₂ fun u w' hw' h' ↦ hstep u w' hw' ((h₁.trans h₂).trans h')

theorem complies_consume (hw : w.Obeys T) (channel : ChannelId) {step : Value → Act Unit}
    {again : Act Unit}
    (hstep : ∀ v w', w'.Obeys T → Onward w w' → v.Obeys T w'.journal → (step v).Plain T w')
    (hagain : ∀ w', w'.Obeys T → Onward w w' → again.Plain T w') :
    (consume channel step again).Plain T w := by
  unfold consume
  refine .worldBind ((complies_takeEach hw channel hstep _).bind fun _ w₁ hw₁ h₁ _ ↦ .worldBind ?_)
  split
  · exact (complies_receiveFrom hw₁ channel).bind fun _ w₂ hw₂ _ _ ↦ .pure hw₂ trivial
  · exact hagain w₁ hw₁ h₁

theorem complies_collect (hgo : Runner.Complies T go) (hw : w.Obeys T) {arguments : List Value}
    (harguments : AllObey T arguments w) : (collect go ctx arguments).Plain T w := by
  refine (Complies.quiet hw (quiet_inputChannel ctx)).bind fun channel w₁ hw₁ h₁ _ ↦ ?_
  refine complies_consume hw₁ channel (fun v w' hw' _ hv ↦ complies_putValue hw' ctx hv)
    fun w' hw' h' ↦ ?_
  exact hgo.call ctx hw' (Value.obeys_builtin _) (harguments.onward (h₁.trans h'))

/-- The function and the other arguments obey the rules as the arguments do. -/
theorem complies_functionArgument (hw : w.Obeys T) {arguments : List Value}
    (harguments : AllObey T arguments w) :
    (functionArgument arguments).Complies T w fun (f, rest) w' ↦
      (Value.fn f).Obeys T w'.journal ∧ AllObey T rest w' := by
  unfold functionArgument
  split
  · exact .pure hw ⟨harguments _ List.mem_cons_self,
      fun v hv ↦ harguments v (List.mem_cons_of_mem _ hv)⟩
  · exact .fail hw _

theorem complies_each (hgo : Runner.Complies T go) (hw : w.Obeys T) {arguments : List Value}
    (harguments : AllObey T arguments w) : (each go ctx arguments).Plain T w := by
  refine (complies_functionArgument hw harguments).bind fun (f, rest) w₁ hw₁ h₁ ⟨hf, _⟩ ↦ ?_
  refine (Complies.quiet hw₁ (quiet_inputChannel ctx)).bind fun channel w₂ hw₂ h₂ _ ↦ ?_
  refine complies_consume hw₂ channel (fun v w' hw' h' hv ↦ ?_) fun w' hw' h' ↦ ?_
  · exact hgo.call ctx hw' ((h₂.trans h').value hf) (.singleton hv)
  · exact hgo.call ctx hw' (Value.obeys_builtin _) (harguments.onward ((h₁.trans h₂).trans h'))

theorem complies_count (hw : w.Obeys T) (ctx : Context) : (count ctx).Plain T w := by
  refine (Complies.quiet hw (quiet_inputChannel ctx)).bind fun channel w₁ hw₁ _ _ ↦ .worldBind ?_
  refine (Complies.quiet hw₁ (quiet_countQueued channel _)).bind fun n w₂ hw₂ _ _ ↦ ?_
  exact complies_putValue hw₂ ctx (Value.obeys_text _)

theorem complies_slurp (hw : w.Obeys T) (ctx : Context) : (slurp ctx).Plain T w := by
  unfold slurp
  refine .worldBind ?_
  split
  · exact .fail hw _
  · refine (Complies.quiet hw (.change fun w ↦ .readAll w _)).bind fun bytes w₁ hw₁ _ _ ↦ ?_
    exact complies_putValue hw₁ ctx (Value.obeys_text _)

/-! ## Calls and captures -/

theorem outcomeValue_obeys (error : Option Error) (journal : List Event) :
    (outcomeValue error).Obeys T journal := by
  cases error with
  | none => exact Value.obeys_text _
  | some e => exact Value.obeys_texts [_, _, _, _]

theorem complies_callFunction (hgo : Runner.Complies T go) (hw : w.Obeys T) {arguments : List Value}
    (harguments : AllObey T arguments w) : (callFunction go ctx arguments).Plain T w :=
  (complies_functionArgument hw harguments).bind fun (_, _) _ hw₁ _ ⟨hf, hrest⟩ ↦
    hgo.call ctx hw₁ hf hrest

theorem complies_tryFunction (hgo : Runner.Complies T go) (hw : w.Obeys T) {arguments : List Value}
    (harguments : AllObey T arguments w) : (tryFunction go ctx arguments).Plain T w := by
  refine (complies_functionArgument hw harguments).bind fun (f, rest) w₁ hw₁ _ ⟨hf, hrest⟩ ↦ ?_
  refine (Complies.attempt (hgo.call ctx hw₁ hf hrest)).bind fun error w₂ hw₂ _ _ ↦ ?_
  exact complies_putValue hw₂ ctx (outcomeValue_obeys error _)

theorem complies_gather (hw : w.Obeys T) (channel : ChannelId) (pipe : PipeId) :
    (gather channel pipe).Complies T w (AllObey T) := by
  refine .quietly hw (quiet_gather channel pipe) fun values w' h v hv ↦ ?_
  have hjournal : w'.journal = w.journal := by
    cases h
    rfl
  rw [hjournal]
  rcases queued_of_gather h v hv with hv | ⟨content, rfl⟩
  · exact hw.queued v hv
  · exact Value.obeys_text content

theorem complies_captureOutput (hgo : Runner.Complies T go) (hw : w.Obeys T) {f : Fn}
    {arguments : List Value} (hf : (Value.fn f).Obeys T w.journal)
    (harguments : AllObey T arguments w) :
    (captureOutput go ctx f arguments).Complies T w (AllObey T) := by
  unfold captureOutput
  refine (Complies.quiet hw (.change fun w ↦ .newPipe w)).bind
    fun (pipe, reader, writer) w₁ hw₁ h₁ _ ↦ ?_
  refine (Complies.quiet hw₁ (.change fun w ↦ .newChannel w rfl)).bind fun channel w₂ hw₂ h₂ _ ↦ ?_
  refine (Complies.quiet hw₂ (.change fun w ↦ .newEndpoint w _)).bind fun output w₃ hw₃ h₃ _ ↦ ?_
  refine (Complies.quiet hw₃ (.change fun w ↦ .newEndpoint w _)).bind fun input w₄ hw₄ h₄ _ ↦ ?_
  refine (Complies.quiet hw₄ (quiet_fork ctx _)).bind fun fork w₅ hw₅ h₅ _ ↦ ?_
  refine (Complies.quiet hw₅ (quiet_setEndpoint fork 1 (some output))).bind fun fork w₆ hw₆ h₆ _ ↦ ?_
  have honward : Onward w w₆ := ((((h₁.trans h₂).trans h₃).trans h₄).trans h₅).trans h₆
  have hcall : (go (.call fork f arguments)).Plain T w₆ :=
    hgo.call fork hw₆ (honward.value hf) (harguments.onward honward)
  refine ((Complies.apart hw₆ hcall fun _ _ h ↦ h).ensuringHandles fun w' ↦ ?_).bind
    fun _ w₇ hw₇ _ _ ↦ complies_gather hw₇ channel pipe
  have hclose : Handles w' ((fork.finish w').closeChannel channel) :=
    (fork.handles_finish w').trans (.closeChannel _ _)
  exact hclose.trans (.dropEndpoint _ _)

theorem complies_captureProtected (hgo : Runner.Complies T go) (hw : w.Obeys T) {f : Fn}
    {arguments : List Value} (hf : (Value.fn f).Obeys T w.journal)
    (harguments : AllObey T arguments w) :
    (captureProtected go ctx f arguments).Complies T w fun output w' ↦
      ∀ values, output = .ok values → AllObey T values w' := by
  have houtput : (captureOutput go ctx f arguments).Complies T w (AllObey T) :=
    complies_captureOutput hgo hw hf harguments
  obtain ⟨hobeys, honward, hends⟩ := houtput
  rcases hact : captureOutput go ctx f arguments w with ⟨values | e | what | reason, w'⟩ <;>
    rw [hact] at hobeys honward hends <;>
    (refine ⟨?_, ?_, ?_⟩ <;> unfold captureProtected <;> rw [hact])
  case done.refine_3 =>
    rintro others ⟨rfl⟩
    exact hends
  case raised.refine_3 => exact nofun
  case foreign.refine_3 => trivial
  case halted.refine_3 => exact hends
  all_goals first | exact hobeys | exact honward

theorem complies_captureFunction (hgo : Runner.Complies T go) (hw : w.Obeys T)
    {arguments : List Value} (harguments : AllObey T arguments w) :
    (captureFunction go ctx arguments).Plain T w := by
  refine (complies_functionArgument hw harguments).bind fun (f, rest) w₁ hw₁ _ ⟨hf, hrest⟩ ↦ ?_
  refine (complies_captureProtected hgo hw₁ hf hrest).bind fun output w₂ hw₂ _ houtput ↦ ?_
  have hput : ∀ values, AllObey T values w₂ → ∀ error,
      (do putValue ctx (.list values); putValue ctx (outcomeValue error) : Act Unit).Plain T w₂ :=
    fun values hvalues error ↦
      (complies_putValue hw₂ ctx (Value.obeys_list.mpr hvalues)).bind fun _ w₃ hw₃ _ _ ↦
        complies_putValue hw₃ ctx (outcomeValue_obeys error _)
  cases output with
  | ok values => exact hput values (houtput values rfl) none
  | error e => exact hput unset (.singleton (Value.obeys_text _)) (some e)

/-! ## Reflection -/

theorem describe_obeys (ctx : Context) (w : World) (journal : List Event) :
    (describe ctx w).Obeys T journal := by
  refine Value.obeys_list.mpr fun v hv ↦ ?_
  simp only [List.mem_append, List.mem_cons, List.mem_map, List.not_mem_nil, or_false] at hv
  rcases hv with ((rfl | rfl | rfl | rfl) | ⟨e, -, rfl⟩) | rfl | rfl
  all_goals first | exact Value.obeys_text _ | exact Value.obeys_texts _

theorem complies_lookupReference (hgo : Runner.Complies T go) (hw : w.Obeys T)
    (arguments : List Value) : (lookupReference go ctx arguments).Plain T w := by
  unfold lookupReference
  split
  · refine (Complies.ofExcept hw (.toText _ _)).bind fun qualifier w₁ hw₁ _ _ ↦ ?_
    refine (Complies.ofExcept hw₁ (.toText _ _)).bind fun name w₂ hw₂ _ _ ↦ ?_
    refine (complies_resolve hgo hw₂ ctx _ _).bind fun place w₃ hw₃ _ hready ↦ ?_
    cases place with
    | some place =>
      refine (complies_readPlace hw₃ (hready place rfl)).bind fun v w₄ hw₄ _ hv ↦ ?_
      exact complies_putValue hw₄ ctx (Value.obeys_list.mpr (AllObey.singleton (w := w₄) hv))
    | none => exact complies_putValue hw₃ ctx (Value.obeys_texts [])
  · exact .fail hw _

/-! ## Dispatch -/

/-- An interruption is noted. -/
theorem complies_noted (hw : w.Obeys T) {act : Act Unit} (h : Act.Quiet act) :
    (do act; Act.modify (World.note .interrupted) : Act Unit).Plain T w :=
  (Complies.quiet hw h).bind fun _ _ hw' _ _ ↦ (Complies.note hw' _).plain

theorem complies_callBuiltin (hgo : Runner.Complies T go) (hw : w.Obeys T) (b : Builtin)
    {arguments : List Value} (harguments : AllObey T arguments w) :
    (callBuiltin go ctx b arguments).Plain T w := by
  cases b with
  | put => exact complies_put hw ctx harguments
  | echo => exact complies_echo hw ctx harguments
  | fail => exact .quiet hw (quiet_fail arguments)
  | nop => exact .pure hw trivial
  | cd => exact .quiet hw (quiet_cd arguments)
  | collect => exact complies_collect hgo hw harguments
  | count => exact complies_count hw ctx
  | each => exact complies_each hgo hw harguments
  | slurp => exact complies_slurp hw ctx
  | trip => exact complies_noted hw quiet_setInterrupt
  | boom => exact .throwForeign hw _
  | call => exact complies_callFunction hgo hw harguments
  | «try» => exact complies_tryFunction hgo hw harguments
  | capture => exact complies_captureFunction hgo hw harguments
  | ctx => exact .worldBind (complies_putValue hw ctx (describe_obeys ctx w _))
  | lookup => exact complies_lookupReference hgo hw arguments
  | sigint => exact complies_noted hw quiet_signalStub

theorem complies_callFn (hgo : Runner.Complies T go) (hw : w.Obeys T) {f : Fn}
    {arguments : List Value} (hf : (Value.fn f).Obeys T w.journal)
    (harguments : AllObey T arguments w) : (callFn go ctx f arguments).Plain T w := by
  cases f with
  | builtin b => exact complies_callBuiltin hgo hw b harguments
  | inert name => exact .pure hw trivial
  | external name => exact .quiet hw (quiet_callExternal ctx name arguments)
  | closure c => exact complies_callClosure hgo hw (hf.closures c (by simp)) harguments

/-- Every request complies, with whatever bound it runs. -/
theorem complies_run {setup : Setup} (hsetup : T.Admits setup) (fuel : Nat) :
    Runner.Complies T (run setup fuel) := by
  induction fuel with
  | zero => exact ⟨fun _ hw _ _ ↦ .quiet hw (.halt nofun), fun _ _ hw ↦ .quiet hw (.halt nofun)⟩
  | succ fuel ih =>
    exact ⟨fun ctx hw hf harguments ↦ complies_callFn ih hw hf harguments,
      fun ctx name hw ↦ complies_loadModule hsetup ih hw name⟩

end Conduit.Eval
