import Conduit.Proofs.Handling.Stages
import Conduit.Proofs.Mirror.Blind

/-!
# Quiet Actions

A quiet action handles endpoints, streams, files and the like and leaves names and variables alone.
What it raises is blamed on nothing or on the span under evaluation, and it never asks for the kind of
the absent value.  The actions that neither look at values nor run code are quiet, and so is taking
values off a channel.
-/

namespace Conduit

/-! ## Errors that are blamed on nothing -/

/-- A computation whose errors are blamed on nothing. -/
def Unblamed {α : Type} (result : Except Error α) : Prop := ∀ e, result = .error e → e.span = none

namespace Unblamed

variable {α β : Type}

theorem ok (a : α) : Unblamed (.ok a : Except Error α) := nofun

theorem error {e : Error} (h : e.span = none) : Unblamed (.error e : Except Error α) := by
  intro e' heq
  cases heq
  exact h

theorem bind {x : Except Error α} {f : α → Except Error β} (h : Unblamed x)
    (hf : ∀ a, Unblamed (f a)) : Unblamed (x >>= f) := by
  cases x with
  | ok a => exact hf a
  | error e => exact error (h e rfl)

theorem toText (role : Bytes) (v : Value) : Unblamed (v.toText role) := by
  cases v with
  | text content => exact ok content
  | _ => exact error rfl

theorem failTexts (values : List Value) : Unblamed (Eval.failTexts values) := by
  induction values with
  | nil => exact ok []
  | cons v rest ih => exact (toText _ v).bind fun text ↦ ih.bind fun texts ↦ ok _

theorem externalArguments (values : List Value) : Unblamed (Eval.externalArguments values) := by
  induction values with
  | nil => exact ok []
  | cons v rest ih => exact (toText _ v).bind fun text ↦ ih.bind fun texts ↦ ok _

theorem joinPaths (written : Bytes) (items : List Value) :
    Unblamed (Variable.joinPaths written items) := by
  induction items generalizing written with
  | nil => exact ok written
  | cons item others ih =>
    refine (toText _ item).bind fun directory ↦ ?_
    split
    · exact error rfl
    · exact ih _

theorem pathsText (v : Value) : Unblamed (Variable.pathsText v) := by
  cases v with
  | text content => exact ok content
  | list items => exact joinPaths [] items
  | _ => exact error rfl

theorem read (w : World) (x : Variable) : Unblamed (x.read w) := by
  unfold Variable.read
  split
  · exact ok _
  · exact ok _
  · exact ok _
  · split
    · exact ok _
    · exact error rfl
  · exact ok _

end Unblamed

/-! ## Quiet actions -/

open World (Handles)

/-- An end that blames the span under evaluation, if any, and does not ask for an absent kind. -/
def Outcome.Quiet {α : Type} (here : Span) : Outcome α → Prop
  | .done _ => True
  | .raised e => ∀ span ∈ e.span, span = here
  | .foreign _ => True
  | .halted reason => reason ≠ .absentValue

namespace Act

variable {α β : Type}

/-- The action handles endpoints and the like, and ends quietly. -/
structure Quiet (act : Act α) : Prop where
  handles : Keeps Handles act
  ends : ∀ w, (act w).1.Quiet w.here

namespace Quiet

variable {act : Act α} {next : α → Act β}

theorem pure (a : α) : Quiet (Pure.pure a : Act α) := ⟨.pure a, fun _ ↦ trivial⟩

theorem world : Quiet Act.world := ⟨.world, fun _ ↦ trivial⟩

theorem raise {e : Error} (h : e.span = none) : Quiet (Act.raise e : Act α) := by
  refine ⟨.raise e, fun w span hspan ↦ ?_⟩
  rw [h] at hspan
  cases hspan

theorem fail (message : Bytes) : Quiet (Act.fail message : Act α) := by
  refine ⟨.fail message, fun w span hspan ↦ ?_⟩
  cases hspan
  rfl

theorem halt {reason : Halt} (h : reason ≠ .absentValue) : Quiet (Act.halt reason : Act α) :=
  ⟨.halt reason, fun _ ↦ h⟩

theorem change {f : World → α × World} (h : ∀ w, Handles w (f w).2) : Quiet (Act.change f) :=
  ⟨.change h, fun _ ↦ trivial⟩

theorem modify {f : World → World} (h : ∀ w, Handles w (f w)) : Quiet (Act.modify f) :=
  ⟨.modify h, fun _ ↦ trivial⟩

theorem ofExcept {result : Except Error α} (h : Unblamed result) : Quiet (Act.ofExcept result) := by
  cases result with
  | ok a => exact pure a
  | error e => exact raise (h e rfl)

theorem bind (h : Quiet act) (hn : ∀ a, Quiet (next a)) : Quiet (act >>= next) := by
  refine ⟨.bind h.handles fun a ↦ (hn a).handles, fun w ↦ ?_⟩
  have hhere := (h.handles w).here
  have hends := h.ends w
  rw [bind_apply]
  rcases hact : act w with ⟨a | _ | _ | _, w'⟩ <;> rw [hact] at hends hhere
  case done =>
    have hnext := (hn a).ends w'
    rwa [hhere] at hnext
  all_goals exact hends

theorem map (f : α → β) (h : Quiet act) : Quiet (f <$> act) := bind h fun a ↦ pure (f a)

theorem checkInterrupt : Quiet Act.checkInterrupt := by
  refine ⟨.checkInterrupt, fun w ↦ ?_⟩
  unfold Act.checkInterrupt
  split
  · exact nofun
  · trivial

end Quiet

end Act

/-! ## Bytes, files and the environment -/

namespace World.Handles

/-- What is calm and leaves the memory alone handles the rest. -/
theorem of_memory {given : Closure → Prop} {w w' : World} (hmemory : w'.memory = w.memory)
    (hcalm : World.Calm given w w') : Handles w w' where
  scopes := congrArg Memory.scopes hmemory
  modules := congrArg Memory.modules hmemory
  journal := congrArg Memory.journal hmemory
  here := hcalm.here
  vars := congrArg Memory.vars hmemory
  environment := hcalm.environment
  queued v hv := by
    have hchannels : w'.channels = w.channels := congrArg Memory.channels hmemory
    unfold Queued at hv
    rwa [hchannels] at hv

/-- A calm change that is blind to the memory handles the rest. -/
theorem of_blind {α : Type} {given : Closure → Prop} {f : World → α × World}
    (hf : ∀ w m, f (w.withMemory m) = ((f w).1, (f w).2.withMemory m)) {w : World}
    (hcalm : World.Calm given w (f w).2) : Handles w (f w).2 := by
  have hblind : World.Blind fun w ↦ (f w).2 := fun w m ↦ congrArg Prod.snd (hf w m)
  exact of_memory (hblind.memory w) hcalm

theorem readAll (w : World) (id : StreamId) : Handles w (w.readAll id).2 :=
  have hcalm : World.Calm (fun _ ↦ False) w (w.readAll id).2 := .readAll w id
  of_blind (f := fun w ↦ w.readAll id) (fun w m ↦ w.readAll_withMemory m id) hcalm

theorem write {w w' : World} {id : StreamId} {bytes : Bytes} (h : w.write id bytes = .ok w') :
    Handles w w' := by
  have hcalm : World.Calm (fun _ ↦ False) w w' := .write h
  have hblind := w.write_withMemory w.memory id bytes
  change w.write id bytes = _ at hblind
  rw [h] at hblind
  have hsame : w' = w'.withMemory w.memory := Except.ok.inj hblind
  have hmemory : w'.memory = w.memory := by
    rw [hsame]
    rfl
  exact of_memory hmemory hcalm

end World.Handles

namespace Eval

open Act (Quiet)

theorem quiet_setEnv (name value : Bytes) : Quiet (Act.setEnv name value) := by
  refine ⟨fun w ↦ ?_, fun w ↦ ?_⟩ <;> unfold Act.setEnv <;> split
  · rename_i hset
    exact .setEnvironment w hset
  · exact .refl w
  · trivial
  · exact nofun

theorem quiet_openFile (mode : Host.OpenMode) (path : Bytes) : Quiet (openFile mode path) := by
  refine ⟨fun w ↦ ?_, fun w ↦ ?_⟩ <;> unfold openFile <;> split
  · exact .other w _ _ _ _ _ _ _ _ _ _ _
  · exact .refl w
  · trivial
  · exact nofun

theorem quiet_cdTarget (arguments : List Value) : Quiet (cdTarget arguments) := by
  cases arguments with
  | nil => exact .bind .world fun _ ↦ .pure _
  | cons v rest => exact .ofExcept (.toText _ v)

theorem quiet_cd (arguments : List Value) : Quiet (cd arguments) := by
  unfold cd
  split
  · exact .raise rfl
  · refine .bind (quiet_cdTarget arguments) fun target ↦ .bind .world fun w ↦ ?_
    split
    · exact .fail _
    · exact .bind (.modify fun w ↦ .other w _ _ _ _ _ _ _ _ _ _ _) fun _ ↦
        .bind (quiet_setEnv _ _) fun _ ↦ quiet_setEnv _ _

theorem quiet_callExternal (ctx : Context) (name : Bytes) (arguments : List Value) :
    Quiet (callExternal ctx name arguments) := by
  have hprogram : ∀ streams path texts, Quiet (Act.change (runProgram streams path texts)) := by
    refine fun streams path texts ↦ .change fun w ↦ ?_
    have hcalm : World.Calm (fun _ ↦ False) w (runProgram streams path texts w).2 :=
      calm_runProgram streams path texts w
    exact .of_blind (fun w m ↦ runProgram_withMemory w m streams path texts) hcalm
  refine .bind .world fun w ↦ ?_
  split
  · exact .raise rfl
  · refine .bind (.ofExcept (.externalArguments _)) fun texts ↦ .bind (hprogram _ _ _) fun status ↦ ?_
    split
    · exact .pure _
    · rename_i e he
      refine .raise ?_
      unfold statusError? at he
      split at he <;> cases he <;> rfl

theorem quiet_setInterrupt : Quiet setInterrupt := .modify fun w ↦ .other w _ _ _ _ _ _ _ _ _ _ _

theorem quiet_signalStub : Quiet signalStub := by
  refine ⟨fun w ↦ ?_, fun w ↦ ?_⟩
  · have hcalm : World.Calm (fun _ ↦ False) w (signalStub w).2 := calm_signalStub w
    exact .of_blind Act.Blind.signalStub hcalm
  · unfold signalStub
    dsimp only
    split
    · split
      · trivial
      · exact nofun
    · exact nofun

theorem quiet_parse (parser : Parser) (text : Bytes) : Quiet (parse parser text) :=
  ⟨fun w ↦ .other w _ _ _ _ _ _ _ _ _ _ _, fun _ ↦ trivial⟩

theorem quiet_parseModule (setup : Setup) (name file : Bytes) :
    Quiet (parseModule setup name file) := by
  unfold parseModule
  refine .bind .world fun w ↦ ?_
  split
  · exact .raise rfl
  · exact .raise rfl
  · refine .bind (quiet_parse _ _) fun result ↦ ?_
    split
    · exact .pure _
    · exact .raise rfl

/-- A module file cannot be parsed, or it is read and parsed, which changes nothing but a count. -/
theorem parseModule_cases (setup : Setup) (name file : Bytes) (w : World) :
    (∃ why v, parseModule setup name file w = (.raised (loadError name why), v)) ∨
      ∃ found parser chunk, readSource w.files w.directory file = ⟨none, found⟩ ∧
        setup.parser = some parser ∧ parser (found.getD []) = .ok chunk ∧
          parseModule setup name file w =
            (.done (found.getD [], chunk), { w with parses := w.parses + 1 }) := by
  unfold parseModule
  rw [Act.world_bind]
  rcases hread : readSource w.files w.directory file with ⟨_ | e, found⟩
  · rcases hparser : setup.parser with _ | parser
    · exact .inl ⟨_, w, rfl⟩
    · rcases hchunk : parser (found.getD []) with e | chunk
      · refine .inl ⟨e.message, { w with parses := w.parses + 1 }, ?_⟩
        simp only [Act.bind_apply, parse, hchunk]
        rfl
      · refine .inr ⟨found, parser, chunk, rfl, rfl, hchunk, ?_⟩
        simp only [Act.bind_apply, parse, hchunk]
        rfl
  · exact .inl ⟨_, w, rfl⟩

/-! ## Endpoints -/

theorem quiet_fork (ctx : Context) (label : Bytes) : Quiet (ctx.fork label) :=
  .change fun w ↦ .forkEndpoints w ctx.endpoints

theorem quiet_setEndpoint (ctx : Context) (n : Nat) (e : Option EndpointId) :
    Quiet (ctx.setEndpoint n e) :=
  .change fun w ↦ .setEndpoint w ctx.endpoints n e

theorem quiet_attach (ctx : Context) (n : Nat) (e : Option EndpointId) : Quiet (attach ctx n e) := by
  cases e with
  | some e => exact quiet_setEndpoint ctx n (some e)
  | none => exact .pure ctx

theorem quiet_linkBefore (rest : List Code.Form) : Quiet (linkBefore rest) := by
  unfold linkBefore
  split
  · exact .pure none
  · exact .map some ⟨handles_newLink, fun _ ↦ trivial⟩

theorem quiet_openStage (ctx : Context) (number : Nat) (input : Option EndpointId)
    (rest : List Code.Form) : Quiet (openStage ctx number input rest) :=
  .bind (quiet_fork ctx _) fun stage ↦ .bind (quiet_attach stage 0 input) fun stage ↦
    .bind (quiet_linkBefore rest) fun _ ↦ .bind (quiet_attach stage 1 _) fun _ ↦
    .bind .world fun _ ↦ .pure _

theorem quiet_closeInput (channel : Option ChannelId) : Quiet (closeInput channel) :=
  ⟨handles_closeInput channel, fun _ ↦ trivial⟩

theorem quiet_outputChannel (ctx : Context) (message : Bytes) :
    Quiet (outputChannel ctx message) := by
  refine .bind .world fun w ↦ ?_
  split
  · exact .pure _
  · exact .fail _

theorem quiet_inputChannel (ctx : Context) : Quiet (inputChannel ctx) := by
  refine .bind .world fun w ↦ ?_
  split
  · exact .pure _
  · exact .fail _

/-! ## Values that are taken -/

theorem quiet_receiveFrom (channel : ChannelId) : Quiet (receiveFrom channel) := by
  refine ⟨fun w ↦ ?_, fun w ↦ ?_⟩ <;> unfold receiveFrom <;>
    rcases hrecv : (w.channels.get? channel).bind fun line ↦ line.channel.recv? with _ | ⟨rest, v⟩
  · exact .refl w
  · obtain ⟨line, hline, hrecv⟩ := Option.bind_eq_some_iff.mp hrecv
    obtain ⟨-, hqueue⟩ := Channel.queue_of_recv? hrecv
    change World.Handles w (w.modifyChannel channel fun _ ↦ rest)
    refine .modifyChannel w fun other hother u hu ↦ ?_
    rw [hline, Option.some.injEq] at hother
    rw [← hother, hqueue]
    exact List.mem_append_right _ hu
  · exact nofun
  · trivial

/-- What is received was queued. -/
theorem queued_of_receiveFrom {channel : ChannelId} {w w' : World} {v : Value}
    (h : receiveFrom channel w = (.done (some v), w')) : w.Queued v := by
  unfold receiveFrom at h
  rcases hrecv : (w.channels.get? channel).bind fun line ↦ line.channel.recv? with _ | ⟨rest, u⟩ <;>
    rw [hrecv] at h
  · cases h
  · cases h
    obtain ⟨line, hline, hrecv⟩ := Option.bind_eq_some_iff.mp hrecv
    obtain ⟨-, hqueue⟩ := Channel.queue_of_recv? hrecv
    refine ⟨channel, line, hline, ?_⟩
    rw [hqueue]
    exact List.mem_append_left _ (Option.mem_toList.mpr rfl)

theorem quiet_countQueued (channel : ChannelId) (n : Nat) : Quiet (countQueued channel n) := by
  induction n with
  | zero => exact .bind (quiet_receiveFrom channel) fun _ ↦ .pure _
  | succ n ih =>
    refine .bind (quiet_receiveFrom channel) fun v ↦ ?_
    split
    · exact .bind ih fun _ ↦ .pure _
    · exact .pure _

theorem quiet_gather (channel : ChannelId) (pipe : PipeId) : Quiet (gather channel pipe) := by
  refine ⟨fun w ↦ ?_, fun _ ↦ trivial⟩
  exact (World.Handles.drainChannel w channel).trans (.other _ _ _ _ _ _ _ _ _ _ _ _)

/-- What is gathered was queued or is the text of a line. -/
theorem queued_of_gather {channel : ChannelId} {pipe : PipeId} {w w' : World}
    {values : List Value} (h : gather channel pipe w = (.done values, w')) :
    ∀ v ∈ values, w.Queued v ∨ ∃ content, v = .text content := by
  cases h
  intro v hv
  rcases List.mem_append.mp hv with hv | hv
  · rcases hline : w.channels.get? channel with _ | line
    · simp [hline] at hv
    · exact .inl ⟨channel, line, hline, by simpa [hline] using hv⟩
  · obtain ⟨content, -, rfl⟩ := List.mem_map.mp hv
    exact .inr ⟨content, rfl⟩

end Eval

end Conduit
