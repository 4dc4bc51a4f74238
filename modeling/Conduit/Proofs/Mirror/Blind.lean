import Conduit.Eval.Run
import Conduit.Proofs.Mirror.Actions

/-!
# Operations that do not Concern the Memory

Streams, endpoints, files, the environment and external programs have nothing to do with variables,
scopes, value channels and modules.  The operations on them neither look at the memory of a state
nor touch it; closing an endpoint is the exception, since it may close a channel.
-/

namespace Conduit

namespace World

variable (w : World) (m : Memory)

/-! ## Streams -/

theorem newPipe_withMemory :
    (w.withMemory m).newPipe = (w.newPipe.1, w.newPipe.2.withMemory m) := rfl

theorem holdStream_withMemory (id : Option StreamId) :
    (w.withMemory m).holdStream id = (w.holdStream id).withMemory m := by
  cases id <;> rfl

theorem releaseStream_withMemory (id : Option StreamId) :
    (w.withMemory m).releaseStream id = (w.releaseStream id).withMemory m := by
  cases id <;> rfl

theorem skip_withMemory (id : StreamId) (count : Nat) :
    (w.withMemory m).skip id count = (w.skip id count).withMemory m := by
  have hstreams : (w.withMemory m).streams = w.streams := rfl
  unfold skip
  rw [hstreams]
  rcases (w.streams.get? id).map Stream.device with
    _ | ⟨node, offset, access⟩ | pipe | pipe | _ <;> rfl

theorem readAll_withMemory (id : StreamId) :
    (w.withMemory m).readAll id = ((w.readAll id).1, (w.readAll id).2.withMemory m) := by
  unfold readAll
  dsimp only
  rw [skip_withMemory]
  rfl

/-- A write succeeds or fails whatever the memory is. -/
theorem write_withMemory (id : StreamId) (bytes : Bytes) :
    (w.withMemory m).write id bytes = (w.write id bytes).map (withMemory · m) := by
  have hstreams : (w.withMemory m).streams = w.streams := rfl
  have hnode : ∀ node offset, (w.withMemory m).writeNode node offset bytes =
      (w.writeNode node offset bytes).withMemory m := fun _ _ ↦ rfl
  unfold write
  rw [hstreams]
  rcases (w.streams.get? id).map Stream.device with
    _ | ⟨node, offset, _ | _ | _ | _⟩ | pipe | pipe | _
  case some.file.write => simp only [hnode, skip_withMemory]; rfl
  case some.file.readWrite => simp only [hnode, skip_withMemory]; rfl
  case some.pipeWriter =>
    have hreader : (w.withMemory m).hasReader pipe = w.hasReader pipe := rfl
    dsimp only
    rw [hreader]
    split <;> rfl
  all_goals rfl

/-! ## Endpoints -/

theorem newEndpoint_withMemory (e : Endpoint) :
    (w.withMemory m).newEndpoint e = ((w.newEndpoint e).1, (w.newEndpoint e).2.withMemory m) := by
  unfold newEndpoint
  rw [holdStream_withMemory]
  rfl

theorem forkEndpoints_withMemory (endpoints : List (Option EndpointId)) :
    (w.withMemory m).forkEndpoints endpoints =
      ((w.forkEndpoints endpoints).1, (w.forkEndpoints endpoints).2.withMemory m) := by
  induction endpoints generalizing w with
  | nil => rfl
  | cons e rest ih =>
    cases e with
    | none =>
      unfold forkEndpoints
      rw [ih]
    | some id =>
      have hfork : (w.withMemory m).forkEndpoint id =
          ((w.forkEndpoint id).1, (w.forkEndpoint id).2.withMemory m) :=
        newEndpoint_withMemory w m _
      unfold forkEndpoints
      rw [hfork]
      dsimp only
      rw [ih]

theorem dropEndpoint_withMemory (id : EndpointId) :
    (w.withMemory m).dropEndpoint id = (w.dropEndpoint id).withMemory m := by
  have hendpoint : (w.withMemory m).endpoint id = w.endpoint id := rfl
  unfold dropEndpoint
  rw [hendpoint]
  dsimp only
  split
  · rw [releaseStream_withMemory]
    rfl
  · rfl

theorem dropEndpoints_withMemory (endpoints : List (Option EndpointId)) :
    (w.withMemory m).dropEndpoints endpoints = (w.dropEndpoints endpoints).withMemory m := by
  unfold dropEndpoints
  induction endpoints generalizing w with
  | nil => rfl
  | cons e rest ih =>
    rw [List.foldl_cons, List.foldl_cons]
    cases e with
    | none => exact ih w
    | some id =>
      change List.foldl _ ((w.withMemory m).dropEndpoint id) rest = _
      rw [dropEndpoint_withMemory]
      exact ih _

theorem setEndpoint_withMemory (endpoints : List (Option EndpointId)) (n : Nat)
    (e : Option EndpointId) :
    (w.withMemory m).setEndpoint endpoints n e =
      ((w.setEndpoint endpoints n e).1, (w.setEndpoint endpoints n e).2.withMemory m) := by
  unfold setEndpoint
  dsimp only
  cases slot (grow endpoints (n + 1)) n with
  | none => rfl
  | some id =>
    change (_, (w.withMemory m).dropEndpoint id) = _
    rw [dropEndpoint_withMemory]
    rfl

end World

/-! ## External programs -/

namespace Eval

open Host.Program (Process Command Status)

variable (w : World) (m : Memory) (streams : StandardStreams)

theorem writeLost_withMemory (stream : Option StreamId) (bytes : Bytes) :
    writeLost stream bytes (w.withMemory m) = (writeLost stream bytes w).withMemory m := by
  cases stream with
  | none => rfl
  | some id =>
    unfold writeLost
    dsimp only
    rw [World.write_withMemory]
    cases w.write id bytes <;> rfl

theorem abandon_withMemory (p : Process) (c : Command) (what : Bytes) :
    abandon streams p c what (w.withMemory m) =
      ((abandon streams p c what w).1, (abandon streams p c what w).2.withMemory m) := by
  unfold abandon
  rw [writeLost_withMemory]

theorem mishap_withMemory (p : Process) (c : Command) (status : Nat) (what : Bytes) :
    mishap streams p c status what (w.withMemory m) =
      ((mishap streams p c status what w).1,
        (mishap streams p c status what w).2.withMemory m) := by
  unfold mishap
  rw [writeLost_withMemory]

theorem signalSelf_withMemory (p : Process) (c : Command) (option : Bytes) :
    signalSelf streams p c option (w.withMemory m) =
      ((signalSelf streams p c option w).1, (signalSelf streams p c option w).2.withMemory m) := by
  unfold signalSelf
  split
  · exact mishap_withMemory w m streams p c _ _
  · split
    · split <;> rfl
    · exact mishap_withMemory w m streams p c _ _

theorem readVariable_withMemory (p : Process) (name : Bytes) :
    readVariable streams p name (w.withMemory m) =
      ((readVariable streams p name w).1, (readVariable streams p name w).2.withMemory m) := by
  unfold readVariable
  cases streams.input with
  | none => rfl
  | some id =>
    dsimp only [Option.elim]
    rw [World.skip_withMemory]
    rfl

theorem shiftArguments_withMemory (p : Process) (c : Command) (arguments : List Bytes) :
    shiftArguments streams p c arguments (w.withMemory m) =
      ((shiftArguments streams p c arguments w).1,
        (shiftArguments streams p c arguments w).2.withMemory m) := by
  unfold shiftArguments
  dsimp only
  split
  · exact abandon_withMemory w m streams p c _
  · split
    · exact abandon_withMemory w m streams p c _
    · rfl

theorem runCommand_withMemory (p : Process) (c : Command) :
    runCommand streams p c (w.withMemory m) =
      ((runCommand streams p c w).1, (runCommand streams p c w).2.withMemory m) := by
  unfold runCommand
  dsimp only
  split
  · rfl
  · split
    · rw [writeLost_withMemory]
    · split
      · rw [writeLost_withMemory]
      · split
        · split
          · rfl
          · split
            · rfl
            · exact abandon_withMemory w m streams p c _
        · split
          · exact signalSelf_withMemory w m streams p c _
          · split
            · exact readVariable_withMemory w m streams p _
            · split
              · rfl
              · split
                · exact shiftArguments_withMemory w m streams p c _
                · exact mishap_withMemory w m streams p c _ _

theorem runCommands_withMemory (progress : Progress) (commands : List Command) :
    runCommands streams progress commands (w.withMemory m) =
      ((runCommands streams progress commands w).1,
        (runCommands streams progress commands w).2.withMemory m) := by
  induction commands generalizing w progress with
  | nil => rfl
  | cons c rest ih =>
    unfold runCommands
    cases progress.ended with
    | some status => rfl
    | none =>
      dsimp only
      rw [runCommand_withMemory]
      exact ih _ _

theorem runProgram_withMemory (path : Bytes) (arguments : List Bytes) :
    runProgram streams path arguments (w.withMemory m) =
      ((runProgram streams path arguments w).1,
        (runProgram streams path arguments w).2.withMemory m) := by
  unfold runProgram
  have hfiles : (w.withMemory m).files = w.files := rfl
  have hdirectory : (w.withMemory m).directory = w.directory := rfl
  have henvironment : (w.withMemory m).environment = w.environment := rfl
  rw [hfiles, hdirectory, henvironment]
  dsimp only
  split
  · rw [writeLost_withMemory]
  · exact runCommands_withMemory w m streams _ _

theorem forwardSignals_withMemory (w : World) (m : Memory) :
    forwardSignals (w.withMemory m) = (forwardSignals w).withMemory m := by
  have hstub : (w.withMemory m).stub = w.stub := rfl
  unfold forwardSignals
  rw [hstub]
  split
  · rfl
  · dsimp only
    split
    · rfl
    · split <;> rfl

end Eval

/-! ## Actions -/

namespace Act.Blind

variable {α : Type}

theorem change {f : World → α × World}
    (hf : ∀ w m, f (w.withMemory m) = ((f w).1, (f w).2.withMemory m)) : Blind (Act.change f) := by
  intro w m
  unfold Act.change
  rw [hf w m]

theorem setEnv (name value : Bytes) : Blind (Act.setEnv name value) := by
  intro w m
  have henvironment : (w.withMemory m).environment = w.environment := rfl
  unfold Act.setEnv
  rw [henvironment]
  split <;> rfl

theorem openFile (mode : Host.OpenMode) (path : Bytes) : Blind (Eval.openFile mode path) := by
  intro w m
  have hfiles : (w.withMemory m).files = w.files := rfl
  have hdirectory : (w.withMemory m).directory = w.directory := rfl
  unfold Eval.openFile
  rw [hfiles, hdirectory]
  split <;> rfl

theorem callExternal (ctx : Context) (name : Bytes) (arguments : List Value) :
    Blind (Eval.callExternal ctx name arguments) := by
  refine worldBind (fun w ↦ ?_) fun _ _ ↦ rfl
  split
  · exact raise _
  · refine bind (ofExcept _) fun texts ↦
      bind (change fun w m ↦ Eval.runProgram_withMemory w m _ _ _) fun status ↦ ?_
    split
    · exact pure _
    · exact raise _

theorem cdTarget (arguments : List Value) : Blind (Eval.cdTarget arguments) := by
  unfold Eval.cdTarget
  split
  · exact worldBind (fun _ ↦ pure _) fun _ _ ↦ rfl
  · exact ofExcept _

theorem cd (arguments : List Value) : Blind (Eval.cd arguments) := by
  unfold Eval.cd
  split
  · exact raise _
  · refine bind (cdTarget arguments) fun target ↦ worldBind (fun w ↦ ?_) fun _ _ ↦ rfl
    split
    · exact fail _
    · exact bind (modify fun _ _ ↦ rfl) fun _ ↦ bind (setEnv _ _) fun _ ↦ setEnv _ _

theorem setInterrupt : Blind Eval.setInterrupt := modify fun _ _ ↦ rfl

theorem signalStub : Blind Eval.signalStub := by
  intro w m
  have hstub : (w.withMemory m).stub = w.stub := rfl
  have hinterrupted : ∀ w : World, (w.withMemory m).interrupted = w.interrupted := fun _ ↦ rfl
  unfold Eval.signalStub
  rw [hstub]
  dsimp only
  cases w.stub with
  | none =>
    dsimp only [Option.map]
    rw [Eval.forwardSignals_withMemory, hinterrupted]
    split <;> rfl
  | some stub =>
    dsimp only
    cases stub.signals.send? Eval.interruptSignal with
    | none => rfl
    | some sent =>
      let told : World := { w with stub := some { stub with signals := sent.1 } }
      have hforward : Eval.forwardSignals
          { w.withMemory m with stub := some { stub with signals := sent.1 } } =
            (Eval.forwardSignals told).withMemory m := Eval.forwardSignals_withMemory told m
      dsimp only [Option.map]
      rw [hforward, hinterrupted]
      split <;> rfl

theorem parseModule (setup : Setup) (name file : Bytes) :
    Blind (Eval.parseModule setup name file) := by
  refine worldBind (fun w ↦ ?_) fun _ _ ↦ rfl
  split
  · exact raise _
  · exact raise _
  · refine bind (fun _ _ ↦ rfl) fun result ↦ ?_
    split
    · exact pure _
    · exact raise _

end Act.Blind

end Conduit
