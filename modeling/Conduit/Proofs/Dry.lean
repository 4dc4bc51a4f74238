import Conduit.Eval.Builtins
import Conduit.Eval.Call
import Conduit.Eval.Module
import Conduit.Proofs.Action

/-!
# Dry Operations

A dry operation has nothing to do with endpoints and what stands behind them: it leaves the tables
of endpoints, streams, pipes and channels and the file tree as they are.  Reading and writing places
is dry, and so are changing the directory, interrupting, binding parameters and parsing.
-/

namespace Conduit

open Act (Keeps)

namespace World

/-- Endpoints, streams, pipes, channels and files are as they were. -/
structure Dry (w w' : World) : Prop where
  endpoints : w'.endpoints = w.endpoints
  streams : w'.streams = w.streams
  pipes : w'.pipes = w.pipes
  channels : w'.channels = w.channels
  files : w'.files = w.files

namespace Dry

protected theorem refl (w : World) : Dry w w := ⟨rfl, rfl, rfl, rfl, rfl⟩

protected theorem trans {w w' w'' : World} (h : Dry w w') (h' : Dry w' w'') : Dry w w'' where
  endpoints := h'.endpoints.trans h.endpoints
  streams := h'.streams.trans h.streams
  pipes := h'.pipes.trans h.pipes
  channels := h'.channels.trans h.channels
  files := h'.files.trans h.files

instance : Std.Refl Dry := ⟨Dry.refl⟩

instance : IsTrans World Dry := ⟨fun _ _ _ ↦ Dry.trans⟩

end Dry

end World

open World (Dry)

/-! ## Places -/

namespace Act

theorem dry_setEnv (name value : Bytes) : Keeps Dry (setEnv name value) := by
  intro w
  unfold setEnv
  split <;> exact ⟨rfl, rfl, rfl, rfl, rfl⟩

theorem dry_writePlain (id : VariableId) (kept : Option Kind) (v : Value) :
    Keeps Dry (writePlain id kept v) := by
  unfold writePlain
  refine .bind (.orHalt _ _) fun kind ↦ ?_
  split
  · exact .modify fun w ↦ ⟨rfl, rfl, rfl, rfl, rfl⟩
  · split
    · exact .modify fun w ↦ ⟨rfl, rfl, rfl, rfl, rfl⟩
    · exact .raise _

theorem dry_writePlace (place : Place) (v : Value) : Keeps Dry (writePlace place v) := by
  unfold writePlace
  refine .bind .world fun w ↦ ?_
  split
  · exact dry_writePlain _ _ v
  · exact .pure _
  · exact .raise _
  · exact .bind (.ofExcept _) fun value ↦ dry_setEnv _ value
  · exact .bind (.ofExcept _) fun value ↦ .modify fun w ↦ ⟨rfl, rfl, rfl, rfl, rfl⟩
  · exact .bind (.orHalt _ _) fun _ ↦ .bind (.ofExcept _) fun value ↦ dry_setEnv _ value

theorem dry_writePlaces (places : List Place) (values : List Value) :
    Keeps Dry (writePlaces places values) := by
  induction places generalizing values with
  | nil => exact .pure _
  | cons place places ih =>
    cases values with
    | nil => exact .pure _
    | cons v values => exact .bind (dry_writePlace place v) fun _ ↦ ih values

theorem dry_distribute (fixed rest : List Place) (values : List Value) :
    Keeps Dry (distribute fixed rest values) := by
  unfold distribute
  split
  · split
    · exact .raise _
    · exact dry_writePlaces _ _
  · split
    · exact .raise _
    · exact .bind (dry_writePlaces _ _) fun _ ↦ dry_writePlace _ _
  · exact .raise _

end Act

/-! ## Builtins, calls and modules -/

namespace Eval

theorem dry_wordsOf (values : List Value) : Keeps Dry (wordsOf values) := by
  induction values with
  | nil => exact .pure _
  | cons v rest ih => exact .bind (.orHalt _ _) fun _ ↦ .bind ih fun _ ↦ .pure _

theorem dry_cdTarget (arguments : List Value) : Keeps Dry (cdTarget arguments) := by
  cases arguments with
  | nil => exact .bind .world fun _ ↦ .pure _
  | cons v rest => exact .ofExcept _

theorem dry_cd (arguments : List Value) : Keeps Dry (cd arguments) := by
  unfold cd
  split
  · exact .raise _
  · refine .bind (dry_cdTarget arguments) fun target ↦ .bind .world fun w ↦ ?_
    split
    · exact .fail _
    · exact .bind (.modify fun w ↦ ⟨rfl, rfl, rfl, rfl, rfl⟩) fun _ ↦
        .bind (Act.dry_setEnv _ _) fun _ ↦ Act.dry_setEnv _ _

theorem dry_setInterrupt : Keeps Dry setInterrupt := .modify fun _ ↦ ⟨rfl, rfl, rfl, rfl, rfl⟩

theorem dry_forwardSignals (w : World) : Dry w (forwardSignals w) := by
  unfold forwardSignals
  split
  · exact .refl w
  · split
    · exact .refl w
    · dsimp only
      split <;> exact ⟨rfl, rfl, rfl, rfl, rfl⟩

theorem dry_signalStub : Keeps Dry signalStub := by
  intro w
  unfold signalStub
  rcases hstub : w.stub with _ | stub
  · have hdry := dry_forwardSignals w
    simp only [Option.map_some]
    split <;> exact hdry
  · rcases hsend : stub.signals.send? interruptSignal with _ | ⟨signals, accepted⟩
    · simp only [hsend, Option.map_none]
      exact .refl w
    · have hsent : Dry w { w with stub := some { stub with signals } } := ⟨rfl, rfl, rfl, rfl, rfl⟩
      have hdry := hsent.trans (dry_forwardSignals _)
      simp only [hsend, Option.map_some]
      split <;> exact hdry

theorem dry_bindParameters (scope : ScopeId) (names : List Bytes) (values : List Value) :
    Keeps Dry (bindParameters scope names values) := by
  induction names generalizing values with
  | nil => exact .pure _
  | cons name names ih =>
    cases values with
    | nil => exact .pure _
    | cons v values =>
      exact .bind (.orHalt _ _) fun kind ↦
        .bind (.modify fun w ↦ ⟨rfl, rfl, rfl, rfl, rfl⟩) fun _ ↦ ih values

theorem dry_parseModule (setup : Setup) (name file : Bytes) :
    Keeps Dry (parseModule setup name file) := by
  unfold parseModule
  refine .bind .world fun w ↦ ?_
  split
  · exact .raise _
  · exact .raise _
  · refine .bind (fun w ↦ ⟨rfl, rfl, rfl, rfl, rfl⟩) fun result ↦ ?_
    split
    · exact .pure _
    · exact .raise _

end Eval

end Conduit
