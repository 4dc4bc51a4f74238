import Conduit.Eval.External
import Conduit.Proofs.Calm.Places

/-!
# Calm External Commands

An external command reads and writes the streams that it is given.  It holds none of them any longer
than it runs, and no closure reaches it.
-/

namespace Conduit.Eval

open World (Calm)
open Act (Keeps)
open Host.Program (Process Command)

variable {given : Closure → Prop}

theorem calm_writeLost (stream : Option StreamId) (bytes : Bytes) (w : World) :
    Calm given w (writeLost stream bytes w) := by
  unfold writeLost
  split
  · rename_i id
    rcases hwrite : w.write id bytes with _ | w'
    · exact .refl w
    · exact .write hwrite
  · exact .refl w

theorem calm_abandon (streams : StandardStreams) (p : Process) (c : Command) (what : Bytes)
    (w : World) : Calm given w (abandon streams p c what w).2 :=
  calm_writeLost _ _ w

theorem calm_mishap (streams : StandardStreams) (p : Process) (c : Command) (status : Nat)
    (what : Bytes) (w : World) : Calm given w (mishap streams p c status what w).2 :=
  calm_writeLost _ _ w

theorem calm_signalSelf (streams : StandardStreams) (p : Process) (c : Command) (option : Bytes)
    (w : World) : Calm given w (signalSelf streams p c option w).2 := by
  unfold signalSelf
  split
  · exact calm_mishap _ _ _ _ _ w
  · split
    · split <;> exact .refl w
    · exact calm_mishap _ _ _ _ _ w

theorem calm_readVariable (streams : StandardStreams) (p : Process) (name : Bytes) (w : World) :
    Calm given w (readVariable streams p name w).2 := by
  unfold readVariable
  rcases streams.input with _ | id
  · exact .refl w
  · exact .skip w id _

theorem calm_shiftArguments (streams : StandardStreams) (p : Process) (c : Command)
    (arguments : List Bytes) (w : World) :
    Calm given w (shiftArguments streams p c arguments w).2 := by
  unfold shiftArguments
  dsimp only
  split
  · exact calm_abandon _ _ _ _ w
  · split
    · exact calm_abandon _ _ _ _ w
    · exact .refl w

theorem calm_runCommand (streams : StandardStreams) (p : Process) (c : Command) (w : World) :
    Calm given w (runCommand streams p c w).2 := by
  unfold runCommand
  dsimp only
  split
  · exact .refl w
  · split
    · exact calm_writeLost _ _ w
    · split
      · exact calm_writeLost _ _ w
      · split
        · split
          · exact .refl w
          · split
            · exact .refl w
            · exact calm_abandon _ _ _ _ w
        · split
          · exact calm_signalSelf _ _ _ _ w
          · split
            · exact calm_readVariable _ _ _ w
            · split
              · exact .refl w
              · split
                · exact calm_shiftArguments _ _ _ _ w
                · exact calm_mishap _ _ _ _ _ w

theorem calm_runCommands (streams : StandardStreams) (progress : Progress)
    (commands : List Command) (w : World) :
    Calm given w (runCommands streams progress commands w).2 := by
  induction commands generalizing progress w with
  | nil => exact .refl w
  | cons c rest ih =>
    unfold runCommands
    split
    · exact .refl w
    · exact (calm_runCommand _ _ _ w).trans (ih _ _)

theorem calm_runProgram (streams : StandardStreams) (path : Bytes) (arguments : List Bytes)
    (w : World) : Calm given w (runProgram streams path arguments w).2 := by
  unfold runProgram
  dsimp only
  split
  · exact calm_writeLost _ _ w
  · exact calm_runCommands _ _ _ w

theorem calm_callExternal (ctx : Context) (name : Bytes) (arguments : List Value) :
    Keeps (Calm given) (callExternal ctx name arguments) := by
  refine .bind .world fun w ↦ ?_
  split
  · exact .raise _
  · refine .bind (.ofExcept _) fun texts ↦ .bind (.change fun w ↦ calm_runProgram _ _ _ w) fun _ ↦ ?_
    split
    · exact .pure _
    · exact .raise _

end Conduit.Eval
