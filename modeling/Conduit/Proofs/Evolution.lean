import Conduit.Proofs.Scoping.Shell

/-!
# Histories of a Shell

A shell develops by evaluations of chunks, by uses of modules, and by what its host does to it from
outside, in any order.  What the host may do and which setups and chunks it may pass are conditions of
their own.  A preorder on states that each of these steps keeps is kept by every history, and
interactive lines are histories if the host may handle endpoints.
-/

namespace Conduit.Shell

open Eval (run)
open World (Handles)

/-- What may happen to a shell: what the host does to it, how it is set up, and the texts and chunks
that it is given. -/
structure Regime where
  host : World → World → Prop
  setup : Setup → Prop := fun _ ↦ True
  chunk : Bytes → Script.Chunk → Prop := fun _ _ ↦ True

/-- One state of a shell develops into another one. -/
inductive Evolves (regime : Regime) : World → World → Prop
  | refl (w : World) : Evolves regime w w
  | host {w w' w'' : World} : Evolves regime w w' → regime.host w' w'' → Evolves regime w w''
  | eval {w w' : World} {setup : Setup} (fuel : Nat) (name : Bytes) {text : Bytes}
      {chunk : Script.Chunk} (endpoints : List (Option EndpointId)) :
      Evolves regime w w' → regime.setup setup → regime.chunk text chunk →
        Evolves regime w (eval setup fuel name text chunk endpoints w').2
  | use {w w' : World} {setup : Setup} (fuel : Nat) (ctx : Context) (name : Bytes) :
      Evolves regime w w' → regime.setup setup →
        Evolves regime w (Eval.use (run setup fuel) ctx name w').2

namespace Evolves

variable {regime : Regime} {R : World → World → Prop} {w w' w'' : World}

theorem trans (h : Evolves regime w w') (h' : Evolves regime w' w'') : Evolves regime w w'' := by
  induction h' with
  | refl => exact h
  | host _ hstep ih => exact ih.host hstep
  | eval fuel name endpoints _ hsetup hchunk ih => exact ih.eval fuel name endpoints hsetup hchunk
  | use fuel ctx name _ hsetup ih => exact ih.use fuel ctx name hsetup

/-- A history keeps what each of its steps keeps. -/
theorem keeps [Std.Refl R] [IsTrans World R] (h : Evolves regime w w')
    (hhost : ∀ w w', regime.host w w' → R w w')
    (heval : ∀ setup fuel name text chunk endpoints,
      (Shell.eval setup fuel name text chunk endpoints).Keeps R)
    (huse : ∀ setup fuel ctx name, (Eval.use (run setup fuel) ctx name).Keeps R) : R w w' := by
  induction h with
  | refl => exact refl_of R w
  | host _ hstep ih => exact trans_of R ih (hhost _ _ hstep)
  | eval fuel name endpoints _ _ _ ih =>
    exact trans_of R ih (heval _ fuel name _ _ endpoints _)
  | use fuel ctx name _ _ ih => exact trans_of R ih (huse _ fuel ctx name _)

/-- An interactive line is an evaluation between two changes from outside. -/
theorem evalInteractive (hhost : ∀ w w', Handles w w' → regime.host w w')
    (h : Evolves regime w w') {setup : Setup} (hsetup : regime.setup setup) (fuel : Nat)
    {text : Bytes} {chunk : Script.Chunk} (hchunk : regime.chunk text chunk) :
    Evolves regime w (Shell.evalInteractive setup fuel text chunk w').2 := by
  obtain ⟨ready, endpoints, hready, hend⟩ := handles_evalInteractive setup fuel text chunk w'
  have hevaluated := (h.host (hhost _ _ hready)).eval fuel interactiveName endpoints hsetup hchunk
  exact hevaluated.host (hhost _ _ hend)

end Evolves

end Conduit.Shell
