import Conduit.Proofs.Bindings.Evaluation
import Conduit.Proofs.Compiled
import Conduit.Shell

/-!
# Bindings of a Whole Evaluation

An evaluation adds names to the global scope only, and only those that assignments of the chunk
itself have brought there.  Every other scope that exists, be it that of the builtins, of a module
or a snapshot that a closure holds, is the same afterwards.  The one exception is a host that has
registered the global scope itself as a module.
-/

namespace Conduit.Shell

open Eval (run Runner)
open World (Binds)

/-- The assignments of a chunk belong to the global scope. -/
def ownAssignments (chunk : Script.Chunk) : World.Assignments :=
  fun id span targets ↦ id = World.globals ∧ chunk.Assigns span targets

/-- An evaluated chunk binds names by its own assignments, in a scope that may not matter to it. -/
theorem binds_code (setup : Setup) (fuel : Nat) {scope builtins : List Bytes} {chunk : Script.Chunk}
    {code : Code.Block} (h : Code.ofScript scope builtins chunk = .ok code) (ctx : Context)
    (hctx : ctx.scope = World.globals) (span : Span) :
    Act.Keeps (Binds (ownAssignments chunk))
      (Act.within span (Act.attempt (Eval.evalBlock (run setup fuel) ctx code))) := by
  refine .within Mobile.move (.attempt ?_)
  refine Eval.binds_evalBlock (Eval.binds_run setup fuel) ctx code ?_
  intro forms hforms span values targets hmem
  exact ⟨hctx, Code.assigns_of_mem h hforms hmem⟩

/-- From one state to a later one, names have been added to the global scope only, each by an
assignment of the chunk itself that the journal notes as having succeeded.  Names of the global scope
are bound as before, and every other scope and the list of modules have what they had. -/
structure GainsOnly (chunk : Script.Chunk) (w w' : World) : Prop where
  modules : ∀ name id, w.module? name = some id → w'.module? name = some id
  others : ∀ id scope, id ≠ World.globals → w.scopes.get? id = some scope →
    w'.scopes.get? id = some scope
  globals : ∀ name x, (w.scope World.globals).lookup name = some x →
    (w'.scope World.globals).lookup name = some x
  gained : ∃ events, w'.journal = w.journal ++ events ∧
    ∀ name, (w.scope World.globals).lookup name = none →
      (w'.scope World.globals).lookup name ≠ none →
        ∃ span targets, chunk.Assigns span targets ∧
          .assigned World.globals span targets ∈ events ∧ name ∈ Code.newNames targets

theorem GainsOnly.refl (chunk : Script.Chunk) (w : World) : GainsOnly chunk w w :=
  ⟨fun _ _ h ↦ h, fun _ _ _ h ↦ h, fun _ _ h ↦ h, [], by simp, fun _ h h' ↦ absurd h h'⟩

/-- A new empty scope does not matter, even when it is the global one. -/
theorem gainsOnly_of_binds {chunk : Script.Chunk} {w w' : World}
    (h : Binds (ownAssignments chunk) (w.newScope {}).2 w') : GainsOnly chunk w w' := by
  have hglobals : ∀ name, ((w.newScope {}).2.scope World.globals).lookup name =
      (w.scope World.globals).lookup name := by
    intro name
    rw [World.scope_newScope_empty]
  have hsize : World.globals < (w.newScope {}).2.scopes.size := by
    simp [World.newScope, World.globals]
  obtain ⟨events, hevents, hadded⟩ := h.added
  refine ⟨h.modules, fun id scope hid hscope ↦ ?_, fun name x hx ↦ ?_, events, hevents,
    fun name hnone hsome ↦ ?_⟩
  · refine h.same id scope (fun span targets hown ↦ hid hown.1) ?_
    exact (Table.get?_push_of_lt (Table.lt_size_of_get? hscope)).trans hscope
  · exact h.kept World.globals name x ((hglobals name).trans hx)
  · obtain ⟨span, targets, hown, hevent, hname⟩ :=
      hadded World.globals name hsize ((hglobals name).trans hnone) hsome
    exact ⟨span, targets, hown.2, hevent, hname⟩

/-- However an evaluation ends, it only adds bindings, and only to the global scope.  A closure call
at any depth adds none to any scope that exists when it starts. -/
theorem eval_gainsOnly (setup : Setup) (fuel : Nat) (name text : Bytes) (chunk : Script.Chunk)
    (endpoints : List (Option EndpointId)) (w : World) :
    GainsOnly chunk w (eval setup fuel name text chunk endpoints w).2 ∧
      ∀ depth ctx c arguments v id scope, v.scopes.get? id = some scope →
        (run setup depth (.call ctx (.closure c) arguments) v).2.scopes.get? id = some scope := by
  constructor
  · rcases hcompile : compile w chunk with e | code
    · rw [eval, Act.world_bind, hcompile]
      exact .refl chunk w
    · rw [eval, Act.world_bind, hcompile]
      exact gainsOnly_of_binds (binds_code setup fuel hcompile _ rfl _ _)
  · intro depth ctx c arguments v id scope hscope
    exact ((Eval.binds_run setup depth).call ctx (.closure c) arguments v).same id scope
      (fun _ _ ↦ not_false) hscope

/-- A host that has registered the global scope as a module finds what a chunk assigns among the
names of that module. -/
theorem module_of_globals_gains :
    ¬∀ (setup : Setup) (fuel : Nat) (name text : Bytes) (chunk : Script.Chunk)
      (endpoints : List (Option EndpointId)) (w : World) (module : Bytes) (id : ScopeId),
      w.module? module = some id → ∀ bound,
        ((eval setup fuel name text chunk endpoints w).2.scope id).lookup bound ≠ none →
          (w.scope id).lookup bound ≠ none := by
  intro h
  let w : World := { start {} with modules := [([0x67], World.globals)] }
  let span : Span := ⟨0, 3⟩
  let chunk : Script.Chunk :=
    .mk span [.mk span [.mk span [.variable span [0x78]] default [.bareword span [0x31]] []]]
  refine h {} 1 [] [] chunk [] w [0x67] World.globals rfl [0x78] ?_ ?_
  · decide +kernel
  · decide +kernel

end Conduit.Shell
