import Conduit.Proofs.Bindings

/-!
# Relations that Admit New Bindings

A tolerant relation that also admits binding names does not look at scopes in a way that evaluation
could disturb.  Nothing is left to such a relation of its own: if the span under evaluation may move,
every form, call and load keeps it, and so does a whole evaluation.
-/

namespace Conduit

open World (Calm)

/-- A tolerant relation that admits binding names. -/
class Liberal (R : World → World → Prop) : Prop extends Tolerant R where
  define : ∀ (w : World) (scope : ScopeId) (name : Bytes) (id : VariableId),
    R w (w.define scope name id)

namespace Eval

variable {R : World → World → Prop} [Liberal R] {go : Runner}

/-! ## Binding -/

theorem keeps_bindCreated (scope : ScopeId) (destinations : List Destination) :
    Act.Keeps R (Act.modify (bindCreated scope destinations)) := by
  refine .modify fun w ↦ ?_
  unfold bindCreated
  generalize destinations.filterMap (·.created) = entries
  induction entries generalizing w with
  | nil => exact refl_of R w
  | cons entry rest ih => exact trans_of R (Liberal.define w _ _ _) (ih _)

theorem keeps_bindParameters (scope : ScopeId) (names : List Bytes) (values : List Value) :
    Act.Keeps R (bindParameters scope names values) := by
  induction names generalizing values with
  | nil => exact .pure _
  | cons name names ih =>
    cases values with
    | nil => exact .pure _
    | cons v values =>
      refine .bind (.orHalt _ _) fun kind ↦ .bind (.modify fun w ↦ ?_) fun _ ↦ ih values
      have hnew : Calm (fun _ ↦ True) w (w.newVariable (.plain (some kind) v)).2 :=
        .newVariable w (by simp)
      exact trans_of R (Persistent.calm hnew) (Liberal.define _ _ _ _)

/-! ## Forms, calls and loads -/

variable [Mobile R]

theorem keeps_evalForm (hgo : Runner.Keeps R go) (ctx : Context) (form : Code.Form) :
    Act.Keeps R (evalForm go ctx form) := by
  cases form with
  | command span head arguments redirections =>
    exact keeps_command hgo ctx span head arguments redirections
  | assignment span values targets =>
    unfold evalForm
    refine (keeps_beginForm span).bind fun _ ↦ ?_
    refine (keeps_evalExprs (hgo.inContext ctx) values).bind fun values ↦ ?_
    refine (keeps_findTargets (hgo.inContext ctx) targets).bind fun destinations ↦ ?_
    refine (keeps_distribute _ _ values).bind fun _ ↦ ?_
    refine (keeps_bindCreated ctx.scope destinations).bind fun _ ↦ ?_
    exact keeps_note rfl

theorem keeps_evalBlock (hgo : Runner.Keeps R go) (ctx : Context) (block : Code.Block) :
    Act.Keeps R (evalBlock go ctx block) :=
  keeps_evalPipelines fun _ _ ↦ keeps_evalPipeline fun form _ ctx' _ ↦ keeps_evalForm hgo ctx' form

theorem keeps_callClosure (hgo : Runner.Keeps R go) (ctx : Context) (c : Closure)
    (arguments : List Value) : Act.Keeps R (callClosure go ctx c arguments) := by
  unfold callClosure
  split
  · exact .raise _
  · refine .bind (keeps_newScope {}) fun scope ↦ .bind (keeps_bindParameters _ _ _) fun _ ↦
      .bind (keeps_handles (.change fun w ↦ .forkEndpoints w _)) fun endpoints ↦
      .ensuring (keeps_within _ (keeps_evalBlock hgo _ _)) fun w ↦ ?_
    exact Tolerant.handles (Context.handles_finish _ w)

theorem keeps_runModule (hgo : Runner.Keeps R go) (ctx : Context) (name file text : Bytes)
    (chunk : Script.Chunk) (code : Code.Block) :
    Act.Keeps R (runModule go ctx name file text chunk code) := by
  unfold runModule
  refine .bind (keeps_newScope {}) fun scope ↦ .bind (keeps_newScope {}) fun outer ↦
    .bind (keeps_handles (.change fun w ↦ .forkEndpoints w _)) fun endpoints ↦
    .bind (.ensuring (keeps_within _ (.attempt (keeps_evalBlock hgo _ _))) fun w ↦ ?_)
      fun error ↦ ?_
  · exact Tolerant.handles (Context.handles_drop _ w)
  · split
    · exact .pure _
    · exact .raise _

/-- Every request keeps the relation. -/
theorem keeps_requests (setup : Setup) (fuel : Nat) : Runner.Keeps R (run setup fuel) :=
  keeps_run (fun _ hgo ↦ keeps_captureOutput hgo) (fun _ hgo ↦ keeps_callClosure hgo)
    (fun _ hgo ↦ keeps_runModule hgo) setup fuel

end Eval

namespace Shell

variable {R : World → World → Prop} [Liberal R] [Mobile R]

theorem keeps_eval (setup : Setup) (fuel : Nat) (name text : Bytes) (chunk : Script.Chunk)
    (endpoints : List (Option EndpointId)) :
    Act.Keeps R (eval setup fuel name text chunk endpoints) :=
  keeps_eval_of_block (Eval.keeps_evalBlock (Eval.keeps_requests setup fuel)) name text chunk
    endpoints

theorem keeps_use (setup : Setup) (fuel : Nat) (ctx : Context) (name : Bytes) :
    Act.Keeps R (Eval.use (Eval.run setup fuel) ctx name) :=
  Eval.keeps_use ((Eval.keeps_requests setup fuel).inContext ctx) name

end Shell

end Conduit
