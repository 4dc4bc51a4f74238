import Conduit.Eval.Run
import Conduit.Proofs.Calm.Builtins
import Conduit.Proofs.Calm.External
import Conduit.Proofs.Dry
import Conduit.Shell

/-!
# Relations that Evaluation Keeps

What evaluation keeps is shown along its recursion: from what the runner keeps follows what each
step keeps that hands requests over to it.  A relation is enduring if it is reflexive and transitive
and admits calm changes that are dry, notes, new scopes, and the load of a module that was not
registered at the start, whether or not it comes to be registered.  Whether the span under evaluation
may move is a matter of its own.
For an enduring relation every step that neither binds names nor handles endpoints is settled here once,
provided that the endpoints of the context may be used.  A persistent relation admits all calm
changes, so that of the uses only taking values off the input channel is in question.  What is left
to a relation of its own are forms, pipelines, captures, closure bodies and module bodies.
-/

namespace Conduit

open World (Calm Dry Takes)
open Act (Keeps)

/-- A preorder on states that admits what evaluation does besides binding names and using and
handling endpoints.  The load of a module is admitted as a whole, from the note that it begins to
the note that it has ended. -/
class Enduring (R : World → World → Prop) : Prop extends Std.Refl R, IsTrans World R where
  data : ∀ {w w' : World}, Calm (fun _ ↦ True) w w' → Dry w w' → R w w'
  note : ∀ (event : Event) (w : World), event.isLoad = false → R w (w.note event)
  newScope : ∀ (scope : Scope) (w : World), R w (w.newScope scope).2
  failedLoad : ∀ {w w' : World} (name : Bytes), w.module? name = none →
    R (w.note (.loadBegan name)) w' → R w (w'.note (.loadEnded name))
  load : ∀ {w w' : World} (name : Bytes) (id : ScopeId), w.module? name = none →
    R (w.note (.loadBegan name)) w' → R w ((Eval.register name id w').note (.loadEnded name))

/-- A relation that admits moves of the span under evaluation. -/
class Mobile (R : World → World → Prop) : Prop where
  move : ∀ (w : World) (span : Span), R w { w with here := span }

/-- A relation that holds around an action with a span under evaluation of its own if it holds of
the action. -/
class Nesting (R : World → World → Prop) : Prop where
  within : ∀ {w w' : World} (span : Span), R { w with here := span } w' →
    R w { w' with here := w.here }

instance {R : World → World → Prop} [IsTrans World R] [Mobile R] : Nesting R where
  within span h := trans_of R (trans_of R (Mobile.move _ span) h) (Mobile.move _ _)

/-- A relation that admits what evaluation does besides binding names, taking values off channels
and handling endpoints. -/
class Persistent (R : World → World → Prop) : Prop extends Enduring R where
  calm : ∀ {w w' : World}, Calm (fun _ ↦ True) w w' → R w w'
  data h _ := calm h

/-- A persistent relation that admits taking values off channels as well. -/
class Receptive (R : World → World → Prop) : Prop extends Persistent R where
  take : ∀ {w w' : World} (id : ChannelId), Takes id w w' → R w w'

namespace Eval

variable {R : World → World → Prop} {go : Runner} {setup : Setup} {ctx : Context}

/-- In a context a runner keeps a relation if every call does and every load of a module that is not
registered yet. -/
structure Runner.KeepsIn (R : World → World → Prop) (go : Runner) (ctx : Context) : Prop where
  call : ∀ f arguments, Act.Keeps R (go (.call ctx f arguments))
  load : ∀ name w, w.module? name = none → R w (go (.load ctx name) w).2

/-- A runner keeps a relation if it does so in every context. -/
structure Runner.Keeps (R : World → World → Prop) (go : Runner) : Prop where
  call : ∀ ctx f arguments, Act.Keeps R (go (.call ctx f arguments))
  load : ∀ ctx name w, w.module? name = none → R w (go (.load ctx name) w).2

theorem Runner.Keeps.inContext (h : Runner.Keeps R go) (ctx : Context) : Runner.KeepsIn R go ctx :=
  ⟨h.call ctx, h.load ctx⟩

/-! ## Unqualified and local names -/

theorem resolve_local (go : Runner) (ctx : Context) (name : Bytes) (w : World) :
    resolve go ctx (utf8 "local") name w =
      (.done (((w.scope ctx.scope).lookup name).map .bound), w) := rfl

theorem resolve_plain (go : Runner) (ctx : Context) (name : Bytes) (w : World) :
    resolve go ctx [] name w = (.done ((findPlain ctx name w).map .bound), w) := rfl

theorem qualifier_of_isLocal {r : Reference} (h : r.isLocal) :
    r.qualifier = [] ∨ r.qualifier = utf8 "local" := by
  simpa [Reference.isLocal] using h

section Enduring

variable [Enduring R]

theorem keeps_data {α : Type} {act : Act α} (h : Act.Keeps (Calm fun _ ↦ True) act)
    (hdry : Act.Keeps Dry act) : Act.Keeps R act :=
  fun w ↦ Enduring.data (h w) (hdry w)

theorem keeps_note {event : Event} (h : event.isLoad = false) :
    Act.Keeps R (Act.modify (World.note event)) :=
  .modify fun w ↦ Enduring.note event w h

theorem keeps_newScope (scope : Scope) : Act.Keeps R (Act.change fun w ↦ w.newScope scope) :=
  .change (Enduring.newScope scope)

theorem keeps_beginForm [Mobile R] (span : Span) : Act.Keeps R (beginForm span) :=
  .modify fun w ↦ trans_of R (Mobile.move w span) (Enduring.note _ _ rfl)

omit [Enduring R] in
theorem keeps_within {α : Type} [Nesting R] (span : Span) {act : Act α} (h : Act.Keeps R act) :
    Act.Keeps R (act.within span) :=
  fun _ ↦ Nesting.within span (h _)

omit [Enduring R] in
theorem keeps_apart {α : Type} [Nesting R] {act : Act α} (h : Act.Keeps R act) :
    Act.Keeps R act.apart :=
  fun w ↦ keeps_within w.here h w

theorem keeps_soleFunction (values : List Value) : Act.Keeps R (soleFunction values) := by
  unfold soleFunction
  split
  · exact .pure _
  · exact .halt _
  · exact .fail _

/-! ## References and expressions -/

theorem keeps_use (hgo : Runner.KeepsIn R go ctx) (name : Bytes) :
    Act.Keeps R (use go ctx name) := by
  unfold use
  refine Act.Keeps.worldBind fun w ↦ ?_
  split
  · rename_i hname
    exact hgo.load name w (Option.isNone_iff_eq_none.mp hname)
  · exact refl_of R w

theorem keeps_resolve (hgo : Runner.KeepsIn R go ctx) (qualifier name : Bytes) :
    Act.Keeps R (resolve go ctx qualifier name) := by
  unfold resolve
  refine .bind .world fun w ↦ ?_
  iterate 5
    split
    · exact .pure _
  split
  · split
    · exact .pure _
    · exact .raise _
  · exact .bind (keeps_use hgo qualifier) fun _ ↦ .bind .world fun _ ↦ .pure _

theorem keeps_readPlace (place : Place) : Act.Keeps R (Act.readPlace place) :=
  fun w ↦ Act.Keeps.ofExcept ((w.variableAt place).read w) w

theorem keeps_evalVariable (hgo : Runner.KeepsIn R go ctx) (span : Span) (splice : Bool)
    (r : Reference) : Act.Keeps R (evalVariable go ctx span splice r) := by
  unfold evalVariable
  refine .bind (keeps_resolve hgo _ _) fun place ↦ ?_
  split
  · exact .bind (keeps_note rfl) fun _ ↦ .raise _
  · refine .bind (keeps_readPlace _) fun value ↦ ?_
    split
    · split
      · exact .pure _
      · exact .halt _
      · exact .raise _
    · exact .pure _

theorem keeps_makeClosure (ctx : Context) (parameters : List Bytes) (body : Code.Block) :
    Act.Keeps R (makeClosure ctx parameters body) :=
  .change fun w ↦ Enduring.newScope _ w

mutual

theorem keeps_evalExpr (hgo : Runner.KeepsIn R go ctx) :
    ∀ e : Code.Expr, Act.Keeps R (evalExpr go ctx e)
  | .text text => by
    unfold evalExpr
    exact .pure _
  | .variable span splice r => by
    unfold evalExpr
    exact keeps_evalVariable hgo span splice r
  | .list items => by
    unfold evalExpr
    exact .bind (keeps_evalExprs hgo items) fun _ ↦ .pure _
  | .lambda parameters body => by
    unfold evalExpr
    exact .bind (keeps_makeClosure ctx parameters body) fun _ ↦ .pure _

theorem keeps_evalExprs (hgo : Runner.KeepsIn R go ctx) :
    ∀ es : List Code.Expr, Act.Keeps R (evalExprs go ctx es)
  | [] => by
    unfold evalExprs
    exact .pure _
  | e :: rest => by
    unfold evalExprs
    exact .bind (keeps_evalExpr hgo e) fun _ ↦
      .bind (keeps_evalExprs hgo rest) fun _ ↦ .pure _

end

theorem keeps_evalHead (hgo : Runner.KeepsIn R go ctx) (head : Code.Head) :
    Act.Keeps R (evalHead go ctx head) := by
  cases head with
  | named r =>
    refine .bind (keeps_resolve hgo _ _) fun place ↦ ?_
    split
    · exact .bind (keeps_readPlace _) fun _ ↦ .pure _
    · split
      · exact .pure _
      · exact .fail _
  | computed e => exact keeps_evalExpr hgo e

/-! ## Redirections and assignments -/

theorem calm_openFile {given : Closure → Prop} (mode : Host.OpenMode) (path : Bytes) :
    Act.Keeps (Calm given) (openFile mode path) := by
  intro w
  unfold openFile
  split
  · exact (Calm.other w _ _ _ _ _ _ _).trans (.newStream _ _ _)
  · exact .refl w

theorem calm_redirectionPath {given : Closure → Prop} (span : Span) (values : List Value) :
    Act.Keeps (Calm given) (redirectionPath span values) := by
  unfold redirectionPath
  split
  · exact .ofExcept _
  · exact .raise _

theorem keeps_findTarget (hgo : Runner.KeepsIn R go ctx) (t : Target) :
    Act.Keeps R (findTarget go ctx t) := by
  unfold findTarget
  refine .bind (keeps_resolve hgo _ _) fun place ↦ ?_
  split
  · exact .pure _
  · split
    · exact .bind
        (.change fun w ↦ Enduring.data (.newVariable w (by simp)) ⟨rfl, rfl, rfl, rfl, rfl⟩)
        fun _ ↦ .pure _
    · exact .raise _

theorem keeps_findTargets (hgo : Runner.KeepsIn R go ctx) (targets : List Target) :
    Act.Keeps R (findTargets go ctx targets) := by
  induction targets with
  | nil => exact .pure _
  | cons t rest ih =>
    exact .bind (keeps_findTarget hgo t) fun _ ↦ .bind ih fun _ ↦ .pure _

theorem keeps_distribute (fixed rest : List Place) (values : List Value) :
    Act.Keeps R (Act.distribute fixed rest values) :=
  keeps_data (Act.calm_distribute fixed rest values (by simp))
    (Act.dry_distribute fixed rest values)

/-! ## Builtins -/

/-- What is done with the input channel of the context keeps the relation if receiving from the
channel is all that it takes. -/
def TakesInput (R : World → World → Prop) (ctx : Context) : Prop :=
  ∀ next : ChannelId → Act Unit,
    (∀ channel, Act.Keeps R (receiveFrom channel) → Act.Keeps R (next channel)) →
      Act.Keeps R (inputChannel ctx >>= next)

/-- What is done with the endpoints of the context, short of handing them on, keeps the relation. -/
structure UsesEndpoints (R : World → World → Prop) (ctx : Context) : Prop where
  input : TakesInput R ctx
  putValue : ∀ v, Act.Keeps R (putValue ctx v)
  put : ∀ arguments, Act.Keeps R (put ctx arguments)
  echo : ∀ arguments, Act.Keeps R (echo ctx arguments)
  slurp : Act.Keeps R (slurp ctx)
  external : ∀ name arguments, Act.Keeps R (callExternal ctx name arguments)

theorem keeps_receiveFrom {channel : ChannelId} (htake : ∀ w w', Takes channel w w' → R w w') :
    Act.Keeps R (receiveFrom channel) := by
  intro w
  have hreceive : (receiveFrom channel).Leads w (fun _ ↦ R w) (R w) := by
    refine (receiveFrom_stored channel w).mono (fun _ w' h ↦ htake w w' h.1) fun w' h ↦ ?_
    rw [h]
    exact refl_of R w
  exact hreceive.state

theorem keeps_takeEach {channel : ChannelId} (hreceive : Act.Keeps R (receiveFrom channel))
    {step : Value → Act Unit} (hstep : ∀ v, Act.Keeps R (step v)) (n : Nat) :
    Act.Keeps R (takeEach channel step n) := by
  induction n with
  | zero => exact .pure _
  | succ n ih =>
    refine .bind hreceive fun v ↦ ?_
    split
    · exact .bind (hstep _) fun _ ↦ ih
    · exact .pure _

theorem keeps_consume {channel : ChannelId} (hreceive : Act.Keeps R (receiveFrom channel))
    {step : Value → Act Unit} {again : Act Unit} (hstep : ∀ v, Act.Keeps R (step v))
    (hagain : Act.Keeps R again) : Act.Keeps R (consume channel step again) := by
  unfold consume
  refine .bind .world fun w ↦ .bind (keeps_takeEach hreceive hstep _) fun _ ↦
    .bind .world fun w ↦ ?_
  split
  · exact .bind hreceive fun _ ↦ .pure _
  · exact hagain

theorem keeps_collect (hgo : Runner.KeepsIn R go ctx) (huses : UsesEndpoints R ctx)
    (arguments : List Value) : Act.Keeps R (collect go ctx arguments) :=
  huses.input _ fun _ hreceive ↦ keeps_consume hreceive huses.putValue (hgo.call _ _)

theorem keeps_countQueued {channel : ChannelId} (hreceive : Act.Keeps R (receiveFrom channel))
    (n : Nat) : Act.Keeps R (countQueued channel n) := by
  induction n with
  | zero => exact .bind hreceive fun _ ↦ .pure _
  | succ n ih =>
    refine .bind hreceive fun v ↦ ?_
    split
    · exact .bind ih fun _ ↦ .pure _
    · exact .pure _

theorem keeps_count (huses : UsesEndpoints R ctx) : Act.Keeps R (count ctx) :=
  huses.input _ fun _ hreceive ↦ .bind .world fun _ ↦
    .bind (keeps_countQueued hreceive _) fun _ ↦ huses.putValue _

theorem keeps_functionArgument (arguments : List Value) :
    Act.Keeps R (functionArgument arguments) := by
  unfold functionArgument
  split
  · exact .pure _
  · exact .fail _

theorem keeps_each (hgo : Runner.KeepsIn R go ctx) (hinput : TakesInput R ctx)
    (arguments : List Value) : Act.Keeps R (each go ctx arguments) :=
  .bind (keeps_functionArgument arguments) fun _ ↦ hinput _ fun _ hreceive ↦
    keeps_consume hreceive (fun _ ↦ hgo.call _ _) (hgo.call _ _)

theorem keeps_callFunction (hgo : Runner.KeepsIn R go ctx) (arguments : List Value) :
    Act.Keeps R (callFunction go ctx arguments) :=
  .bind (keeps_functionArgument arguments) fun _ ↦ hgo.call _ _

theorem keeps_tryFunction (hgo : Runner.KeepsIn R go ctx) (huses : UsesEndpoints R ctx)
    (arguments : List Value) : Act.Keeps R (tryFunction go ctx arguments) :=
  .bind (keeps_functionArgument arguments) fun _ ↦
    .bind (.attempt (hgo.call _ _)) fun _ ↦ huses.putValue _

omit [Enduring R] in
theorem keeps_captureProtected {f : Fn} {arguments : List Value}
    (hcapture : Act.Keeps R (captureOutput go ctx f arguments)) :
    Act.Keeps R (captureProtected go ctx f arguments) := by
  intro w
  have hw := hcapture w
  unfold captureProtected
  rcases hact : captureOutput go ctx f arguments w with ⟨_ | _ | _ | _, w'⟩ <;> rw [hact] at hw <;>
    exact hw

theorem keeps_captureFunction (huses : UsesEndpoints R ctx)
    (hcapture : ∀ f arguments, Act.Keeps R (captureOutput go ctx f arguments))
    (arguments : List Value) : Act.Keeps R (captureFunction go ctx arguments) := by
  refine .bind (keeps_functionArgument arguments) fun _ ↦
    .bind (keeps_captureProtected (hcapture _ _)) fun output ↦ ?_
  split
  · exact .bind (huses.putValue _) fun _ ↦ huses.putValue _
  · exact .bind (huses.putValue _) fun _ ↦ huses.putValue _

theorem keeps_lookupReference (hgo : Runner.KeepsIn R go ctx) (huses : UsesEndpoints R ctx)
    (arguments : List Value) : Act.Keeps R (lookupReference go ctx arguments) := by
  unfold lookupReference
  split
  · refine .bind (.ofExcept _) fun qualifier ↦ .bind (.ofExcept _) fun name ↦
      .bind (keeps_resolve hgo _ _) fun place ↦ ?_
    split
    · exact .bind (keeps_readPlace _) fun _ ↦ huses.putValue _
    · exact huses.putValue _
  · exact .fail _

theorem keeps_trip : Act.Keeps R trip :=
  .bind (keeps_data calm_setInterrupt dry_setInterrupt) fun _ ↦ keeps_note rfl

theorem keeps_sigint : Act.Keeps R sigint :=
  .bind (keeps_data calm_signalStub dry_signalStub) fun _ ↦ keeps_note rfl

/-- A builtin keeps what a capture of output keeps. -/
theorem keeps_callBuiltin (hgo : Runner.KeepsIn R go ctx) (huses : UsesEndpoints R ctx)
    (hcapture : ∀ f arguments, Act.Keeps R (captureOutput go ctx f arguments)) (b : Builtin)
    (arguments : List Value) : Act.Keeps R (callBuiltin go ctx b arguments) := by
  cases b with
  | put => exact huses.put arguments
  | echo => exact huses.echo arguments
  | fail => exact .bind (.ofExcept _) fun _ ↦ .fail _
  | nop => exact .pure _
  | cd => exact keeps_data (calm_cd arguments) (dry_cd arguments)
  | collect => exact keeps_collect hgo huses arguments
  | count => exact keeps_count huses
  | each => exact keeps_each hgo huses.input arguments
  | slurp => exact huses.slurp
  | trip => exact keeps_trip
  | boom => exact .throwForeign _
  | call => exact keeps_callFunction hgo arguments
  | «try» => exact keeps_tryFunction hgo huses arguments
  | capture => exact keeps_captureFunction huses hcapture arguments
  | ctx => exact .bind .world fun _ ↦ huses.putValue _
  | lookup => exact keeps_lookupReference hgo huses arguments
  | sigint => exact keeps_sigint

/-- A call of a function keeps what captures and calls of closures keep. -/
theorem keeps_callFn (hgo : Runner.KeepsIn R go ctx) (huses : UsesEndpoints R ctx)
    (hcapture : ∀ f arguments, Act.Keeps R (captureOutput go ctx f arguments))
    (hclosure : ∀ c arguments, Act.Keeps R (callClosure go ctx c arguments)) (f : Fn)
    (arguments : List Value) : Act.Keeps R (callFn go ctx f arguments) := by
  cases f with
  | builtin b => exact keeps_callBuiltin hgo huses hcapture b arguments
  | inert name => exact .pure _
  | external name => exact huses.external name arguments
  | closure c => exact hclosure c arguments

/-! ## Pipelines in order -/

theorem evalPipelines_append (go : Runner) (ctx : Context) (first second : List (List Code.Form)) :
    evalPipelines go ctx (first ++ second) =
      evalPipelines go ctx first >>= fun _ ↦ evalPipelines go ctx second := by
  induction first with
  | nil => rfl
  | cons forms rest ih =>
    rw [List.cons_append, evalPipelines, evalPipelines, ih]
    simp only [bind_assoc]

/-- Pipelines end at once when the interrupt flag is set. -/
theorem evalPipelines_interrupted (go : Runner) (ctx : Context) (forms : List Code.Form)
    (rest : List (List Code.Form)) {w : World} (hw : w.interrupted = true) :
    evalPipelines go ctx (forms :: rest) w = (.raised .interrupted, w) := by
  rw [evalPipelines, Act.bind_apply, Act.checkInterrupt_set hw]

/-- A block keeps what its pipelines keep. -/
theorem keeps_evalPipelines {pipelines : List (List Code.Form)}
    (h : ∀ forms ∈ pipelines, Act.Keeps R (evalPipeline go ctx forms)) :
    Act.Keeps R (evalPipelines go ctx pipelines) := by
  induction pipelines with
  | nil => exact .pure _
  | cons forms rest ih =>
    exact .bind .checkInterrupt fun _ ↦ .bind (h forms (by simp)) fun _ ↦
      ih fun other hother ↦ h other (by simp [hother])

omit [Enduring R] in
theorem keeps_settled {act : Act Unit} (h : Act.Keeps R act) : Act.Keeps R (settled act) := by
  intro w
  have hw := h w
  unfold settled
  rcases hact : act w with ⟨_ | _ | _ | _, w'⟩ <;> rw [hact] at hw <;> exact hw

theorem keeps_verdict (results : List StageResult) : Act.Keeps R (verdict results) := by
  unfold verdict
  split
  · exact .throwForeign _
  · exact .raise _
  · exact .pure _

/-! ## Modules -/

theorem calm_parseModule {given : Closure → Prop} (setup : Setup) (name file : Bytes) :
    Act.Keeps (Calm given) (parseModule setup name file) := by
  unfold parseModule
  refine .bind .world fun w ↦ ?_
  split
  · exact .raise _
  · exact .raise _
  · refine .bind (fun w ↦ .other w _ _ _ _ _ _ _) fun result ↦ ?_
    split
    · exact .pure _
    · exact .raise _

/-- Both states are reached from a third one, as far as the first one is. -/
def ReachedFrom (R : World → World → Prop) (w w₁ w₂ : World) : Prop := R w w₁ → R w w₂

instance (R : World → World → Prop) (w : World) : Std.Refl (ReachedFrom R w) := ⟨fun _ h ↦ h⟩

instance (R : World → World → Prop) (w : World) : IsTrans World (ReachedFrom R w) :=
  ⟨fun _ _ _ h h' hw ↦ h' (h hw)⟩

theorem reachedFrom_of_keeps {α : Type} {act : Act α} (w : World) (h : Act.Keeps R act) :
    Act.Keeps (ReachedFrom R w) act :=
  h.mono fun _ _ h hw ↦ trans_of R hw h

theorem leads_from {α : Type} {act : Act α} {w₀ w : World} (h : R w₀ w) (hact : Act.Keeps R act) :
    act.Leads w (fun _ ↦ R w₀) (R w₀) :=
  (Act.Leads.ofKeeps hact).mono (fun _ _ hw ↦ trans_of R h hw) fun _ hw ↦ trans_of R h hw

/-- The file of a module has been evaluated and the module is registered, or this broke off on the
way. -/
theorem leads_loadFile
    (hmodule : ∀ name file text chunk code,
      Act.Keeps R (runModule go ctx name file text chunk code))
    (name : Bytes) (w : World) :
    (loadFile setup go ctx name).Leads w
      (fun _ w' ↦ ∃ id evaluated, R w evaluated ∧ w' = register name id evaluated) (R w) := by
  unfold loadFile
  have hparse : ∀ file, Act.Keeps R (parseModule setup name file) := fun file ↦
    keeps_data (calm_parseModule setup name file) (dry_parseModule setup name file)
  refine (leads_from (refl_of R w) (hparse _)).bind
    fun (text, chunk) w₁ h₁ ↦ (leads_from h₁ .world).bind fun _ w₂ h₂ ↦ ?_
  split
  · exact h₂
  · refine (leads_from h₂ (keeps_note rfl)).bind fun _ w₃ h₃ ↦ ?_
    refine (leads_from h₃ (hmodule _ _ _ _ _)).bind fun id w₄ h₄ ↦ ?_
    exact ⟨id, w₄, h₄, rfl⟩

/-- Loading a module that is not registered keeps what the evaluation of its body keeps. -/
theorem keeps_loadModule
    (hmodule : ∀ name file text chunk code,
      Act.Keeps R (runModule go ctx name file text chunk code))
    (name : Bytes) (w : World) (hname : w.module? name = none) :
    R w (loadModule setup go ctx name w).2 := by
  unfold loadModule
  split
  · exact refl_of R w
  · refine ((leads_loadFile hmodule name (w.note (.loadBegan name))).ensuring (fun _ w' h ↦ ?_)
      fun w' ↦ Enduring.failedLoad name hname).state
    obtain ⟨id, evaluated, hevaluated, rfl⟩ := h
    exact Enduring.load name id hname hevaluated

end Enduring

/-! ## Uses of endpoints that are calm -/

section Persistent

variable [Persistent R]

theorem keeps_calm {α : Type} {act : Act α} (h : Act.Keeps (Calm fun _ ↦ True) act) :
    Act.Keeps R act :=
  h.mono fun _ _ ↦ Persistent.calm

theorem usesEndpoints_of_input (hinput : TakesInput R ctx) : UsesEndpoints R ctx where
  input := hinput
  putValue _ := keeps_calm (calm_putValue ctx (by simp))
  put arguments := keeps_calm (calm_put ctx arguments (by simp))
  echo arguments := keeps_calm (calm_echo ctx arguments)
  slurp := keeps_calm (calm_slurp ctx)
  external name arguments := keeps_calm (calm_callExternal ctx name arguments)

/-- Gathering captured output takes what is queued. -/
theorem keeps_gather {channel : ChannelId} (htake : ∀ w w', Takes channel w w' → R w w')
    (pipe : PipeId) : Act.Keeps R (gather channel pipe) :=
  fun w ↦ trans_of R (htake w _ (.drain w channel)) (Persistent.calm (.other _ _ _ _ _ _ _ _))

/-! ## Requests -/

omit [Persistent R] in
theorem takesInput [Receptive R] (ctx : Context) : TakesInput R ctx :=
  fun _ hnext ↦ .bind (keeps_calm (calm_inputChannel ctx)) fun channel ↦
    hnext channel (keeps_receiveFrom fun _ _ ↦ Receptive.take channel)

omit [Persistent R] in
/-- With whatever bound, running requests keeps a relation that captures, calls of closures and
module bodies keep as far as the runner does. -/
theorem keeps_run [Receptive R]
    (hcapture : ∀ go, Runner.Keeps R go → ∀ ctx f arguments,
      Act.Keeps R (captureOutput go ctx f arguments))
    (hclosure : ∀ go, Runner.Keeps R go → ∀ ctx c arguments,
      Act.Keeps R (callClosure go ctx c arguments))
    (hmodule : ∀ go, Runner.Keeps R go → ∀ ctx name file text chunk code,
      Act.Keeps R (runModule go ctx name file text chunk code))
    (setup : Setup) (fuel : Nat) : Runner.Keeps R (run setup fuel) := by
  induction fuel with
  | zero => exact ⟨fun _ _ _ ↦ .halt _, fun _ _ w _ ↦ refl_of R w⟩
  | succ fuel ih =>
    refine ⟨fun ctx f arguments ↦ ?_, fun ctx name w hname ↦ ?_⟩
    · exact keeps_callFn (ih.inContext ctx) (usesEndpoints_of_input (takesInput ctx))
        (hcapture _ ih ctx) (hclosure _ ih ctx) f arguments
    · exact keeps_loadModule (hmodule _ ih ctx) name w hname

end Persistent

end Eval

/-- What blocks keep in every context, a whole evaluation keeps. -/
theorem Shell.keeps_eval_of_block {R : World → World → Prop} [Enduring R] [Nesting R]
    {setup : Setup} {fuel : Nat}
    (hblock : ∀ ctx block, Act.Keeps R (Eval.evalBlock (Eval.run setup fuel) ctx block))
    (name text : Bytes) (chunk : Script.Chunk) (endpoints : List (Option EndpointId)) :
    Act.Keeps R (Shell.eval setup fuel name text chunk endpoints) := by
  unfold Shell.eval
  refine .bind .world fun w ↦ ?_
  split
  · exact .pure _
  · have hcontext : Act.Keeps R (Shell.topContext name text chunk endpoints) :=
      .change fun w ↦ Enduring.newScope _ w
    exact hcontext.bind fun ctx ↦ Eval.keeps_within _ (.attempt (hblock ctx _))

end Conduit
