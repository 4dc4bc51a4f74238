import Conduit.Proofs.Mirror.Blind

/-!
# Operations on Data that Mirror Each Other

Reading and writing places, sending and receiving values, and handling endpoints, on two states that
mirror each other and with values and contexts that are alike.
-/

namespace Conduit

variable {r s : Pairing} {o o' : ScopeId} {w w' : World}

namespace World.Mirrors

theorem blindPair {α : Type} (h : w.Mirrors o o' r w') {f : World → α × World}
    (hf : ∀ w m, f (w.withMemory m) = ((f w).1, (f w).2.withMemory m)) :
    (f w').1 = (f w).1 ∧ (f w).2.Mirrors o o' r (f w').2 := by
  constructor
  · refine h.congr (fun w ↦ (f w).1) fun w ↦ ?_
    rw [World.bare, hf w {}]
  · exact h.blind (f := fun w ↦ (f w).2) fun w m ↦ congrArg Prod.snd (hf w m)

theorem endpoint (h : w.Mirrors o o' r w') (id : EndpointId) : w'.endpoint id = w.endpoint id :=
  h.congr (·.endpoint id) fun _ ↦ rfl

theorem closeEndpoint (h : w.Mirrors o o' r w') (id : EndpointId) :
    (w.closeEndpoint id).Mirrors o o' r (w'.closeEndpoint id) := by
  have hrelease : (w.releaseStream (w.endpoint id).stream).Mirrors o o' r
      (w'.releaseStream (w.endpoint id).stream) :=
    h.blind (f := fun w ↦ w.releaseStream _) fun w m ↦ releaseStream_withMemory w m _
  have hclear : ∀ {w w' : World}, w.Mirrors o o' r w' →
      { w with endpoints := w.endpoints.modify id fun e ↦
        { e with stream := none, channel := none } }.Mirrors o o' r
      { w' with endpoints := w'.endpoints.modify id fun e ↦
        { e with stream := none, channel := none } } :=
    fun h ↦ h.blind (f := fun w ↦ { w with endpoints := w.endpoints.modify id fun e ↦
      { e with stream := none, channel := none } }) fun _ _ ↦ rfl
  unfold World.closeEndpoint
  rw [h.endpoint id]
  dsimp only
  split
  · exact hclear (hrelease.closeChannel _)
  · exact hclear hrelease

theorem closeEndpoints (h : w.Mirrors o o' r w') (endpoints : List (Option EndpointId)) :
    (w.closeEndpoints endpoints).Mirrors o o' r (w'.closeEndpoints endpoints) := by
  unfold World.closeEndpoints
  induction endpoints generalizing w w' with
  | nil => exact h
  | cons e rest ih =>
    cases e with
    | none => exact ih h
    | some id => exact ih (h.closeEndpoint id)

theorem dropEndpoint (h : w.Mirrors o o' r w') (id : EndpointId) :
    (w.dropEndpoint id).Mirrors o o' r (w'.dropEndpoint id) :=
  h.blind (f := fun w ↦ w.dropEndpoint id) fun w m ↦ dropEndpoint_withMemory w m id

theorem dropEndpoints (h : w.Mirrors o o' r w') (endpoints : List (Option EndpointId)) :
    (w.dropEndpoints endpoints).Mirrors o o' r (w'.dropEndpoints endpoints) :=
  h.blind (f := fun w ↦ w.dropEndpoints endpoints) fun w m ↦ dropEndpoints_withMemory w m endpoints

theorem newEndpoint (h : w.Mirrors o o' r w') (e : Endpoint) :
    (w'.newEndpoint e).1 = (w.newEndpoint e).1 ∧
      (w.newEndpoint e).2.Mirrors o o' r (w'.newEndpoint e).2 :=
  h.blindPair (f := fun w ↦ w.newEndpoint e) fun w m ↦ newEndpoint_withMemory w m e

theorem forkEndpoints (h : w.Mirrors o o' r w') (endpoints : List (Option EndpointId)) :
    (w'.forkEndpoints endpoints).1 = (w.forkEndpoints endpoints).1 ∧
      (w.forkEndpoints endpoints).2.Mirrors o o' r (w'.forkEndpoints endpoints).2 :=
  h.blindPair (f := fun w ↦ w.forkEndpoints endpoints)
    fun w m ↦ forkEndpoints_withMemory w m endpoints

theorem newPipe (h : w.Mirrors o o' r w') :
    w'.newPipe.1 = w.newPipe.1 ∧ w.newPipe.2.Mirrors o o' r w'.newPipe.2 :=
  h.blindPair (f := World.newPipe) newPipe_withMemory

end World.Mirrors

/-! ## Contexts -/

namespace Context.Like

variable {ctx ctx' : Context}

theorem drop (h : ctx.Like o o' r ctx') (hw : w.Mirrors o o' s w') :
    (ctx.drop w).Mirrors o o' s (ctx'.drop w') := by
  unfold Context.drop
  rw [h.endpoints]
  exact hw.dropEndpoints _

theorem finish (h : ctx.Like o o' r ctx') (hw : w.Mirrors o o' s w') :
    (ctx.finish w).Mirrors o o' s (ctx'.finish w') := by
  apply h.drop
  unfold Context.close
  rw [h.endpoints]
  exact hw.closeEndpoints _

theorem channel?_eq (h : ctx.Like o o' r ctx') (hw : w.Mirrors o o' s w') (n : Nat) :
    ctx'.channel? w' n = ctx.channel? w n := by
  unfold Context.channel? Context.endpoint?
  rw [h.endpoints, funext hw.endpoint]

theorem stream?_eq (h : ctx.Like o o' r ctx') (hw : w.Mirrors o o' s w') (n : Nat) :
    ctx'.stream? w' n = ctx.stream? w n := by
  unfold Context.stream? Context.endpoint?
  rw [h.endpoints, funext hw.endpoint]

/-- Contexts stay alike with other endpoints and another label. -/
theorem relabel (h : ctx.Like o o' r ctx') (label : Bytes) (endpoints : List (Option EndpointId)) :
    { ctx with label, endpoints }.Like o o' r { ctx' with label, endpoints } :=
  ⟨h.source, rfl, rfl, h.scope, h.outer⟩

end Context.Like

/-! ## Reading -/

/-- Two results that are related, or the same error. -/
inductive ExceptLike {α β : Type} (R : α → β → Prop) : Except Error α → Except Error β → Prop where
  | ok {a : α} {b : β} (h : R a b) : ExceptLike R (.ok a) (.ok b)
  | error (e : Error) : ExceptLike R (.error e) (.error e)

namespace World.Like

theorem variableAt (h : w.Like r w') (place : Place) :
    (w.variableAt place).Like r (w'.variableAt place) := by
  cases place with
  | bound id =>
    have hget := h.variable? id
    change ((w.vars.get? id).getD default).Like r ((w'.vars.get? id).getD default)
    generalize w.vars.get? id = x, w'.vars.get? id = x' at hget
    cases hget with
    | none => exact .plain none .absent
    | some hx => exact hx
  | env name => exact .env name
  | command name => exact .readOnly (.fn (.external name))
  | shared name => exact .shared name

/-- A place has values that are alike, or cannot be read for the same reason. -/
theorem read (h : w.Like r w') (place : Place) :
    ExceptLike (Value.Like r) ((w.variableAt place).read w) ((w'.variableAt place).read w') := by
  have hx := h.variableAt place
  have henvironment : w'.environment = w.environment := h.congr World.environment fun _ ↦ rfl
  have hstore : w'.store = w.store := h.congr World.store fun _ ↦ rfl
  generalize w.variableAt place = x, w'.variableAt place = x' at hx
  cases hx with
  | plain kind h => exact .ok h
  | readOnly h => exact .ok h
  | env name =>
    unfold Variable.read
    rw [henvironment]
    exact .ok (.text _)
  | shared name =>
    have hshared : w'.shared? name = w.shared? name := by
      rw [World.shared?, World.shared?, hstore]
    unfold Variable.read
    dsimp only
    rw [hshared]
    cases w.shared? name with
    | none => exact .error _
    | some value => exact .ok (.text value)
  | paths =>
    have hpaths : w'.searchPath = w.searchPath := by
      rw [World.searchPath, World.searchPath, henvironment]
    unfold Variable.read
    dsimp only
    rw [hpaths]
    exact .ok (.list (Value.allLike_texts r w.searchPath))

end World.Like

namespace Act.Mirror

variable {ctx ctx' : Context}

theorem fork (hctx : ctx.Like o o' r ctx') (hw : w.Mirrors o o' r w') (label : Bytes) :
    Mirror o o' r (Context.Like o o') (ctx.fork label) (ctx'.fork label) w w' := by
  have hfork := hw.forkEndpoints ctx.endpoints
  unfold Context.fork
  rw [hctx.endpoints]
  refine .change (le_refl r) hfork.2 ?_
  dsimp only
  rw [hfork.1]
  exact hctx.relabel label _

theorem setEndpoint (hctx : ctx.Like o o' r ctx') (hw : w.Mirrors o o' r w') (n : Nat)
    (e : Option EndpointId) :
    Mirror o o' r (Context.Like o o') (ctx.setEndpoint n e) (ctx'.setEndpoint n e) w w' := by
  have hset := hw.blindPair (f := fun w ↦ w.setEndpoint ctx.endpoints n e)
    fun w m ↦ World.setEndpoint_withMemory w m ctx.endpoints n e
  unfold Context.setEndpoint
  rw [hctx.endpoints]
  refine .change (le_refl r) hset.2 ?_
  dsimp only
  rw [hset.1]
  exact ⟨hctx.source, hctx.label, rfl, hctx.scope, hctx.outer⟩

/-! ## Places -/

theorem readPlace (hw : w.Mirrors o o' r w') (place : Place) :
    Mirror o o' r Value.Like (Act.readPlace place) (Act.readPlace place) w w' := by
  have hread := hw.like.read place
  unfold Mirror Act.readPlace
  generalize (w.variableAt place).read w = result, (w'.variableAt place).read w' = result' at hread
  cases hread with
  | ok hv => exact .done (le_refl r) hw hv
  | error e => exact .raised e (le_refl r) hw

theorem kindOf (hw : w.Mirrors o o' r w') {v v' : Value} (hv : v.Like r v') :
    Mirror o o' r Same (Act.kindOf v) (Act.kindOf v') w w' := by
  unfold Act.kindOf
  rw [hv.kind?_eq]
  exact .orHalt hw _ _

theorem blind {α : Type} {act : Act α} (h : Blind act) (hw : w.Mirrors o o' r w') :
    Mirror o o' r Same act act w w' :=
  h.mirror hw

theorem writePlain (hw : w.Mirrors o o' r w') (id : VariableId) (kept : Option Kind) {v v' : Value}
    (hv : v.Like r v') :
    Mirror o o' r Any (Act.writePlain id kept v) (Act.writePlain id kept v') w w' := by
  refine (kindOf hw hv).bindSame fun s kind w₁ w₁' hrs hw₁ ↦ ?_
  cases kept with
  | none => exact .modify (le_refl s) (hw₁.setVariable id (.plain _ (hv.mono hrs)))
  | some kept =>
    dsimp only
    split
    · exact .modify (le_refl s) (hw₁.setVariable id (.plain _ (hv.mono hrs)))
    · exact .raise hw₁ _

/-- The texts that two values give the search path. -/
theorem pathsText_eq {v v' : Value} (hv : v.Like r v') :
    Variable.pathsText v' = Variable.pathsText v := by
  have hjoin : ∀ {items items' : List Value}, Value.AllLike r items items' → ∀ written,
      Variable.joinPaths written items' = Variable.joinPaths written items := by
    intro items items' h
    induction h with
    | nil => exact fun _ ↦ rfl
    | cons h _ ih =>
      intro written
      unfold Variable.joinPaths
      rw [h.toText_eq]
      simp only [ih]
  cases hv with
  | absent => rfl
  | text content => rfl
  | list h => exact hjoin h []
  | fn h => rfl

theorem writePlace (hw : w.Mirrors o o' r w') (place : Place) {v v' : Value} (hv : v.Like r v') :
    Mirror o o' r Any (Act.writePlace place v) (Act.writePlace place v') w w' := by
  refine .worldBind ?_
  have hx := hw.like.variableAt place
  generalize w.variableAt place = x, w'.variableAt place = x' at hx
  cases hx with
  | plain kind h =>
    cases place with
    | bound id => exact writePlain hw id kind hv
    | env name => exact .pure hw trivial
    | command name => exact .pure hw trivial
    | shared name => exact .pure hw trivial
  | readOnly h => exact .raise hw _
  | env name =>
    dsimp only
    rw [hv.toText_eq]
    exact (blind (.bind (.ofExcept _) fun value ↦ .setEnv name value) hw).any
  | shared name =>
    dsimp only
    rw [hv.toText_eq]
    exact (blind (.bind (.ofExcept _) fun value ↦ .modify fun _ _ ↦ rfl) hw).any
  | paths =>
    dsimp only
    refine (kindOf hw hv).bindSame fun s kind w₁ w₁' hrs hw₁ ↦ ?_
    rw [pathsText_eq hv]
    exact (blind (.bind (.ofExcept _) fun value ↦ .setEnv _ value) hw₁).any

theorem writePlaces (hw : w.Mirrors o o' r w') (places : List Place) {vs vs' : List Value}
    (hvs : Value.AllLike r vs vs') :
    Mirror o o' r Any (Act.writePlaces places vs) (Act.writePlaces places vs')
      w w' := by
  induction places generalizing r vs vs' w w' with
  | nil => exact .pure hw trivial
  | cons place places ih =>
    cases hvs with
    | nil => exact .pure hw trivial
    | cons hv hrest =>
      refine (writePlace hw place hv).bind fun s _ _ w₁ w₁' hrs hw₁ _ ↦ ?_
      exact ih hw₁ (Value.AllLike.mono hrs hrest)

theorem distribute (hw : w.Mirrors o o' r w') (fixed rest : List Place) {vs vs' : List Value}
    (hvs : Value.AllLike r vs vs') :
    Mirror o o' r Any (Act.distribute fixed rest vs) (Act.distribute fixed rest vs') w w' := by
  have hlength : vs'.length = vs.length := hvs.length_eq.symm
  unfold Act.distribute
  rw [hlength]
  split
  · split
    · exact .raise hw _
    · exact writePlaces hw fixed hvs
  · split
    · exact .raise hw _
    · refine (writePlaces hw fixed hvs).bind fun s _ _ w₁ w₁' hrs hw₁ _ ↦ ?_
      exact writePlace hw₁ _ (.list (Value.AllLike.mono hrs (List.forall₂_drop _ hvs)))
  · exact .raise hw _

end Act.Mirror

end Conduit
