import Conduit.Proofs.Mirror.Data

/-!
# Code that is Evaluated alike

References, expressions, forms and pipelines are evaluated in two contexts that are alike and from
two states that mirror each other.  Requests are assumed to be carried out in ways that match.
-/

namespace Conduit.Eval

open Act (Mirror Same Any)

variable {r : Pairing} {o o' : ScopeId} {go : Runner} {ctx ctx' : Context} {w w' : World}

/-- Requests that are alike are carried out in ways that match. -/
structure Runner.Mirrored (o o' : ScopeId) (go : Runner) : Prop where
  call : ∀ {r ctx ctx' f f' arguments arguments' w w'}, w.Mirrors o o' r w' →
    ctx.Like o o' r ctx' → f.Like r f' → Value.AllLike r arguments arguments' →
      Mirror o o' r Any (go (.call ctx f arguments)) (go (.call ctx' f' arguments')) w w'
  load : ∀ {r ctx ctx' w w'} (name : Bytes), w.Mirrors o o' r w' → ctx.Like o o' r ctx' →
    Mirror o o' r Any (go (.load ctx name)) (go (.load ctx' name)) w w'

/-! ## References -/

theorem findPlain_eq (hctx : ctx.Like o o' r ctx') (hw : w.Mirrors o o' r w') (name : Bytes) :
    findPlain ctx' name w' = findPlain ctx name w := by
  rw [findPlain, findPlain, hctx.scope_eq hw, hctx.outer_eq hw, hw.builtins]

theorem mirror_use (hgo : Runner.Mirrored o o' go) (hctx : ctx.Like o o' r ctx')
    (hw : w.Mirrors o o' r w') (name : Bytes) :
    Mirror o o' r Any (use go ctx name) (use go ctx' name) w w' := by
  refine .worldBind ?_
  have hmodule := hw.module? name
  generalize w.module? name = id, w'.module? name = id' at hmodule
  cases hmodule with
  | none => exact hgo.load name hw hctx
  | some _ => exact .pure hw trivial

/-- A reference leads to the same place. -/
theorem mirror_resolve (hgo : Runner.Mirrored o o' go) (hctx : ctx.Like o o' r ctx')
    (hw : w.Mirrors o o' r w') (qualifier name : Bytes) :
    Mirror o o' r Same (resolve go ctx qualifier name) (resolve go ctx' qualifier name) w w' := by
  have hstore : w'.store = w.store := hw.congr World.store fun _ ↦ rfl
  unfold resolve
  refine .worldBind ?_
  rw [hctx.scope_eq hw, hctx.outer_eq hw, hw.builtins, findPlain_eq hctx hw, hstore]
  iterate 5
    split
    · exact .pure hw rfl
  split
  · split
    · exact .pure hw rfl
    · exact .raise hw _
  · refine (mirror_use hgo hctx hw qualifier).bind fun s _ _ w₁ w₁' hrs hw₁ _ ↦ ?_
    refine .worldBind (.pure hw₁ ?_)
    have hmodule := hw₁.module? qualifier
    generalize w₁.module? qualifier = id, w₁'.module? qualifier = id' at hmodule
    cases hmodule with
    | none => rfl
    | some hid =>
      have hscope : w₁'.scope _ = w₁.scope _ := hw₁.memory.scope hid
      dsimp only [Option.bind_some]
      rw [hscope]

theorem mirror_evalVariable (hgo : Runner.Mirrored o o' go) (hctx : ctx.Like o o' r ctx')
    (hw : w.Mirrors o o' r w') (span : Span) (splice : Bool) (ref : Reference) :
    Mirror o o' r Value.AllLike (evalVariable go ctx span splice ref)
      (evalVariable go ctx' span splice ref) w w' := by
  refine (mirror_resolve hgo hctx hw _ _).bindSame fun s place w₁ w₁' hrs hw₁ ↦ ?_
  cases place with
  | none =>
    refine (Mirror.modify (le_refl s) (hw₁.note _ _)).bind fun t _ _ w₂ w₂' _ hw₂ _ ↦ ?_
    exact .raise hw₂ _
  | some place =>
    refine (Mirror.readPlace hw₁ place).bind fun t v v' w₂ w₂' _ hw₂ hv ↦ ?_
    split
    · cases hv with
      | list hitems => exact .pure hw₂ hitems
      | absent => exact .halt hw₂ _
      | text content => exact .raise hw₂ _
      | fn hf => exact .raise hw₂ _
    · exact .pure hw₂ (.cons hv .nil)

/-! ## Expressions -/

theorem Mirror.newScope (hw : w.Mirrors o o' r w') (scope : Scope) :
    Mirror o o' r (fun s i i' ↦ s i i') (Act.change fun w ↦ w.newScope scope)
      (Act.change fun w ↦ w.newScope scope) w w' := by
  obtain ⟨s, hrs, hnew, hw₁⟩ := hw.newScope scope
  exact .change hrs hw₁ hnew

theorem mirror_makeClosure (hctx : ctx.Like o o' r ctx') (hw : w.Mirrors o o' r w')
    (parameters : List Bytes) (body : Code.Block) :
    Mirror o o' r (fun s c c' ↦ c.Like s c') (makeClosure ctx parameters body)
      (makeClosure ctx' parameters body) w w' := by
  obtain ⟨s, hrs, hnew, hw₁⟩ := hw.newScope (Scope.merge (w.scope ctx.outer) (w.scope ctx.scope))
  refine .change hrs ?_ ⟨rfl, rfl, hctx.source.1, hctx.source.2, hnew⟩
  rw [hctx.scope_eq hw, hctx.outer_eq hw]
  exact hw₁

mutual

theorem mirror_evalExpr (hgo : Runner.Mirrored o o' go) : ∀ {r : Pairing} {ctx ctx' : Context}
    {w w' : World}, ctx.Like o o' r ctx' → w.Mirrors o o' r w' → ∀ e : Code.Expr,
      Mirror o o' r Value.AllLike (evalExpr go ctx e) (evalExpr go ctx' e) w w'
  | r, ctx, ctx', w, w', _, hw, .text content => by
    unfold evalExpr
    exact .pure hw (.cons (.text content) .nil)
  | r, ctx, ctx', w, w', hctx, hw, .variable span splice ref => by
    unfold evalExpr
    exact mirror_evalVariable hgo hctx hw span splice ref
  | r, ctx, ctx', w, w', hctx, hw, .list items => by
    unfold evalExpr
    refine (mirror_evalExprs hgo hctx hw items).bind fun s vs vs' w₁ w₁' _ hw₁ hvs ↦ ?_
    exact .pure hw₁ (.cons (.list hvs) .nil)
  | r, ctx, ctx', w, w', hctx, hw, .lambda parameters body => by
    unfold evalExpr
    refine (mirror_makeClosure hctx hw parameters body).bind fun s c c' w₁ w₁' _ hw₁ hc ↦ ?_
    exact .pure hw₁ (.cons (.fn (.closure hc)) .nil)

theorem mirror_evalExprs (hgo : Runner.Mirrored o o' go) : ∀ {r : Pairing} {ctx ctx' : Context}
    {w w' : World}, ctx.Like o o' r ctx' → w.Mirrors o o' r w' → ∀ es : List Code.Expr,
      Mirror o o' r Value.AllLike (evalExprs go ctx es) (evalExprs go ctx' es) w w'
  | r, ctx, ctx', w, w', _, hw, [] => by
    unfold evalExprs
    exact .pure hw .nil
  | r, ctx, ctx', w, w', hctx, hw, e :: rest => by
    unfold evalExprs
    refine (mirror_evalExpr hgo hctx hw e).bind fun s vs vs' w₁ w₁' hrs hw₁ hvs ↦ ?_
    refine (mirror_evalExprs hgo (hctx.mono hrs) hw₁ rest).bind fun t us us' w₂ w₂' hst hw₂ hus ↦ ?_
    exact .pure hw₂ ((Value.AllLike.mono hst hvs).append hus)

end

theorem mirror_evalHead (hgo : Runner.Mirrored o o' go) (hctx : ctx.Like o o' r ctx')
    (hw : w.Mirrors o o' r w') (head : Code.Head) :
    Mirror o o' r Value.AllLike (evalHead go ctx head) (evalHead go ctx' head) w w' := by
  cases head with
  | named ref =>
    refine (mirror_resolve hgo hctx hw _ _).bindSame fun s place w₁ w₁' hrs hw₁ ↦ ?_
    cases place with
    | some place =>
      refine (Mirror.readPlace hw₁ place).bind fun t v v' w₂ w₂' _ hw₂ hv ↦ ?_
      exact .pure hw₂ (.cons hv .nil)
    | none =>
      dsimp only
      split
      · exact .pure hw₁ (.cons (.fn (.external ref.name)) .nil)
      · exact .fail hw₁ _
  | computed e => exact mirror_evalExpr hgo hctx hw e

theorem mirror_soleFunction (hw : w.Mirrors o o' r w') {vs vs' : List Value}
    (hvs : Value.AllLike r vs vs') :
    Mirror o o' r (fun s f f' ↦ f.Like s f') (soleFunction vs) (soleFunction vs') w w' := by
  have hmore : ∀ v u rest, soleFunction (v :: u :: rest) =
      Act.fail (utf8 "head of command must be a single function") := by
    intro v u rest
    cases v <;> rfl
  rcases hvs with _ | ⟨hv, _ | ⟨_, _⟩⟩
  · exact .fail hw _
  · cases hv with
    | absent => exact .halt hw _
    | text content => exact .fail hw _
    | list h => exact .fail hw _
    | fn hf => exact .pure hw hf
  · rw [hmore, hmore]
    exact .fail hw _

/-! ## Forms -/

theorem mirror_beginForm (hw : w.Mirrors o o' r w') (span : Span) :
    Mirror o o' r Any (beginForm span) (beginForm span) w w' :=
  .modify (le_refl r) ((Mirror.moved hw span).note _ _)

theorem mirror_redirectionPath (hw : w.Mirrors o o' r w') (span : Span) {vs vs' : List Value}
    (hvs : Value.AllLike r vs vs') :
    Mirror o o' r Same (redirectionPath span vs) (redirectionPath span vs') w w' := by
  rcases hvs with _ | ⟨hv, _ | ⟨_, _⟩⟩
  · exact .raise hw _
  · unfold redirectionPath
    dsimp only
    rw [hv.toText_eq]
    exact .ofExcept hw _
  · exact .raise hw _

theorem mirror_redirect (hgo : Runner.Mirrored o o' go) (hctx : ctx.Like o o' r ctx')
    (hw : w.Mirrors o o' r w') (redirection : Code.Redirection) :
    Mirror o o' r (Context.Like o o') (redirect go ctx redirection) (redirect go ctx' redirection)
      w w' := by
  obtain ⟨span, destination, mode, target⟩ := redirection
  unfold redirect
  refine (mirror_evalExpr hgo hctx hw target).bind fun s₁ vs vs' w₁ w₁' h₁ hw₁ hvs ↦ ?_
  refine (mirror_redirectionPath hw₁ span hvs).bindSame fun s₂ path w₂ w₂' h₂ hw₂ ↦ ?_
  refine (Mirror.blind (.openFile mode path) hw₂).bindSame fun s₃ stream w₃ w₃' h₃ hw₃ ↦ ?_
  have hctx₃ := hctx.mono (h₁.trans (h₂.trans h₃))
  have hendpoint := hw₃.newEndpoint
    { stream := some stream, channel := ctx.channel? w₃ destination }
  have hchange : Mirror o o' s₃ Same
      (Act.change fun w ↦
        w.newEndpoint { stream := some stream, channel := ctx.channel? w destination })
      (Act.change fun w ↦
        w.newEndpoint { stream := some stream, channel := ctx'.channel? w destination })
      w₃ w₃' := by
    refine .change (le_refl s₃) ?_ ?_
    · rw [hctx₃.channel?_eq hw₃]
      exact hendpoint.2
    · rw [hctx₃.channel?_eq hw₃]
      exact hendpoint.1
  refine hchange.bindSame fun s₄ e w₄ w₄' h₄ hw₄ ↦ ?_
  exact .setEndpoint (hctx₃.mono h₄) hw₄ destination (some e)

theorem mirror_withRedirections (hgo : Runner.Mirrored o o' go) (hctx : ctx.Like o o' r ctx')
    (hw : w.Mirrors o o' r w') {act act' : Context → Act Unit}
    (hact : ∀ s ctx ctx' w w', r ≤ s → ctx.Like o o' s ctx' → w.Mirrors o o' s w' →
      Mirror o o' s Any (act ctx) (act' ctx') w w') (redirections : List Code.Redirection) :
    Mirror o o' r Any (withRedirections go ctx act redirections)
      (withRedirections go ctx' act' redirections) w w' := by
  induction redirections generalizing r ctx ctx' w w' with
  | nil =>
    exact (hact r ctx ctx' w w' (le_refl r) hctx hw).ensuring fun s w₁ w₁' hw₁ ↦ hctx.drop hw₁
  | cons redirection rest ih =>
    have hfirst := mirror_redirect hgo hctx hw redirection
    refine (hfirst.orElseChange fun s w₁ w₁' hw₁ ↦ hctx.drop hw₁).bind
      fun s fork fork' w₁ w₁' hrs hw₁ hfork ↦ ?_
    exact ih hfork hw₁ fun t ctx ctx' w w' hst ↦ hact t ctx ctx' w w' (hrs.trans hst)

theorem mirror_command (hgo : Runner.Mirrored o o' go) (hctx : ctx.Like o o' r ctx')
    (hw : w.Mirrors o o' r w') (span : Span) (head : Code.Head) (arguments : List Code.Expr)
    (redirections : List Code.Redirection) :
    Mirror o o' r Any (evalForm go ctx (.command span head arguments redirections))
      (evalForm go ctx' (.command span head arguments redirections)) w w' := by
  unfold evalForm
  refine (mirror_beginForm hw span).bind fun s₁ _ _ w₁ w₁' h₁ hw₁ _ ↦ ?_
  refine (mirror_evalHead hgo (hctx.mono h₁) hw₁ head).bind fun s₂ vs vs' w₂ w₂' h₂ hw₂ hvs ↦ ?_
  refine (mirror_soleFunction hw₂ hvs).bind fun s₃ f f' w₃ w₃' h₃ hw₃ hf ↦ ?_
  have hctx₃ := hctx.mono (h₁.trans (h₂.trans h₃))
  refine (mirror_evalExprs hgo hctx₃ hw₃ arguments).bind fun s₄ us us' w₄ w₄' h₄ hw₄ hus ↦ ?_
  split
  · exact hgo.call hw₄ (hctx₃.mono h₄) (hf.mono h₄) hus
  · refine (Mirror.fork (hctx₃.mono h₄) hw₄ _).bind fun s₅ fork fork' w₅ w₅' h₅ hw₅ hfork ↦ ?_
    refine mirror_withRedirections hgo hfork hw₅ (fun s ctx ctx' w w' h hctx hw ↦ ?_) redirections
    exact hgo.call hw hctx (hf.mono (h₄.trans (h₅.trans h))) (Value.AllLike.mono (h₅.trans h) hus)

/-! ## Assignments -/

theorem mirror_findTarget (hgo : Runner.Mirrored o o' go) (hctx : ctx.Like o o' r ctx')
    (hw : w.Mirrors o o' r w') (t : Target) :
    Mirror o o' r Same (findTarget go ctx t) (findTarget go ctx' t) w w' := by
  refine (mirror_resolve hgo hctx hw _ _).bindSame fun s place w₁ w₁' _ hw₁ ↦ ?_
  cases place with
  | some place => exact .pure hw₁ rfl
  | none =>
    dsimp only
    split
    · have hnew := hw₁.newVariable (.plain none .absent)
      have hchange : Mirror o o' s Same (Act.change fun w ↦ w.newVariable (.plain none .absent))
          (Act.change fun w ↦ w.newVariable (.plain none .absent)) w₁ w₁' :=
        .change (le_refl s) hnew.2 hnew.1
      exact hchange.bindSame fun s₂ id w₂ w₂' _ hw₂ ↦ .pure hw₂ rfl
    · exact .raise hw₁ _

theorem mirror_findTargets (hgo : Runner.Mirrored o o' go) (hctx : ctx.Like o o' r ctx')
    (hw : w.Mirrors o o' r w') (targets : List Target) :
    Mirror o o' r Same (findTargets go ctx targets) (findTargets go ctx' targets) w w' := by
  induction targets generalizing r w w' with
  | nil => exact .pure hw rfl
  | cons t rest ih =>
    refine (mirror_findTarget hgo hctx hw t).bindSame fun s₁ d w₁ w₁' h₁ hw₁ ↦ ?_
    refine (ih (hctx.mono h₁) hw₁).bindSame fun s₂ ds w₂ w₂' _ hw₂ ↦ ?_
    exact .pure hw₂ rfl

theorem mirrors_foldl_define (hw : w.Mirrors o o' r w') {i i' : ScopeId} (hi : r i i')
    (entries : List (Bytes × VariableId)) :
    (entries.foldl (fun w (name, x) ↦ w.define i name x) w).Mirrors o o' r
      (entries.foldl (fun w (name, x) ↦ w.define i' name x) w') := by
  induction entries generalizing w w' with
  | nil => exact hw
  | cons entry rest ih => exact ih (hw.define hi entry.1 entry.2)

theorem mirror_assignment (hgo : Runner.Mirrored o o' go) (hctx : ctx.Like o o' r ctx')
    (hw : w.Mirrors o o' r w') (span : Span) (values : List Code.Expr) (targets : List Target) :
    Mirror o o' r Any (evalForm go ctx (.assignment span values targets))
      (evalForm go ctx' (.assignment span values targets)) w w' := by
  unfold evalForm
  refine (mirror_beginForm hw span).bind fun s₁ _ _ w₁ w₁' h₁ hw₁ _ ↦ ?_
  refine (mirror_evalExprs hgo (hctx.mono h₁) hw₁ values).bind fun s₂ vs vs' w₂ w₂' h₂ hw₂ hvs ↦ ?_
  have hctx₂ := hctx.mono (h₁.trans h₂)
  refine (mirror_findTargets hgo hctx₂ hw₂ targets).bindSame fun s₃ ds w₃ w₃' h₃ hw₃ ↦ ?_
  have hwrite := Mirror.distribute hw₃ (placesOf ds false) (placesOf ds true)
    (Value.AllLike.mono h₃ hvs)
  refine hwrite.bind fun s₄ _ _ w₄ w₄' h₄ hw₄ _ ↦ ?_
  have hscope := (hctx₂.mono (h₃.trans h₄)).scope
  refine (Mirror.modify (le_refl s₄) (mirrors_foldl_define hw₄ hscope _)).bind
    fun s₅ _ _ w₅ w₅' _ hw₅ _ ↦ ?_
  exact .modify (le_refl s₅) (hw₅.note _ _)

theorem mirror_evalForm (hgo : Runner.Mirrored o o' go) (hctx : ctx.Like o o' r ctx')
    (hw : w.Mirrors o o' r w') (form : Code.Form) :
    Mirror o o' r Any (evalForm go ctx form) (evalForm go ctx' form) w w' := by
  cases form with
  | command span head arguments redirections =>
    exact mirror_command hgo hctx hw span head arguments redirections
  | assignment span values targets => exact mirror_assignment hgo hctx hw span values targets

end Conduit.Eval
