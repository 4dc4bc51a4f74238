import Conduit.Eval.Run
import Conduit.Proofs.Calm.Builtins
import Conduit.Proofs.Calm.External
import Conduit.Proofs.Handling.Stages
import Conduit.Proofs.Persistent
import Conduit.Proofs.Scoping.Secure

/-!
# Secure Evaluation

From a sound state, evaluating code that is scoped by what its context sees leads to sound states
only.  The values that come out of it are sound, an assignment that has succeeded has brought its
names, and nothing that was seen is lost.  The argument follows the code of the evaluator: each step
is secure in the state that the steps before it have reached.
-/

namespace Conduit

open World (Grows Calm Handles)
open Act (Secure Safe)

/-! ## What a context sees -/

/-- An unqualified name leads somewhere in the context. -/
def Context.Sees (ctx : Context) (w : World) (name : Bytes) : Prop :=
  (Eval.findPlain ctx name w).isSome

theorem Context.sees_iff (ctx : Context) (w : World) (name : Bytes) :
    ctx.Sees w name ↔
      w.Has ctx.scope name ∨ w.Has ctx.outer name ∨ w.Has World.builtins name := by
  unfold Context.Sees Eval.findPlain World.Has
  cases (w.scope ctx.scope).lookup name with
  | some id => simp
  | none =>
    cases (w.scope ctx.outer).lookup name with
    | some id => simp
    | none => simp

theorem Context.Sees.grows {ctx : Context} {w w' : World} {name : Bytes} (h : ctx.Sees w name)
    (hw : Grows w w') : ctx.Sees w' name := by
  rw [sees_iff] at h ⊢
  exact h.imp (hw.has _ _) (Or.imp (hw.has _ _) (hw.has _ _))

theorem Context.Alike.sees {ctx ctx' : Context} (h : ctx.Alike ctx') {w : World} {name : Bytes}
    (hname : ctx.Sees w name) : ctx'.Sees w name := by
  rw [sees_iff] at hname ⊢
  rwa [h.scope, h.outer]

/-- Values of a list, each of which is sound. -/
def Value.AllSound (values : List Value) (w : World) : Prop := ∀ v ∈ values, v.Sound w

namespace Value

variable {w w' : World}

theorem AllSound.grows {values : List Value} (h : AllSound values w) (hw : Grows w w') :
    AllSound values w' :=
  fun v hv ↦ (h v hv).grows hw

theorem AllSound.append {values others : List Value} (h : AllSound values w)
    (h' : AllSound others w) : AllSound (values ++ others) w := by
  intro v hv
  rcases List.mem_append.mp hv with hv | hv
  · exact h v hv
  · exact h' v hv

theorem allSound_singleton {v : Value} (h : v.Sound w) : AllSound [v] w :=
  fun _ hu ↦ List.mem_singleton.mp hu ▸ h

theorem sound_text (content : Bytes) (w : World) : (text content).Sound w := by simp [Sound]

theorem sound_list {values : List Value} : (list values).Sound w ↔ AllSound values w := by
  unfold Sound AllSound Sound
  rw [closures_list]
  simp only [mem_closuresOf]
  constructor
  · exact fun h v hv c hc ↦ h c ⟨v, hv, hc⟩
  · exact fun h c ⟨v, hv, hc⟩ ↦ h v hv c hc

end Value

namespace Eval

open Value (AllSound)

/-- A runner is secure if calls with sound values are, and loads of modules. -/
structure Runner.Secure (go : Runner) : Prop where
  call : ∀ w ctx f arguments, w.Sound → (Value.fn f).Sound w → AllSound arguments w →
    (go (.call ctx f arguments)).Safe w
  load : ∀ w ctx name, w.Sound → (go (.load ctx name)).Safe w

variable {go : Runner} {ctx : Context} {w : World}

/-! ## References -/

theorem secure_use (hgo : Runner.Secure go) (hw : w.Sound) (name : Bytes) :
    (use go ctx name).Safe w := by
  unfold use
  refine .worldBind ?_
  split
  · exact hgo.load w ctx name hw
  · exact .pure hw trivial

theorem secure_resolve (hgo : Runner.Secure go) (hw : w.Sound) (qualifier name : Bytes) :
    (resolve go ctx qualifier name).Safe w := by
  unfold resolve
  refine .worldBind ?_
  iterate 5
    split
    · exact .pure hw trivial
  split
  · split
    · exact .pure hw trivial
    · exact .raise hw _
  · refine (secure_use hgo hw qualifier).bind fun _ w' hw' _ _ ↦ ?_
    exact .worldBind (.pure hw' trivial)

/-- What is read is sound, since it was stored. -/
theorem secure_readPlace (hw : w.Sound) (place : Place) :
    (Act.readPlace place).Secure w fun v w' ↦ v.Sound w' := by
  refine (Act.readPlace_stored place w).mono (fun v w' ⟨heq, hv⟩ ↦ ?_) fun w' heq ↦ ?_
  · subst heq
    exact ⟨hw, .refl w', fun c hc ↦ hw.closures c (hv c hc)⟩
  · subst heq
    exact ⟨hw, .refl w'⟩

/-- An unqualified variable that leads nowhere is not found, and the journal notes it. -/
theorem evalVariable_unresolved (go : Runner) (ctx : Context) (span : Span) (splice : Bool)
    {r : Reference} (hplain : r.isPlain = true) {w : World} (hnone : findPlain ctx r.name w = none) :
    evalVariable go ctx span splice r w =
      (.raised (.blaming span (utf8 "variable $" ++ r.full ++ utf8 " not found")),
        w.note (.unresolved ctx.chunk r)) := by
  have hq : r.qualifier = [] := List.isEmpty_iff.mp hplain
  have hplace : resolve go ctx r.qualifier r.name w = (.done none, w) := by
    rw [hq, resolve_plain, hnone]
    rfl
  change Act.bind (resolve go ctx r.qualifier r.name) _ w = _
  unfold Act.bind
  rw [hplace]
  rfl

/-- An unqualified variable that the context sees leads somewhere.  Any other may lead nowhere, which
does not matter where nothing is promised. -/
theorem secure_evalVariable (hgo : Runner.Secure go) (hw : w.Sound) (span : Span) (splice : Bool)
    (r : Reference) (hr : ctx.chunk.Solo → r.isPlain = true → ctx.Sees w r.name) :
    (evalVariable go ctx span splice r).Secure w AllSound := by
  have hplace : (resolve go ctx r.qualifier r.name).Secure w fun place _ ↦
      place = none → r.isPlain = true → ¬ctx.chunk.Solo := by
    by_cases hpromised : r.isPlain = true ∧ ctx.chunk.Solo
    · have hq : r.qualifier = [] := List.isEmpty_iff.mp hpromised.1
      obtain ⟨id, hid⟩ := Option.isSome_iff_exists.mp (hr hpromised.2 hpromised.1)
      rw [hq]
      refine ⟨hw, .refl w, fun hnone ↦ ?_⟩
      rw [hid] at hnone
      cases hnone
    · exact (secure_resolve hgo hw r.qualifier r.name).mono fun _ _ _ _ _ _ hplain hsolo ↦
        hpromised ⟨hplain, hsolo⟩
  unfold evalVariable
  refine hplace.bind fun place w₁ hw₁ _ hnone ↦ ?_
  cases place with
  | none =>
    have hnote : (Act.modify (World.note (.unresolved ctx.chunk r))).Safe w₁ := by
      refine ⟨hw₁.note fun chunk r' heq ↦ ?_, .of_scopes rfl, trivial⟩
      cases heq
      exact hnone rfl
    exact hnote.bind fun _ w₂ hw₂ _ _ ↦ .raise hw₂ _
  | some place =>
    refine (secure_readPlace hw₁ place).bind fun v w₂ hw₂ _ hv ↦ ?_
    split
    · split
      · exact .pure hw₂ (Value.sound_list.mp hv)
      · exact .halt hw₂ _
      · exact .raise hw₂ _
    · exact .pure hw₂ (Value.allSound_singleton hv)

/-! ## Expressions -/

/-- A closure sees what its context saw where it was made. -/
theorem secure_makeClosure (hw : w.Sound) (parameters : List Bytes) (body : Code.Block)
    (hbody : ctx.chunk.Solo → body.Scoped fun name ↦ name ∈ parameters ∨ ctx.Sees w name) :
    (makeClosure ctx parameters body).Secure w fun c w' ↦ c.Sound w' := by
  have hgrows : Grows w (w.newScope (Scope.merge (w.scope ctx.outer) (w.scope ctx.scope))).2 :=
    .newScope _ w
  refine ⟨hw.scopes hgrows rfl rfl rfl, hgrows, fun hsolo ↦ (hbody hsolo).mono fun name hname ↦ ?_⟩
  rcases hname with hname | hname
  · exact .inl hname
  · rw [Context.sees_iff, ← or_assoc] at hname
    rcases hname with hname | hname
    · have hmerged : (w.newScope (Scope.merge (w.scope ctx.outer) (w.scope ctx.scope))).2.Has
          w.scopes.size name := by
        unfold World.Has
        rw [World.scope_newScope, if_pos rfl, Scope.lookup_merge]
        exact hname
      exact .inr (.inl hmerged)
    · exact .inr (.inr (hgrows.has _ _ hname))

mutual

theorem secure_evalExpr (hgo : Runner.Secure go) : ∀ {w : World} {e : Code.Expr}, w.Sound →
    (ctx.chunk.Solo → e.Scoped (ctx.Sees w)) → (evalExpr go ctx e).Secure w AllSound
  | w, .text content, hw, _ => by
    unfold evalExpr
    exact .pure hw (Value.allSound_singleton (Value.sound_text content w))
  | w, .variable span splice r, hw, he => by
    unfold evalExpr
    exact secure_evalVariable hgo hw span splice r he
  | w, .list items, hw, he => by
    unfold evalExpr
    have hitems : ctx.chunk.Solo → Code.exprsScoped (ctx.Sees w) items := he
    refine (secure_evalExprs hgo hw hitems).bind fun values w' hw' _ hvalues ↦ ?_
    exact .pure hw' (Value.allSound_singleton (Value.sound_list.mpr hvalues))
  | w, .lambda parameters body, hw, he => by
    unfold evalExpr
    refine (secure_makeClosure hw parameters body he).bind fun c w' hw' _ hc ↦ ?_
    refine .pure hw' (Value.allSound_singleton fun c' hc' ↦ ?_)
    rw [Value.closures_closure, List.mem_singleton] at hc'
    exact hc' ▸ hc

theorem secure_evalExprs (hgo : Runner.Secure go) : ∀ {w : World} {es : List Code.Expr}, w.Sound →
    (ctx.chunk.Solo → Code.exprsScoped (ctx.Sees w) es) →
      (evalExprs go ctx es).Secure w AllSound
  | w, [], hw, _ => by
    unfold evalExprs
    exact .pure hw nofun
  | w, e :: rest, hw, he => by
    unfold evalExprs
    have hfirst : ctx.chunk.Solo → e.Scoped (ctx.Sees w) := fun hsolo ↦ (he hsolo).1
    refine (secure_evalExpr hgo hw hfirst).bind fun values w₁ hw₁ hg₁ hvalues ↦ ?_
    have hrest : ctx.chunk.Solo → Code.exprsScoped (ctx.Sees w₁) rest :=
      fun hsolo ↦ Code.exprsScoped_mono (fun _ hname ↦ hname.grows hg₁) (he hsolo).2
    refine (secure_evalExprs hgo hw₁ hrest).bind fun others w₂ hw₂ hg₂ hothers ↦ ?_
    exact .pure hw₂ ((hvalues.grows hg₂).append hothers)

end

theorem secure_evalHead (hgo : Runner.Secure go) (hw : w.Sound) (head : Code.Head)
    (hhead : ctx.chunk.Solo → head.Scoped (ctx.Sees w)) :
    (evalHead go ctx head).Secure w AllSound := by
  cases head with
  | named r =>
    refine (secure_resolve hgo hw _ _).bind fun place w₁ hw₁ _ _ ↦ ?_
    cases place with
    | some place =>
      refine (secure_readPlace hw₁ place).bind fun v w₂ hw₂ _ hv ↦ ?_
      exact .pure hw₂ (Value.allSound_singleton hv)
    | none =>
      dsimp only
      split
      · exact .pure hw₁ (Value.allSound_singleton fun c hc ↦ by simp at hc)
      · exact .fail hw₁ _
  | computed e => exact secure_evalExpr hgo hw hhead

theorem secure_soleFunction {values : List Value} (hw : w.Sound) (hvalues : AllSound values w) :
    (soleFunction values).Secure w fun f w' ↦ (Value.fn f).Sound w' := by
  unfold soleFunction
  split
  · exact .pure hw (hvalues _ List.mem_cons_self)
  · exact .halt hw _
  · exact .fail hw _

/-! ## Forms -/

theorem secure_beginForm (hw : w.Sound) (span : Span) : (beginForm span).Safe w := by
  have hmoved : { w with here := span }.Sound := hw.scopes (.of_scopes rfl) rfl rfl rfl
  exact ⟨hmoved.note nofun, .of_scopes rfl, trivial⟩

theorem secure_redirect (hgo : Runner.Secure go) (hw : w.Sound) (r : Code.Redirection)
    (hr : ctx.chunk.Solo → r.Scoped (ctx.Sees w)) :
    (redirect go ctx r).Secure w fun ctx' _ ↦ ctx.Alike ctx' := by
  obtain ⟨span, destination, mode, target⟩ := r
  unfold redirect
  refine (secure_evalExpr hgo hw hr).bind fun values w₁ hw₁ _ _ ↦ ?_
  refine (Secure.calm hw₁ (calm_redirectionPath span values)).bind fun path w₂ hw₂ _ _ ↦ ?_
  refine (Secure.calm hw₂ (calm_openFile mode path)).bind fun stream w₃ hw₃ _ _ ↦ ?_
  refine (Secure.handles hw₃ (.change fun w ↦ .newEndpoint w _)).bind fun e w₄ hw₄ _ _ ↦ ?_
  have hset := Secure.handles hw₄ (ctx.handles_setEndpoint destination (some e))
  exact (hset.yielding (ctx.setEndpoint_alike destination (some e))).mono fun _ _ _ _ h ↦ h.2

theorem secure_withRedirections (hgo : Runner.Secure go) {act : Context → Act Unit}
    {arguments : List Value} {redirections : List Code.Redirection} (hw : w.Sound)
    (harguments : AllSound arguments w)
    (hact : ∀ ctx w, w.Sound → AllSound arguments w → (act ctx).Safe w)
    (hr : ctx.chunk.Solo → Code.redirectionsScoped (ctx.Sees w) redirections) :
    (withRedirections go ctx act redirections).Safe w := by
  induction redirections generalizing ctx w with
  | nil => exact (hact ctx w hw harguments).ensuring fun w' ↦ ctx.handles_drop w'
  | cons r rest ih =>
    have hfirst := secure_redirect hgo hw r fun hsolo ↦ (hr hsolo).1
    refine (hfirst.orElseChange fun w' ↦ ctx.handles_drop w').bind
      fun ctx' w₁ hw₁ hg halike ↦ ih hw₁ (harguments.grows hg) fun hsolo ↦ ?_
    rw [halike.chunk] at hsolo
    exact Code.redirectionsScoped_mono (fun _ hname ↦ halike.sees (hname.grows hg)) (hr hsolo).2

theorem secure_command (hgo : Runner.Secure go) (hw : w.Sound) (span : Span) (head : Code.Head)
    (arguments : List Code.Expr) (redirections : List Code.Redirection)
    (hform : ctx.chunk.Solo →
      (Code.Form.command span head arguments redirections).Scoped (ctx.Sees w)) :
    (evalForm go ctx (.command span head arguments redirections)).Safe w := by
  unfold evalForm
  refine (secure_beginForm hw span).bind fun _ w₁ hw₁ hg₁ _ ↦ ?_
  have hhead : ctx.chunk.Solo → head.Scoped (ctx.Sees w₁) :=
    fun hsolo ↦ (hform hsolo).1.mono fun _ hname ↦ hname.grows hg₁
  refine (secure_evalHead hgo hw₁ head hhead).bind fun values w₂ hw₂ hg₂ hvalues ↦ ?_
  refine (secure_soleFunction hw₂ hvalues).bind fun f w₃ hw₃ hg₃ hf ↦ ?_
  have hg : Grows w w₃ := (hg₁.trans hg₂).trans hg₃
  have harguments : ctx.chunk.Solo → Code.exprsScoped (ctx.Sees w₃) arguments :=
    fun hsolo ↦ Code.exprsScoped_mono (fun _ hname ↦ hname.grows hg) (hform hsolo).2.1
  refine (secure_evalExprs hgo hw₃ harguments).bind fun given w₄ hw₄ hg₄ hgiven ↦ ?_
  split
  · exact hgo.call w₄ ctx f given hw₄ (hf.grows hg₄) hgiven
  · have hfork := (Secure.handles hw₄ (ctx.handles_fork (utf8 "redir"))).yielding
      (ctx.fork_alike (utf8 "redir"))
    refine hfork.bind fun fork w₅ hw₅ hg₅ ⟨_, halike⟩ ↦ ?_
    have hall : AllSound (.fn f :: given) w₅ := by
      intro v hv
      rcases List.mem_cons.mp hv with rfl | hv
      · exact hf.grows (hg₄.trans hg₅)
      · exact (hgiven v hv).grows hg₅
    refine secure_withRedirections hgo hw₅ hall (fun ctx w hw hall ↦ ?_) fun hsolo ↦ ?_
    · exact hgo.call w ctx f given hw (hall _ List.mem_cons_self)
        fun v hv ↦ hall v (List.mem_cons_of_mem _ hv)
    · rw [halike.chunk] at hsolo
      have hgrows := hg.trans (hg₄.trans hg₅)
      exact Code.redirectionsScoped_mono (fun _ hname ↦ halike.sees (hname.grows hgrows))
        (hform hsolo).2.2

/-! ## Assignments -/

/-- A local target is seen already, or gets a variable that is to be bound to its name. -/
theorem secure_findTarget (hgo : Runner.Secure go) (hw : w.Sound) (t : Target) :
    (findTarget go ctx t).Secure w fun d w' ↦ t.reference.isLocal = true →
      ctx.Sees w' t.reference.name ∨ ∃ entry ∈ d.created, entry.1 = t.reference.name := by
  have hplace : (resolve go ctx t.reference.qualifier t.reference.name).Secure w fun place _ ↦
      t.reference.isLocal = true → place ≠ none → ctx.Sees w t.reference.name := by
    by_cases hlocal : t.reference.isLocal = true
    · rcases qualifier_of_isLocal hlocal with hq | hq
      · rw [hq]
        refine ⟨hw, .refl w, fun _ hsome ↦ ?_⟩
        obtain ⟨place, hplace⟩ := Option.ne_none_iff_exists'.mp hsome
        obtain ⟨id, hid, -⟩ := Option.map_eq_some_iff.mp hplace
        exact Option.isSome_iff_exists.mpr ⟨id, hid⟩
      · rw [hq]
        refine ⟨hw, .refl w, fun _ hsome ↦ ?_⟩
        obtain ⟨place, hplace⟩ := Option.ne_none_iff_exists'.mp hsome
        obtain ⟨id, hid, -⟩ := Option.map_eq_some_iff.mp hplace
        exact (ctx.sees_iff w _).mpr (.inl (Option.isSome_iff_exists.mpr ⟨id, hid⟩))
    · exact (secure_resolve hgo hw _ _).mono fun _ _ _ _ _ h ↦ absurd h hlocal
  unfold findTarget
  refine hplace.bind fun place w₁ hw₁ hg₁ hseen ↦ ?_
  cases place with
  | some place => exact .pure hw₁ fun hlocal ↦ .inl ((hseen hlocal nofun).grows hg₁)
  | none =>
    dsimp only
    split
    · have hnew : (Act.change fun w ↦ w.newVariable (.plain none .absent)).Safe w₁ :=
        .calm hw₁ (.change fun w ↦ .newVariable w (by simp [Variable.closures]))
      exact hnew.bind fun id w₂ hw₂ _ _ ↦ .pure hw₂ fun _ ↦ .inr ⟨_, rfl, rfl⟩
    · exact .raise hw₁ _

/-- Each name that the targets may bind is seen already or is to be bound to a new variable. -/
theorem secure_findTargets (hgo : Runner.Secure go) (hw : w.Sound) (targets : List Target) :
    (findTargets go ctx targets).Secure w fun ds w' ↦ ∀ name ∈ Code.newNames targets,
      ctx.Sees w' name ∨ ∃ entry ∈ ds.filterMap (·.created), entry.1 = name := by
  induction targets generalizing w with
  | nil => exact .pure hw nofun
  | cons t rest ih =>
    unfold findTargets
    refine (secure_findTarget hgo hw t).bind fun d w₁ hw₁ hg₁ hd ↦ ?_
    refine (ih hw₁).bind fun ds w₂ hw₂ hg₂ hds ↦ .pure hw₂ fun name hname ↦ ?_
    have hcases : (t.reference.isLocal = true ∧ t.reference.name = name) ∨
        name ∈ Code.newNames rest := by
      simp only [Code.newNames, List.filter_cons, List.mem_map] at hname ⊢
      obtain ⟨t', ht', rfl⟩ := hname
      split at ht'
      · rcases List.mem_cons.mp ht' with rfl | ht'
        · exact .inl ⟨‹_›, rfl⟩
        · exact .inr ⟨t', ht', rfl⟩
      · exact .inr ⟨t', ht', rfl⟩
    rcases hcases with ⟨hlocal, rfl⟩ | hname
    · refine (hd hlocal).imp (·.grows hg₂) fun ⟨entry, hentry, heq⟩ ↦ ⟨entry, ?_, heq⟩
      exact List.mem_filterMap.mpr ⟨d, List.mem_cons_self, hentry⟩
    · refine (hds name hname).imp_right fun ⟨entry, hentry, heq⟩ ↦ ⟨entry, ?_, heq⟩
      obtain ⟨d', hd', hcreated⟩ := List.mem_filterMap.mp hentry
      exact List.mem_filterMap.mpr ⟨d', List.mem_cons_of_mem _ hd', hcreated⟩

theorem grows_foldl_define (s : ScopeId) (entries : List (Bytes × VariableId)) (w : World) :
    Grows w (entries.foldl (fun w (name, x) ↦ w.define s name x) w) := by
  induction entries generalizing w with
  | nil => exact .refl w
  | cons entry rest ih => exact (Grows.define w s entry.1 entry.2).trans (ih _)

/-- Defining names in a scope that exists brings all of them. -/
theorem has_foldl_define {s : ScopeId} {entries : List (Bytes × VariableId)} {w : World}
    (hs : s < w.scopes.size) {entry : Bytes × VariableId} (hentry : entry ∈ entries) :
    (entries.foldl (fun w (name, x) ↦ w.define s name x) w).Has s entry.1 := by
  induction entries generalizing w with
  | nil => cases hentry
  | cons first rest ih =>
    have hgrows : Grows w (w.define s first.1 first.2) := .define w s first.1 first.2
    rcases List.mem_cons.mp hentry with rfl | hentry
    · exact (grows_foldl_define s rest _).has _ _ (World.has_define hs entry.1 entry.2)
    · exact ih (Nat.lt_of_lt_of_le hs hgrows.size_le) hentry

/-- An assignment that succeeds has brought its names. -/
theorem secure_assignment (hgo : Runner.Secure go) (hw : w.Sound) (hs : ctx.scope < w.scopes.size)
    (span : Span) (values : List Code.Expr) (targets : List Target)
    (hform : ctx.chunk.Solo → Code.exprsScoped (ctx.Sees w) values) :
    (evalForm go ctx (.assignment span values targets)).Secure w fun _ w' ↦
      ∀ name ∈ Code.newNames targets, ctx.Sees w' name := by
  unfold evalForm
  refine (secure_beginForm hw span).bind fun _ w₁ hw₁ hg₁ _ ↦ ?_
  have hvalues : ctx.chunk.Solo → Code.exprsScoped (ctx.Sees w₁) values :=
    fun hsolo ↦ Code.exprsScoped_mono (fun _ hname ↦ hname.grows hg₁) (hform hsolo)
  refine (secure_evalExprs hgo hw₁ hvalues).bind fun given w₂ hw₂ hg₂ hgiven ↦ ?_
  refine (secure_findTargets hgo hw₂ targets).bind fun ds w₃ hw₃ hg₃ hds ↦ ?_
  have hwrite : Act.Keeps (Calm (·.Sound w₃))
      (Act.distribute (placesOf ds false) (placesOf ds true) given) :=
    Act.calm_distribute _ _ given fun v hv ↦ (hgiven v hv).grows hg₃
  refine (Secure.calm hw₃ hwrite).bind fun _ w₄ hw₄ hg₄ _ ↦ ?_
  have hbind : (Act.modify (bindCreated ctx.scope ds)).Secure w₄ fun _ w' ↦
      ∀ name ∈ Code.newNames targets, ctx.Sees w' name := by
    have hgrows : Grows w₄ (bindCreated ctx.scope ds w₄) := grows_foldl_define _ _ w₄
    have hscope : ctx.scope < w₄.scopes.size :=
      Nat.lt_of_lt_of_le hs (((hg₁.trans hg₂).trans hg₃).trans hg₄).size_le
    refine ⟨?_, hgrows, fun name hname ↦ ?_⟩
    · obtain ⟨scopes, heq, -⟩ :=
        World.foldl_define_eq ctx.scope (ds.filterMap (·.created)) w₄
      have hsame : bindCreated ctx.scope ds w₄ = { w₄ with scopes } := heq
      exact hw₄.scopes hgrows (by rw [hsame]) (by rw [hsame]) (by rw [hsame])
    · rcases hds name hname with hseen | ⟨entry, hentry, rfl⟩
      · exact hseen.grows (hg₄.trans hgrows)
      · exact (ctx.sees_iff _ _).mpr (.inl (has_foldl_define hscope hentry))
  refine hbind.bind fun _ w₅ hw₅ _ hnames ↦ ?_
  exact ⟨hw₅.note nofun, .of_scopes rfl, hnames⟩

/-- A form is secure, and when it succeeds what it brings is seen. -/
theorem secure_evalForm (hgo : Runner.Secure go) (hw : w.Sound) (hs : ctx.scope < w.scopes.size)
    {form : Code.Form} (hform : ctx.chunk.Solo → form.Scoped (ctx.Sees w)) :
    (evalForm go ctx form).Secure w fun _ w' ↦ ∀ name ∈ form.brings, ctx.Sees w' name := by
  cases form with
  | command span head arguments redirections =>
    exact (secure_command hgo hw span head arguments redirections hform).mono
      fun _ _ _ _ _ name hname ↦ nomatch hname
  | assignment span values targets => exact secure_assignment hgo hw hs span values targets hform

end Eval

end Conduit
