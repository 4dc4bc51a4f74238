import Conduit.Proofs.Bindings

/-!
# Bindings under Evaluation

An assignment binds names only when it has succeeded, in the scope of its context, and only names
that were not bound there.  Every other step binds nothing in a scope that exists, since closures
and modules run in scopes of their own.  Carried through the recursion of evaluation this says what
a whole evaluation binds.
-/

namespace Conduit

open World (Binds Assignments Handles)
open Code (Form)

namespace Eval

variable {own : Assignments} {go : Runner} {ctx : Context}

/-! ## Assignments -/

/-- A target gets a new variable only if it is local and its name is not bound in the scope. -/
theorem findTarget_created (go : Runner) (ctx : Context) (t : Target) (w : World) :
    (findTarget go ctx t).Leads w
      (fun d _ ↦ ∀ entry ∈ d.created, t.reference.isLocal ∧ entry.1 = t.reference.name ∧
        (w.scope ctx.scope).lookup entry.1 = none) fun _ ↦ True := by
  unfold findTarget
  by_cases hlocal : t.reference.isLocal
  · have hfound : ∃ place : Option Place,
        resolve go ctx t.reference.qualifier t.reference.name w = (.done place, w) ∧
          (place = none → (w.scope ctx.scope).lookup t.reference.name = none) := by
      rcases qualifier_of_isLocal hlocal with hq | hq
      · refine ⟨_, by rw [hq, resolve_plain], fun hnone ↦ ?_⟩
        unfold findPlain at hnone
        split at hnone
        · cases hnone
        · assumption
      · exact ⟨_, by rw [hq, resolve_local], by simp⟩
    obtain ⟨place, hplace, hnone⟩ := hfound
    have hlead : (resolve go ctx t.reference.qualifier t.reference.name).Leads w
        (fun p w' ↦ p = place ∧ w' = w) fun _ ↦ True := by
      unfold Act.Leads
      rw [hplace]
      exact ⟨rfl, rfl⟩
    refine hlead.bind ?_
    rintro p w' ⟨rfl, rfl⟩
    cases p with
    | some place => exact fun entry hentry ↦ nomatch hentry
    | none =>
      simp only [hlocal, if_true]
      rintro entry ⟨rfl⟩
      exact ⟨trivial, rfl, hnone rfl⟩
  · refine (Act.Leads.trivial _ w).bind fun p w' _ ↦ ?_
    cases p with
    | some place => exact fun entry hentry ↦ nomatch hentry
    | none =>
      simp only [hlocal]
      trivial

/-- The new variables of an assignment are for names of its local targets that the scope does not
have. -/
theorem findTargets_created (hgo : Runner.Keeps (Binds .none) go) (ctx : Context)
    (targets : List Target) (w : World) :
    (findTargets go ctx targets).Leads w
      (fun ds _ ↦ ∀ d ∈ ds, ∀ entry ∈ d.created, entry.1 ∈ Code.newNames targets ∧
        (w.scope ctx.scope).lookup entry.1 = none) fun _ ↦ True := by
  induction targets generalizing w with
  | nil => exact fun d hd ↦ nomatch hd
  | cons t rest ih =>
    have hfirst := (findTarget_created go ctx t w).keeping (keeps_findTarget (hgo.inContext ctx) t)
    refine (hfirst.mono (fun _ _ h ↦ h) fun _ _ ↦ trivial).bind fun d w₁ ⟨hd, hbinds⟩ ↦ ?_
    refine (ih w₁).bind fun ds w₂ hds ↦ ?_
    intro other hother entry hentry
    rcases List.mem_cons.mp hother with rfl | hother
    · obtain ⟨hlocal, hname, hnone⟩ := hd entry hentry
      exact ⟨by simp [Code.newNames, hlocal, hname], hnone⟩
    · obtain ⟨hname, hnone⟩ := hds other hother entry hentry
      refine ⟨?_, ?_⟩
      · simp only [Code.newNames, List.filter_cons, List.mem_map] at hname ⊢
        obtain ⟨t', ht', hname⟩ := hname
        refine ⟨t', ?_, hname⟩
        split
        · exact List.mem_cons_of_mem _ ht'
        · exact ht'
      · by_contra hsome
        obtain ⟨x, hx⟩ := Option.ne_none_iff_exists'.mp hsome
        rw [hbinds.kept _ _ x hx] at hnone
        cases hnone

theorem keeps_none {α : Type} {act : Act α} (h : act.Keeps (Binds .none)) : act.Keeps (Binds own) :=
  h.mono fun _ _ ↦ Binds.of_none

theorem binds_assignment (hgo : Runner.Keeps (Binds .none) go) (ctx : Context) (span : Span)
    (values : List Code.Expr) (targets : List Target) (hown : own ctx.scope span targets) :
    Act.Keeps (Binds own) (evalForm go ctx (.assignment span values targets)) := by
  unfold evalForm
  refine .bind (keeps_beginForm span) fun _ ↦
    .bind (keeps_none (keeps_evalExprs (hgo.inContext ctx) values)) fun values w ↦ ?_
  have hfound := (findTargets_created hgo ctx targets w).keeping
    (keeps_findTargets (hgo.inContext ctx) targets)
  refine ((hfound.mono (fun _ _ h ↦ h) fun _ h ↦ h.2.of_none).bind fun ds w₁ ⟨hds, h₁⟩ ↦ ?_).state
  have hwrite := Act.Leads.ofKeeps (w := w₁) (keeps_distribute (R := Binds .none)
    (placesOf ds false) (placesOf ds true) values)
  refine (hwrite.mono (fun _ _ h ↦ h) fun _ h ↦ (h₁.trans h).of_none).bind fun _ w₂ h₂ ↦ ?_
  refine (h₁.trans h₂).assign hown fun entry hentry ↦ ?_
  obtain ⟨d, hd, hentry⟩ := List.mem_filterMap.mp hentry
  exact hds d hd entry hentry

/-! ## Forms and pipelines -/

/-- The assignments among forms belong to a scope. -/
def Owns (own : Assignments) (s : ScopeId) (forms : List Form) : Prop :=
  ∀ span values targets, .assignment span values targets ∈ forms → own s span targets

theorem binds_evalForm (hgo : Runner.Keeps (Binds .none) go) (ctx : Context) {form : Form}
    (hown : Owns own ctx.scope [form]) : Act.Keeps (Binds own) (evalForm go ctx form) := by
  cases form with
  | command span head arguments redirections =>
    exact keeps_none (keeps_command hgo ctx span head arguments redirections)
  | assignment span values targets =>
    exact binds_assignment hgo ctx span values targets (hown span values targets (by simp))

/-- The stages of a pipeline run in forks of its context, and bind names in the scope of it. -/
theorem binds_evalPipeline (hgo : Runner.Keeps (Binds .none) go) (ctx : Context)
    {forms : List Form} (hown : Owns own ctx.scope forms) :
    Act.Keeps (Binds own) (evalPipeline go ctx forms) := by
  refine keeps_evalPipeline fun form hform ctx' halike ↦ binds_evalForm hgo ctx' ?_
  intro span values targets hmem
  rw [halike.scope]
  exact hown span values targets (List.mem_singleton.mp hmem ▸ hform)

theorem binds_evalBlock (hgo : Runner.Keeps (Binds .none) go) (ctx : Context) (block : Code.Block)
    (hown : ∀ forms ∈ block.pipelines, Owns own ctx.scope forms) :
    Act.Keeps (Binds own) (evalBlock go ctx block) :=
  keeps_evalPipelines fun forms hforms ↦ binds_evalPipeline hgo ctx (hown forms hforms)

/-! ## Requests -/

/-- A body that runs in a scope of its own binds nothing in the scopes that were there before. -/
theorem binds_ownScope (hgo : Runner.Keeps (Binds .none) go) (body : Context) (code : Code.Block)
    (w : World) (hscope : w.scopes.size ≤ body.scope) :
    Act.Keeps (ReachedFrom (Binds .none) w) (evalBlock go body code) := by
  intro w₁ hbefore
  have hbody : Act.Keeps (Binds fun id _ _ ↦ id = body.scope) (evalBlock go body code) :=
    binds_evalBlock hgo body code fun forms _ span values targets _ ↦ rfl
  refine (hbefore.of_none.trans (hbody w₁)).outside fun id span targets hid ↦ ?_
  rw [hid]
  exact hscope

theorem binds_bindParameters (w : World) {scope : ScopeId} (hscope : w.scopes.size ≤ scope)
    (names : List Bytes) (values : List Value) :
    Act.Keeps (ReachedFrom (Binds .none) w) (bindParameters scope names values) := by
  induction names generalizing values with
  | nil => exact .pure _
  | cons name names ih =>
    cases values with
    | nil => exact .pure _
    | cons v values =>
      refine .bind (reachedFrom_of_keeps w (keeps_calm (Act.calm_kindOf v))) fun kind ↦
        .bind (.modify fun w' hbefore ↦ ?_) fun _ ↦ ih values
      have hnew : Binds .none w (w'.newVariable (.plain (some kind) v)).2 :=
        hbefore.trans (Persistent.calm (.newVariable w' (by simp)))
      exact hnew.define hscope name _

theorem reachedFrom_handles {α : Type} {act : Act α} (w : World) (h : act.Keeps Handles) :
    act.Keeps (ReachedFrom (Binds own) w) :=
  reachedFrom_of_keeps w (keeps_handles h)

/-- What starts with a new scope may bind names in it. -/
theorem binds_newScope_bind {β : Type} {next : ScopeId → Act β}
    (h : ∀ w : World, (next w.scopes.size).Keeps (ReachedFrom (Binds .none) w)) :
    Act.Keeps (Binds .none) (Act.change (fun w ↦ w.newScope {}) >>= next) :=
  fun w ↦ h w _ (.newScope {} w)

theorem reachedFrom_within {α : Type} {act : Act α} {w : World} (span : Span)
    (h : act.Keeps (ReachedFrom (Binds .none) w)) :
    (act.within span).Keeps (ReachedFrom (Binds .none) w) :=
  .within (fun w' span h ↦ h.trans (Mobile.move w' span)) h

/-- A closure call binds nothing in the scopes that were there before. -/
theorem binds_callClosure (hgo : Runner.Keeps (Binds .none) go) (ctx : Context) (c : Closure)
    (arguments : List Value) : Act.Keeps (Binds .none) (callClosure go ctx c arguments) := by
  unfold callClosure
  split
  · exact .raise _
  · refine binds_newScope_bind fun w ↦ .bind (binds_bindParameters w (Nat.le_refl _) _ _) fun _ ↦
      .bind (reachedFrom_handles w (.change fun w ↦ .forkEndpoints w _)) fun endpoints ↦
      .ensuring (reachedFrom_within _ (binds_ownScope hgo _ _ w (Nat.le_refl _))) fun w' h ↦ ?_
    exact h.trans (.of_handles (Context.handles_finish _ w'))

/-- A module is evaluated in a scope of its own. -/
theorem binds_runModule (hgo : Runner.Keeps (Binds .none) go) (ctx : Context)
    (name file text : Bytes) (chunk : Script.Chunk) (code : Code.Block) :
    Act.Keeps (Binds .none) (runModule go ctx name file text chunk code) := by
  unfold runModule
  refine binds_newScope_bind fun w ↦ .bind (reachedFrom_of_keeps w (keeps_newScope {})) fun outer ↦
    .bind (reachedFrom_handles w (.change fun w ↦ .forkEndpoints w _)) fun endpoints ↦
    .bind (.ensuring (reachedFrom_within _ (.attempt ?_)) fun w' h ↦ ?_) fun error ↦ ?_
  · exact binds_ownScope hgo _ _ w (Nat.le_refl _)
  · exact h.trans (.of_handles (Context.handles_drop _ w'))
  · split
    · exact .pure _
    · exact .raise _

/-- Requests bind nothing in the scopes that exist. -/
theorem binds_run (setup : Setup) (fuel : Nat) : Runner.Keeps (Binds .none) (run setup fuel) :=
  keeps_run (fun _ hgo ↦ keeps_captureOutput hgo) (fun _ hgo ↦ binds_callClosure hgo)
    (fun _ hgo ↦ binds_runModule hgo) setup fuel

end Eval

end Conduit
