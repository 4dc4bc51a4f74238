import Conduit.Proofs.Bindings.Evaluation
import Conduit.Proofs.Scoping.Evaluation
import Conduit.Proofs.Splitting.Compiling

/-!
# Names that a Run Brings

When pipelines of one form each have all succeeded, the names bound in the scope of their context
are those that were bound before and those that the assignments among the forms bring.  A name that
an assignment brings may have been found in the scope outside or among the builtins instead, so the
builtins have to be counted in.
-/

namespace Conduit.Eval

open World (Binds Grows)
open Act (done_of_bind)

variable {go : Runner} {ctx : Context} {w w' : World}

/-! ## What an assignment brings -/

/-- A local target that has been found is seen already, or has a new variable to be bound to its
name. -/
theorem findTarget_brings {t : Target} {d : Destination} (hlocal : t.reference.isLocal = true)
    (h : findTarget go ctx t w = (.done d, w')) :
    ctx.Sees w t.reference.name ∨ ∃ entry ∈ d.created, entry.1 = t.reference.name := by
  obtain ⟨place, w₁, hplace, h⟩ := done_of_bind h
  have hseen : place ≠ none → ctx.Sees w t.reference.name := by
    intro hsome
    rcases qualifier_of_isLocal hlocal with hq | hq
    · rw [hq, resolve_plain] at hplace
      cases hplace
      rw [Option.ne_none_iff_isSome, Option.isSome_map] at hsome
      exact hsome
    · rw [hq, resolve_local] at hplace
      cases hplace
      rw [Option.ne_none_iff_isSome, Option.isSome_map] at hsome
      exact (ctx.sees_iff w _).mpr (.inl hsome)
  cases place with
  | some place => exact .inl (hseen nofun)
  | none =>
    dsimp only at h
    rw [if_pos hlocal] at h
    cases h
    exact .inr ⟨_, rfl, rfl⟩

/-- Each name that the targets may bind is seen or is to be bound to a new variable. -/
theorem findTargets_brings (hgo : Runner.Keeps (Binds .none) go) {targets : List Target}
    {ds : List Destination} (h : findTargets go ctx targets w = (.done ds, w')) :
    ∀ name ∈ Code.newNames targets,
      ctx.Sees w' name ∨ ∃ entry ∈ ds.filterMap (·.created), entry.1 = name := by
  induction targets generalizing ds w with
  | nil => exact nofun
  | cons t rest ih =>
    obtain ⟨d, w₁, hfirst, h⟩ := done_of_bind h
    obtain ⟨others, w₂, hothers, h⟩ := done_of_bind h
    cases h
    have hgrows : Grows w w' := by
      have hfirst' : Binds .none w w₁ := by
        have hkeeps := keeps_findTarget (hgo.inContext ctx) t w
        rwa [hfirst] at hkeeps
      have hothers' : Binds .none w₁ w' := by
        have hkeeps := keeps_findTargets (hgo.inContext ctx) rest w₁
        rwa [hothers] at hkeeps
      exact .of_binds (hfirst'.trans hothers')
    intro name hname
    rw [Code.newNames, List.filter_cons] at hname
    have hcases : (t.reference.isLocal = true ∧ t.reference.name = name) ∨
        name ∈ Code.newNames rest := by
      split at hname
      · exact (List.mem_cons.mp hname).imp (fun h ↦ ⟨‹_›, h.symm⟩) id
      · exact .inr hname
    rcases hcases with ⟨hlocal, rfl⟩ | hname
    · rcases findTarget_brings hlocal hfirst with hsees | ⟨entry, hentry, heq⟩
      · exact .inl (hsees.grows hgrows)
      · exact .inr ⟨entry, List.mem_filterMap.mpr ⟨d, List.mem_cons_self, hentry⟩, heq⟩
    · rcases ih hothers name hname with hsees | ⟨entry, hentry, heq⟩
      · exact .inl hsees
      · obtain ⟨d', hd', hcreated⟩ := List.mem_filterMap.mp hentry
        have hmem : entry ∈ (d :: others).filterMap (·.created) :=
          List.mem_filterMap.mpr ⟨d', List.mem_cons_of_mem _ hd', hcreated⟩
        exact .inr ⟨entry, hmem, heq⟩

/-- What a form brings is seen once it has succeeded. -/
theorem evalForm_brings (hgo : Runner.Keeps (Binds .none) go) {form : Code.Form}
    (hs : ctx.scope < w.scopes.size) (h : evalForm go ctx form w = (.done (), w')) :
    ∀ name ∈ form.brings, ctx.Sees w' name := by
  cases form with
  | command span head arguments redirections => exact nofun
  | assignment span values targets =>
    unfold evalForm at h
    obtain ⟨_, w₁, hbegin, h⟩ := done_of_bind h
    obtain ⟨vs, w₂, hvalues, h⟩ := done_of_bind h
    obtain ⟨ds, w₃, htargets, h⟩ := done_of_bind h
    obtain ⟨_, w₄, hwrite, h⟩ := done_of_bind h
    have hbefore : Binds .none w w₃ := by
      have h₁ := keeps_beginForm (R := Binds .none) span w
      have h₂ := keeps_evalExprs (hgo.inContext ctx) values w₁
      have h₃ := keeps_findTargets (hgo.inContext ctx) targets w₂
      rw [hbegin] at h₁
      rw [hvalues] at h₂
      rw [htargets] at h₃
      exact (h₁.trans h₂).trans h₃
    have hwritten : Binds .none w₃ w₄ := by
      have h₄ := keeps_distribute (R := Binds .none) (placesOf ds false) (placesOf ds true) vs w₃
      rwa [hwrite] at h₄
    obtain rfl : (bindCreated ctx.scope ds w₄).note (.assigned ctx.scope span targets) = w' := by
      cases h
      rfl
    have hbound : Grows w₄ (bindCreated ctx.scope ds w₄) := grows_foldl_define _ _ w₄
    have hnoted : Grows (bindCreated ctx.scope ds w₄)
        ((bindCreated ctx.scope ds w₄).note (.assigned ctx.scope span targets)) := .of_scopes rfl
    intro name hname
    rcases findTargets_brings hgo htargets name hname with hseen | ⟨entry, hentry, rfl⟩
    · exact hseen.grows (((Grows.of_binds hwritten).trans hbound).trans hnoted)
    · have hscope : ctx.scope < w₄.scopes.size :=
        Nat.lt_of_lt_of_le hs (hbefore.trans hwritten).size_le
      exact (ctx.sees_iff _ _).mpr (.inl (has_foldl_define hscope hentry))

/-! ## What pipelines of one form bring -/

theorem grows_evalPipelines (hgo : Runner.Keeps (Binds .none) go) (ctx : Context)
    (pipelines : List (List Code.Form)) : (evalPipelines go ctx pipelines).Keeps Grows := by
  have hbinds : (evalPipelines go ctx pipelines).Keeps (Binds fun _ _ _ ↦ True) :=
    keeps_evalPipelines fun forms _ ↦ binds_evalPipeline hgo ctx fun _ _ _ _ ↦ trivial
  exact hbinds.mono fun _ _ ↦ Grows.of_binds

/-- Whatever the forms bring is seen once all of them have succeeded. -/
theorem evalPipelines_brings (hgo : Runner.Keeps (Binds .none) go)
    {pipelines : List (List Code.Form)} (hsingle : ∀ forms ∈ pipelines, ∃ form, forms = [form])
    (hs : ctx.scope < w.scopes.size) (h : evalPipelines go ctx pipelines w = (.done (), w')) :
    ∀ forms ∈ pipelines, ∀ name ∈ Code.broughtBy forms, ctx.Sees w' name := by
  induction pipelines generalizing w with
  | nil => exact nofun
  | cons first rest ih =>
    obtain ⟨form, rfl⟩ := hsingle first List.mem_cons_self
    obtain ⟨_, w₁, hcheck, h⟩ := done_of_bind h
    obtain ⟨_, w₂, hform, hrest⟩ := done_of_bind h
    have hchecked : Binds .none w w₁ := by
      have hkeeps := Act.Keeps.checkInterrupt (R := Binds .none) w
      rwa [hcheck] at hkeeps
    have hs₁ : ctx.scope < w₁.scopes.size := Nat.lt_of_lt_of_le hs hchecked.size_le
    have hs₂ : ctx.scope < w₂.scopes.size := by
      have hkeeps : Binds (fun _ _ _ ↦ True) w₁ (evalForm go ctx form w₁).2 :=
        binds_evalForm hgo ctx (fun _ _ _ _ ↦ trivial) w₁
      rw [evalPipeline] at hform
      rw [hform] at hkeeps
      exact Nat.lt_of_lt_of_le hs₁ hkeeps.size_le
    have hgrows : Grows w₂ w' := by
      have hkeeps := grows_evalPipelines hgo ctx rest w₂
      rwa [hrest] at hkeeps
    intro forms hforms name hname
    rcases List.mem_cons.mp hforms with rfl | hforms
    · exact (evalForm_brings hgo hs₁ hform name hname).grows hgrows
    · exact ih (fun forms hforms ↦ hsingle forms (List.mem_cons_of_mem _ hforms)) hs₂ hrest forms
        hforms name hname

/-- After pipelines of one form at the top level, the global and builtin names are those from before
and those that the forms bring. -/
theorem sameGiven_of_done (hgo : Runner.Keeps (Binds .none) go)
    {pipelines : List (List Code.Form)} (hsingle : ∀ forms ∈ pipelines, ∃ form, forms = [form])
    (h : evalPipelines go ctx pipelines w = (.done (), w')) (hscope : ctx.scope = World.globals)
    (hsize : World.builtins < w.scopes.size) (houter : w.scopes.get? ctx.outer = some {})
    (hapart : ctx.outer ≠ World.globals) :
    w'.scope World.builtins = w.scope World.builtins ∧
      Code.SameGiven (w.scope World.builtins).names
        (Code.namesAfter (w.scope World.globals).names pipelines)
        (w'.scope World.globals).names := by
  let own : World.Assignments := fun id span targets ↦
    id = World.globals ∧ ∃ forms ∈ pipelines, ∃ values, .assignment span values targets ∈ forms
  have hbinds : Binds own w w' := by
    have hkeeps : (evalPipelines go ctx pipelines).Keeps (Binds own) :=
      keeps_evalPipelines fun forms hforms ↦ binds_evalPipeline hgo ctx
        fun span values targets hmem ↦ ⟨hscope, forms, hforms, values, hmem⟩
    have hend := hkeeps w
    rwa [h] at hend
  have hglobals : World.globals < w.scopes.size := Nat.lt_of_le_of_lt (Nat.zero_le _) hsize
  have hsame : ∀ id, id ≠ World.globals → id < w.scopes.size → w'.scope id = w.scope id := by
    intro id hid hlt
    obtain ⟨scope, hget⟩ := Table.exists_get?_of_lt hlt
    have hkept := hbinds.same id scope (fun _ _ hown ↦ hid hown.1) hget
    rw [World.scope_of_get? hkept, World.scope_of_get? hget]
  have hbuiltins : w'.scope World.builtins = w.scope World.builtins :=
    hsame World.builtins (by decide) hsize
  have hblank : ∀ name, ¬w'.Has ctx.outer name := by
    intro name hname
    rw [World.Has, hsame ctx.outer hapart (Table.lt_size_of_get? houter),
      World.scope_of_get? houter] at hname
    cases hname
  refine ⟨hbuiltins, fun name ↦ ?_⟩
  unfold Code.Given
  rw [Code.mem_namesAfter, Scope.mem_names_iff, Scope.mem_names_iff, Scope.mem_names_iff]
  constructor
  · rintro (hname | hname)
    · exact .inl hname
    · by_cases hbefore : (w.scope World.globals).lookup name = none
      · obtain ⟨events, -, hadded⟩ := hbinds.added
        obtain ⟨span, targets, ⟨-, forms, hforms, values, hmem⟩, -, hnew⟩ :=
          hadded World.globals name hglobals hbefore (Option.isSome_iff_ne_none.mp hname)
        obtain ⟨form, rfl⟩ := hsingle forms hforms
        rw [List.mem_singleton] at hmem
        exact .inr (.inl ⟨[form], hforms, hmem ▸ hnew⟩)
      · exact .inr (.inr (Option.isSome_iff_ne_none.mpr hbefore))
  · have hgrows : Grows w w' := .of_binds hbinds
    rintro (hname | ⟨forms, hforms, hname⟩ | hname)
    · exact .inl hname
    · have hseen := evalPipelines_brings hgo hsingle (hscope ▸ hglobals) h forms hforms name hname
      rw [ctx.sees_iff, hscope, World.Has, World.Has, World.Has, hbuiltins] at hseen
      rcases hseen with hseen | hseen | hseen
      · exact .inr hseen
      · exact absurd hseen (hblank name)
      · exact .inl hseen
    · exact .inr (hgrows.has _ _ hname)

end Conduit.Eval
