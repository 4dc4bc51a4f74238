import Mathlib.Data.List.Forall2
import Conduit.Proofs.Bindings.Evaluation
import Conduit.Proofs.Modules.Nesting

/-!
# Where Targets Lead

A target of an assignment leads to a variable that a name is bound to already, or it gets a new one.
Once a reference has led to a bound variable it leads to the same variable again, without a load:
nothing rebinds a name, and a module that has been loaded is registered.  The new variables are
bound at the end of the assignment, under names that differ from those of the other targets.  So
after the assignment each reference leads to the variable that has been written for it.

Up to the writes of an assignment, only the load of a module changes a variable that exists.
-/

namespace Conduit

open World (Loads)
open Event (begun)

namespace Act

theorem eq_of_pure {α : Type} {a b : α} {w w' : World} (h : (pure a : Act α) w = (.done b, w')) :
    a = b ∧ w = w' :=
  ⟨Outcome.done.inj (Prod.mk.inj h).1, (Prod.mk.inj h).2⟩

theorem Keeps.of_done {α : Type} {R : World → World → Prop} {act : Act α} {a : α} {w w' : World}
    (hact : Keeps R act) (h : act w = (.done a, w')) : R w w' := by
  have hw := hact w
  rwa [h] at hw

end Act

theorem exists_of_forall₂ {α β : Type} {R : α → β → Prop} {as : List α} {bs : List β} {a : α}
    (h : List.Forall₂ R as bs) (ha : a ∈ as) : ∃ b ∈ bs, R a b := by
  induction h with
  | nil => cases ha
  | cons hab _ ih =>
    rcases List.mem_cons.mp ha with rfl | ha
    · exact ⟨_, List.mem_cons_self, hab⟩
    · obtain ⟨b, hb, hab⟩ := ih ha
      exact ⟨b, List.mem_cons_of_mem _ hb, hab⟩

namespace Eval

open World (Binds)
open Act (done_of_bind)

variable {go : Runner} {ctx : Context} {w w' : World} {qualifier name : Bytes} {id : VariableId}

/-! ## References -/

theorem found_of_pure {found : Option VariableId}
    (h : (pure (found.map .bound) : Act (Option Place)) w = (.done (some (.bound id)), w')) :
    found = some id ∧ w = w' := by
  obtain ⟨hplace, hw⟩ := Act.eq_of_pure h
  obtain ⟨x, hx, ⟨⟩⟩ := Option.map_eq_some_iff.mp hplace
  exact ⟨hx, hw⟩

theorem environmentPlace_ne_bound (name : Bytes) (id : VariableId) :
    environmentPlace name ≠ .bound id := by
  unfold environmentPlace
  split
  · split <;> exact nofun
  · exact nofun

/-- A qualified name leads to a bound variable, and not through a module that is still to be
loaded. -/
inductive Reaches (ctx : Context) (w : World) (name : Bytes) : Bytes → VariableId → Prop where
  | inner {id : VariableId} (h : (w.scope ctx.scope).lookup name = some id) :
      Reaches ctx w name (utf8 "local") id
  | outer {id : VariableId} (h : (w.scope ctx.outer).lookup name = some id) :
      Reaches ctx w name (utf8 "up") id
  | builtin {id : VariableId} (h : (w.scope World.builtins).lookup name = some id) :
      Reaches ctx w name (utf8 "builtin") id
  | plain {id : VariableId} (h : findPlain ctx name w = some id) : Reaches ctx w name [] id
  | module {qualifier : Bytes} {scope : ScopeId} {id : VariableId}
      (hqualifier : namesModule qualifier = true) (hscope : w.module? qualifier = some scope)
      (h : (w.scope scope).lookup name = some id) : Reaches ctx w name qualifier id

namespace Reaches

theorem resolve_eq (h : Reaches ctx w name qualifier id) (go : Runner) :
    resolve go ctx qualifier name w = (.done (some (.bound id)), w) := by
  cases h with
  | inner h => rw [resolve_local, h, Option.map_some]
  | outer h =>
    change (Outcome.done (((w.scope ctx.outer).lookup name).map Place.bound), w) = _
    rw [h, Option.map_some]
  | builtin h =>
    change (Outcome.done (((w.scope World.builtins).lookup name).map Place.bound), w) = _
    rw [h, Option.map_some]
  | plain h => rw [resolve_plain, h, Option.map_some]
  | module hqualifier hscope h =>
    rw [resolve_registered go ctx hqualifier name hscope, h, Option.map_some]

/-- After a reference has led to a bound variable, it does so without a load. -/
theorem of_resolve (h : resolve go ctx qualifier name w = (.done (some (.bound id)), w')) :
    Reaches ctx w' name qualifier id := by
  unfold resolve at h
  rw [Act.world_bind] at h
  split at h
  · rename_i hlocal
    obtain ⟨hfound, rfl⟩ := found_of_pure h
    exact hlocal ▸ .inner hfound
  split at h
  · rename_i hup
    obtain ⟨hfound, rfl⟩ := found_of_pure h
    exact hup ▸ .outer hfound
  split at h
  · rename_i hbuiltin
    obtain ⟨hfound, rfl⟩ := found_of_pure h
    exact hbuiltin ▸ .builtin hfound
  split at h
  · rename_i hempty
    obtain ⟨hfound, rfl⟩ := found_of_pure h
    exact List.isEmpty_iff.mp hempty ▸ .plain hfound
  split at h
  · exact absurd (Option.some.inj (Act.eq_of_pure h).1) (environmentPlace_ne_bound name id)
  split at h
  · split at h <;> cases h
  · rename_i hlocal hup hbuiltin hempty henvironment hshared
    have hqualifier : namesModule qualifier = true := by
      simpa [namesModule, hlocal, hup, hbuiltin, hshared, henvironment] using hempty
    obtain ⟨_, w₁, -, h⟩ := done_of_bind h
    obtain ⟨hfound, rfl⟩ := found_of_pure h
    obtain ⟨scope, hscope, hlookup⟩ := Option.bind_eq_some_iff.mp hfound
    exact .module hqualifier hscope hlookup

/-- What matters is which modules are registered and what the name is bound to. -/
theorem transfer (h : Reaches ctx w name qualifier id)
    (hmodules : ∀ module scope, w.module? module = some scope → w'.module? module = some scope)
    (hinner : (w'.scope ctx.scope).lookup name = (w.scope ctx.scope).lookup name)
    (houter : (w'.scope ctx.outer).lookup name = (w.scope ctx.outer).lookup name)
    (hkept : ∀ scope x, (w.scope scope).lookup name = some x →
      (w'.scope scope).lookup name = some x) : Reaches ctx w' name qualifier id := by
  cases h with
  | inner h => exact .inner (hkept _ _ h)
  | outer h => exact .outer (hkept _ _ h)
  | builtin h => exact .builtin (hkept _ _ h)
  | plain h =>
    refine .plain ?_
    unfold findPlain at h ⊢
    rw [hinner, houter]
    split
    · rename_i hx
      rw [hx] at h
      exact h
    · rename_i hx
      rw [hx] at h
      dsimp only at h
      split
      · rename_i hy
        rw [hy] at h
        exact h
      · rename_i hy
        rw [hy] at h
        exact hkept _ _ h
  | module hqualifier hscope h => exact .module hqualifier (hmodules _ _ hscope) (hkept _ _ h)

/-- Where nothing is bound in the scopes of the context the reference leads where it did. -/
theorem later (h : Reaches ctx w name qualifier id) (hbinds : Binds .none w w')
    (hscope : ctx.scope < w.scopes.size) (houter : ctx.outer < w.scopes.size) :
    Reaches ctx w' name qualifier id := by
  have hsame : ∀ {scope : ScopeId}, scope < w.scopes.size → w'.scope scope = w.scope scope := by
    intro scope hlt
    obtain ⟨s, hs⟩ := Table.exists_get?_of_lt hlt
    rw [World.scope_of_get? (hbinds.same scope s (fun _ _ ↦ not_false) hs), World.scope_of_get? hs]
  exact h.transfer hbinds.modules (by rw [hsame hscope]) (by rw [hsame houter])
    fun scope x hx ↦ hbinds.kept scope name x hx

end Reaches

/-! ## Targets -/

/-- A target has been found and leads to a bound variable, or it has a new one. -/
inductive Found (ctx : Context) (w : World) (t : Target) : Destination → Prop where
  | bound {id : VariableId} (h : Reaches ctx w t.reference.name t.reference.qualifier id) :
      Found ctx w t ⟨.bound id, t.rest, none⟩
  | new (hlocal : t.reference.isLocal = true) (id : VariableId) :
      Found ctx w t ⟨.bound id, t.rest, some (t.reference.name, id)⟩

variable {t : Target} {d : Destination} {targets : List Target} {ds : List Destination}

theorem Found.rest (h : Found ctx w t d) : d.rest = t.rest := by
  cases h <;> rfl

theorem Found.later (h : Found ctx w t d) (hbinds : Binds .none w w')
    (hscope : ctx.scope < w.scopes.size) (houter : ctx.outer < w.scopes.size) :
    Found ctx w' t d := by
  cases h with
  | bound hreaches => exact .bound (hreaches.later hbinds hscope houter)
  | new hlocal id => exact .new hlocal id

theorem found_findTarget (h : findTarget go ctx t w = (.done d, w'))
    (hd : ∃ id, d.place = .bound id) : Found ctx w' t d := by
  obtain ⟨place, w₁, hresolve, h⟩ := done_of_bind h
  cases place with
  | some place =>
    obtain ⟨rfl, rfl⟩ := Act.eq_of_pure h
    obtain ⟨id, rfl⟩ := hd
    exact .bound (.of_resolve hresolve)
  | none =>
    dsimp only at h
    split at h
    · rename_i hlocal
      obtain ⟨id, w₂, -, h⟩ := done_of_bind h
      obtain ⟨rfl, rfl⟩ := Act.eq_of_pure h
      exact .new hlocal id
    · cases h

/-- Targets that all lead to variables lead there still when the last of them has been found. -/
theorem found_findTargets (hgo : Runner.Keeps (Binds .none) go) (hscope : ctx.scope < w.scopes.size)
    (houter : ctx.outer < w.scopes.size) (h : findTargets go ctx targets w = (.done ds, w'))
    (hds : ∀ d ∈ ds, ∃ id, d.place = .bound id) : List.Forall₂ (Found ctx w') targets ds := by
  induction targets generalizing w ds with
  | nil =>
    obtain ⟨rfl, -⟩ := Act.eq_of_pure h
    exact .nil
  | cons t rest ih =>
    obtain ⟨d, w₁, hfirst, h⟩ := done_of_bind h
    obtain ⟨others, w₂, hothers, h⟩ := done_of_bind h
    obtain ⟨rfl, rfl⟩ := Act.eq_of_pure h
    have hfirst' : Binds .none w w₁ := (keeps_findTarget (hgo.inContext ctx) t).of_done hfirst
    have hothers' : Binds .none w₁ w₂ :=
      (keeps_findTargets (hgo.inContext ctx) rest).of_done hothers
    have hscope₁ : ctx.scope < w₁.scopes.size := Nat.lt_of_lt_of_le hscope hfirst'.size_le
    have houter₁ : ctx.outer < w₁.scopes.size := Nat.lt_of_lt_of_le houter hfirst'.size_le
    have hfound := found_findTarget hfirst (hds d List.mem_cons_self)
    exact .cons (hfound.later hothers' hscope₁ houter₁)
      (ih hscope₁ houter₁ hothers fun d hd ↦ hds d (List.mem_cons_of_mem _ hd))

/-! ## Binding new variables -/

/-- The names of new variables are among the names of the targets, in order. -/
theorem sublist_created (h : List.Forall₂ (Found ctx w) targets ds) :
    ((ds.filterMap (·.created)).map Prod.fst).Sublist (targets.map (·.reference.name)) := by
  induction h with
  | nil => exact .slnil
  | cons hfound _ ih =>
    cases hfound with
    | bound _ => exact ih.cons _
    | new _ id => exact ih.cons_cons _

theorem lookup_scope_bindCreated {name : Bytes} (s scope : ScopeId)
    (hname : name ∉ (ds.filterMap (·.created)).map Prod.fst) :
    ((bindCreated s ds w).scope scope).lookup name = (w.scope scope).lookup name := by
  unfold bindCreated
  by_cases hs : scope = s
  · subst hs
    refine World.lookup_foldl_define scope name _ w fun entry hentry heq ↦ hname ?_
    exact List.mem_map.mpr ⟨entry, hentry, heq⟩
  · rw [World.scope, World.get?_scopes_foldl_define s scope _ w hs, ← World.scope]

/-- After entries with different names have been defined, each name is bound to its variable. -/
theorem lookup_foldl_define_mem {s : ScopeId} {entries : List (Bytes × VariableId)}
    {entry : Bytes × VariableId} (hs : s < w.scopes.size) (hentry : entry ∈ entries)
    (hnames : (entries.map Prod.fst).Nodup) :
    ((entries.foldl (fun w (name, x) ↦ w.define s name x) w).scope s).lookup entry.1 =
      some entry.2 := by
  induction entries generalizing w with
  | nil => cases hentry
  | cons first rest ih =>
    have hs' : s < (w.define s first.1 first.2).scopes.size :=
      Nat.lt_of_lt_of_eq hs (Table.size_modify _ _ _).symm
    obtain ⟨hfirst, hrest⟩ := List.nodup_cons.mp hnames
    rw [List.foldl_cons]
    rcases List.mem_cons.mp hentry with rfl | hentry
    · rw [World.lookup_foldl_define s entry.1 rest _ fun other hother heq ↦
        hfirst (List.mem_map.mpr ⟨other, hother, heq⟩), World.lookup_scope_define]
      exact if_pos ⟨rfl, rfl, hs⟩
    · exact ih hs' hentry hrest

/-- A target leads to the variable of a destination. -/
def Aims (ctx : Context) (w : World) (t : Target) (d : Destination) : Prop :=
  d.rest = t.rest ∧ ∃ id, d.place = .bound id ∧
    Reaches ctx w t.reference.name t.reference.qualifier id

theorem Aims.note (h : Aims ctx w t d) (event : Event) : Aims ctx (w.note event) t d := by
  obtain ⟨hrest, id, hplace, hreaches⟩ := h
  exact ⟨hrest, id, hplace, hreaches.transfer (fun _ _ h ↦ h) rfl rfl fun _ _ h ↦ h⟩

/-- Once the new variables are bound, each target leads to the variable that was found for it. -/
theorem aims_bindCreated (h : List.Forall₂ (Found ctx w) targets ds)
    (hscope : ctx.scope < w.scopes.size) (hnames : (targets.map (·.reference.name)).Nodup) :
    List.Forall₂ (Aims ctx (bindCreated ctx.scope ds w)) targets ds := by
  have hcreated : ((ds.filterMap (·.created)).map Prod.fst).Nodup :=
    hnames.sublist (sublist_created h)
  obtain ⟨hlength, hzip⟩ := List.forall₂_iff_zip.mp h
  have hunique : ∀ {t t' d d'}, (t, d) ∈ targets.zip ds → (t', d') ∈ targets.zip ds →
      t.reference.name = t'.reference.name → d = d' := by
    intro t t' d d' ht ht' heq
    have hmap : (targets.zip ds).map (fun entry ↦ entry.1.reference.name) =
        targets.map (·.reference.name) := by
      conv_rhs => rw [← List.map_fst_zip (Nat.le_of_eq hlength), List.map_map]
      rfl
    have hinjective := List.inj_on_of_nodup_map (hmap ▸ hnames) ht ht' heq
    exact congrArg Prod.snd hinjective
  refine List.forall₂_iff_zip.mpr ⟨hlength, fun {t d} hmem ↦ ⟨(hzip hmem).rest, ?_⟩⟩
  cases hzip hmem with
  | @bound id hreaches =>
    have hother : t.reference.name ∉ (ds.filterMap (·.created)).map Prod.fst := by
      intro hname
      obtain ⟨entry, hentry, hname⟩ := List.mem_map.mp hname
      obtain ⟨d', hd', hentry⟩ := List.mem_filterMap.mp hentry
      rw [← List.map_snd_zip (Nat.le_of_eq hlength.symm)] at hd'
      obtain ⟨⟨t', d'⟩, hmem', rfl⟩ := List.mem_map.mp hd'
      cases hzip hmem' with
      | bound _ => cases hentry
      | new _ id' =>
        obtain rfl := Option.some.inj hentry
        exact nomatch congrArg Destination.created (hunique hmem hmem' hname.symm)
    obtain ⟨scopes, heq, -⟩ := World.foldl_define_eq ctx.scope (ds.filterMap (·.created)) w
    refine ⟨id, rfl, hreaches.transfer (fun module scope hmodule ↦ ?_) ?_ ?_ fun scope x hx ↦ ?_⟩
    · unfold bindCreated
      rw [heq]
      exact hmodule
    · exact lookup_scope_bindCreated ctx.scope _ hother
    · exact lookup_scope_bindCreated ctx.scope _ hother
    · exact (lookup_scope_bindCreated ctx.scope scope hother).trans hx
  | new hlocal id =>
    have hd : (⟨.bound id, t.rest, some (t.reference.name, id)⟩ : Destination) ∈ ds :=
      (List.of_mem_zip hmem).2
    have hentry : (t.reference.name, id) ∈ ds.filterMap (·.created) :=
      List.mem_filterMap.mpr ⟨_, hd, rfl⟩
    have hlookup : ((bindCreated ctx.scope ds w).scope ctx.scope).lookup t.reference.name =
        some id :=
      lookup_foldl_define_mem hscope hentry hcreated
    refine ⟨id, rfl, ?_⟩
    rcases qualifier_of_isLocal hlocal with hqualifier | hqualifier <;> rw [hqualifier]
    · refine .plain ?_
      unfold findPlain
      rw [hlookup]
    · exact .inner hlookup

end Eval

/-! ## Before the writes -/

/-- Events have been added, and unless a module has been loaded every variable is as it was. -/
def World.Spares (w w' : World) : Prop :=
  ∃ events, w'.journal = w.journal ++ events ∧
    (begun events = [] → ∀ id x, w.vars.get? id = some x → w'.vars.get? id = some x)

namespace World.Spares

theorem of_vars {w w' : World} {events : List Event} (hjournal : w'.journal = w.journal ++ events)
    (hvars : w'.vars = w.vars) : Spares w w' :=
  ⟨events, hjournal, fun _ id x hx ↦ by rwa [hvars]⟩

theorem of_same {w w' : World} (hjournal : w'.journal = w.journal) (hvars : w'.vars = w.vars) :
    Spares w w' :=
  ⟨[], by rw [hjournal, List.append_nil], fun _ id x hx ↦ by rwa [hvars]⟩

instance : Std.Refl Spares := ⟨fun _ ↦ of_same rfl rfl⟩

instance : IsTrans World Spares where
  trans w w' w'' := by
    rintro ⟨events, hevents, hvars⟩ ⟨events', hevents', hvars'⟩
    refine ⟨events ++ events', by rw [hevents', hevents, List.append_assoc],
      fun hbegun id x hx ↦ ?_⟩
    rw [Event.begun_append, List.append_eq_nil_iff] at hbegun
    exact hvars' hbegun.2 id x (hvars hbegun.1 id x hx)

end World.Spares

namespace Eval

open World (Spares)

/-- Whoever carries out requests changes variables only where a module is loaded. -/
def Runner.Spares (go : Runner) : Prop :=
  ∀ ctx name w, w.module? name = none → World.Spares w (go (.load ctx name) w).2

theorem spares_run (setup : Setup) (fuel : Nat) : (run setup fuel).Spares := by
  intro ctx name w _
  cases fuel with
  | zero => exact refl_of World.Spares w
  | succ fuel =>
    change World.Spares w (loadModule setup (run setup fuel) ctx name w).2
    unfold loadModule
    split
    · exact refl_of World.Spares w
    · have hrun : Runner.Keeps Loads (run setup fuel) := keeps_requests setup fuel
      have hbody :
          (loadFile setup (run setup fuel) ctx name).Leads (w.note (.loadBegan name)) _ _ :=
        leads_loadFile (keeps_runModule hrun ctx) name _
      have hjournal : ∃ events, (loadFile setup (run setup fuel) ctx name
          (w.note (.loadBegan name))).2.journal = (w.note (.loadBegan name)).journal ++ events := by
        refine (hbody.mono (fun _ w' h ↦ ?_) fun w' h ↦ ?_).state (P := fun w' ↦
          ∃ events, w'.journal = (w.note (.loadBegan name)).journal ++ events)
        · obtain ⟨id, evaluated, ⟨events, hevents, -⟩, rfl⟩ := h
          exact ⟨events, hevents⟩
        · obtain ⟨events, hevents, -⟩ := h
          exact ⟨events, hevents⟩
      obtain ⟨events, hevents⟩ := hjournal
      refine ⟨_, Loads.journal_around hevents, fun hbegun ↦ ?_⟩
      rw [Event.begun_around] at hbegun
      cases hbegun

theorem spares_resolve (hgo : go.Spares) (ctx : Context) (qualifier name : Bytes) :
    (resolve go ctx qualifier name).Keeps Spares := by
  unfold resolve
  refine .bind .world fun w ↦ ?_
  iterate 5
    split
    · exact .pure _
  split
  · split
    · exact .pure _
    · exact .raise _
  · refine .bind ?_ fun _ ↦ .bind .world fun _ ↦ .pure _
    unfold use
    refine .worldBind fun w ↦ ?_
    split
    · rename_i hname
      exact hgo ctx qualifier w (Option.isNone_iff_eq_none.mp hname)
    · exact refl_of Spares w

theorem spares_note (event : Event) : (Act.modify (World.note event)).Keeps Spares :=
  .modify fun _ ↦ .of_vars rfl rfl

theorem spares_beginForm (span : Span) : (beginForm span).Keeps Spares :=
  .modify fun _ ↦ .of_vars rfl rfl

theorem spares_evalVariable (hgo : go.Spares) (ctx : Context) (span : Span) (splice : Bool)
    (r : Reference) : (evalVariable go ctx span splice r).Keeps Spares := by
  unfold evalVariable
  refine .bind (spares_resolve hgo ctx _ _) fun place ↦ ?_
  split
  · exact .bind (spares_note _) fun _ ↦ .raise _
  · refine .bind (fun w ↦ ?_) fun value ↦ ?_
    · exact Act.Keeps.ofExcept _ w
    · split
      · split
        · exact .pure _
        · exact .halt _
        · exact .raise _
      · exact .pure _

mutual

theorem spares_evalExpr (hgo : go.Spares) (ctx : Context) :
    ∀ e : Code.Expr, (evalExpr go ctx e).Keeps Spares
  | .text text => by
    unfold evalExpr
    exact .pure _
  | .variable span splice r => by
    unfold evalExpr
    exact spares_evalVariable hgo ctx span splice r
  | .list items => by
    unfold evalExpr
    exact .bind (spares_evalExprs hgo ctx items) fun _ ↦ .pure _
  | .lambda parameters body => by
    unfold evalExpr
    exact .bind (.change fun w ↦ .of_same rfl rfl) fun _ ↦ .pure _

theorem spares_evalExprs (hgo : go.Spares) (ctx : Context) :
    ∀ es : List Code.Expr, (evalExprs go ctx es).Keeps Spares
  | [] => by
    unfold evalExprs
    exact .pure _
  | e :: rest => by
    unfold evalExprs
    exact .bind (spares_evalExpr hgo ctx e) fun _ ↦
      .bind (spares_evalExprs hgo ctx rest) fun _ ↦ .pure _

end

theorem spares_findTargets (hgo : go.Spares) (ctx : Context) (targets : List Target) :
    (findTargets go ctx targets).Keeps Spares := by
  induction targets with
  | nil => exact .pure _
  | cons t rest ih =>
    refine .bind ?_ fun _ ↦ .bind ih fun _ ↦ .pure _
    refine .bind (spares_resolve hgo ctx _ _) fun place ↦ ?_
    split
    · exact .pure _
    · split
      · refine .bind (.change fun w ↦ ⟨[], by simp [World.newVariable], fun _ id x hx ↦ ?_⟩)
          fun _ ↦ .pure _
        exact (Table.get?_push_of_lt (Table.lt_size_of_get? hx)).trans hx
      · exact .raise _

end Eval

end Conduit
