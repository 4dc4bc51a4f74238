import Conduit.Proofs.Bindings
import Conduit.Proofs.Scoping

/-!
# Sound States

A closure is sound in a state if its body is scoped by its parameters, the names in the snapshot that
it holds and the builtin names.  Only closures from chunks in which every assignment stands alone in
its pipeline need to be sound.  A state is sound if every stored closure is and if the journal notes
no unqualified reference of such a chunk that led nowhere.

Soundness survives as long as scopes only gain names.
-/

namespace Conduit

/-! ## Names of scopes -/

namespace Scope

theorem mem_names_iff (scope : Scope) (name : Bytes) :
    name ∈ scope.names ↔ (scope.lookup name).isSome := by
  have hlookup : ∀ bindings : List (Bytes × VariableId),
      name ∈ bindings.map (·.1) ↔ (bindings.lookup name).isSome := by
    intro bindings
    induction bindings with
    | nil => simp
    | cons entry rest ih =>
      obtain ⟨key, value⟩ := entry
      by_cases h : name = key
      · simp [h]
      · simp only [List.map_cons, List.mem_cons, List.lookup_cons, beq_eq_false_iff_ne.mpr h, h,
          false_or, ih]
  exact hlookup scope.bindings

/-- The names of a snapshot are those of both scopes. -/
theorem lookup_merge (outer inner : Scope) (name : Bytes) :
    ((merge outer inner).lookup name).isSome ↔
      (inner.lookup name).isSome ∨ (outer.lookup name).isSome := by
  rw [← mem_names_iff inner, names, merge]
  induction inner.bindings generalizing outer with
  | nil => simp
  | cons entry rest ih =>
    rw [List.foldl_cons, ih, lookup_define, List.map_cons, List.mem_cons]
    by_cases h : name = entry.1
    · simp [h]
    · simp [h]

end Scope

namespace World

/-- A name is bound in a scope. -/
def Has (w : World) (id : ScopeId) (name : Bytes) : Prop := ((w.scope id).lookup name).isSome

/-- Scopes and the names in them have only become more. -/
structure Grows (w w' : World) : Prop where
  size_le : w.scopes.size ≤ w'.scopes.size
  has : ∀ id name, w.Has id name → w'.Has id name

namespace Grows

variable {w w' w'' : World}

protected theorem refl (w : World) : Grows w w := ⟨Nat.le_refl _, fun _ _ h ↦ h⟩

protected theorem trans (h : Grows w w') (h' : Grows w' w'') : Grows w w'' :=
  ⟨Nat.le_trans h.size_le h'.size_le, fun id name hn ↦ h'.has id name (h.has id name hn)⟩

theorem of_binds {own : Assignments} (h : Binds own w w') : Grows w w' := by
  refine ⟨h.size_le, fun id name hn ↦ ?_⟩
  obtain ⟨x, hx⟩ := Option.isSome_iff_exists.mp hn
  exact Option.isSome_iff_exists.mpr ⟨x, h.kept id name x hx⟩

theorem of_scopes (h : w'.scopes = w.scopes) : Grows w w' := by
  refine ⟨Nat.le_of_eq (congrArg Table.size h.symm), fun id name hn ↦ ?_⟩
  unfold Has World.scope at hn ⊢
  rw [h]
  exact hn

theorem newScope (scope : Scope) (w : World) : Grows w (w.newScope scope).2 :=
  have hbinds : Binds .none w (w.newScope scope).2 := .newScope scope w
  of_binds hbinds

theorem define (w : World) (scope : ScopeId) (name : Bytes) (x : VariableId) :
    Grows w (w.define scope name x) := by
  refine ⟨Nat.le_of_eq (Table.size_modify _ _ _).symm, fun id other hn ↦ ?_⟩
  unfold Has at hn ⊢
  rw [lookup_scope_define]
  split
  · rfl
  · exact hn

end Grows

theorem has_define {w : World} {scope : ScopeId} (h : scope < w.scopes.size) (name : Bytes)
    (x : VariableId) : (w.define scope name x).Has scope name := by
  unfold Has
  rw [lookup_scope_define, if_pos ⟨rfl, rfl, h⟩]
  rfl

end World

/-! ## Sound closures and states -/

open World (Grows Calm Handles)

/-- A name that a closure's body can see: a parameter, or one in the snapshot or among the
builtins. -/
def Closure.Sees (c : Closure) (w : World) (name : Bytes) : Prop :=
  name ∈ c.parameters ∨ w.Has c.captured name ∨ w.Has World.builtins name

/-- The body of the closure is scoped by what it sees, if it comes from a chunk for which this is
promised. -/
def Closure.Sound (c : Closure) (w : World) : Prop := c.chunk.Solo → c.body.Scoped (c.Sees w)

theorem Closure.Sound.grows {c : Closure} {w w' : World} (h : c.Sound w) (hw : Grows w w') :
    c.Sound w' := by
  refine fun hsolo ↦ (h hsolo).mono fun name hname ↦ ?_
  rcases hname with hname | hname | hname
  · exact .inl hname
  · exact .inr (.inl (hw.has _ _ hname))
  · exact .inr (.inr (hw.has _ _ hname))

/-- Every closure in the value is sound. -/
def Value.Sound (v : Value) (w : World) : Prop := ∀ c ∈ v.closures, c.Sound w

theorem Value.Sound.grows {v : Value} {w w' : World} (h : v.Sound w) (hw : Grows w w') :
    v.Sound w' :=
  fun c hc ↦ (h c hc).grows hw

namespace World

/-- The journal notes no unqualified reference of a chunk in which every assignment stands alone
that led nowhere. -/
def Resolved (w : World) : Prop :=
  ∀ chunk r, .unresolved chunk r ∈ w.journal → r.isPlain = true → ¬chunk.Solo

/-- Stored closures are sound, and what had to lead somewhere did. -/
structure Sound (w : World) : Prop where
  closures : ∀ c, w.Stores c → c.Sound w
  resolved : w.Resolved

namespace Sound

variable {w w' : World}

theorem calm {given : Closure → Prop} (h : w.Sound) (hcalm : Calm given w w')
    (hgiven : ∀ c, given c → c.Sound w) : w'.Sound where
  closures c hc := by
    have hgrows : Grows w w' := .of_scopes hcalm.scopes
    rcases hcalm.closures c hc with hc | hc
    · exact (h.closures c hc).grows hgrows
    · exact (hgiven c hc).grows hgrows
  resolved := by
    unfold Resolved
    rw [hcalm.journal]
    exact h.resolved

theorem handles (h : w.Sound) (hhandles : Handles w w') : w'.Sound where
  closures c hc := (h.closures c (hhandles.closures c hc)).grows (.of_scopes hhandles.scopes)
  resolved := by
    unfold Resolved
    rw [hhandles.journal]
    exact h.resolved

/-- Only scopes, modules and the span under evaluation differ. -/
theorem scopes (h : w.Sound) (hgrows : Grows w w') (hvars : w'.vars = w.vars)
    (hchannels : w'.channels = w.channels) (hjournal : w'.journal = w.journal) : w'.Sound where
  closures c hc := by
    unfold Stores at hc
    rw [hvars, hchannels] at hc
    exact (h.closures c hc).grows hgrows
  resolved := by
    unfold Resolved
    rw [hjournal]
    exact h.resolved

theorem note (h : w.Sound) {event : Event}
    (hevent : ∀ chunk r, event = .unresolved chunk r → r.isPlain = true → ¬chunk.Solo) :
    (w.note event).Sound where
  closures := h.closures
  resolved chunk r hmem := by
    rcases List.mem_append.mp hmem with hmem | hmem
    · exact h.resolved chunk r hmem
    · exact hevent chunk r (List.mem_singleton.mp hmem).symm

end Sound

end World

end Conduit
