import Conduit.Proofs.Lookup
import Conduit.Proofs.Persistent.Handling

/-!
# New Bindings

What may be bound is given by assignments: to each scope belong the spans and targets of the
assignment forms that may bind names in it.  From one state to a later one, bindings are only added,
a scope to which no assignment belongs is the same as before, and every name that is new in an
existing scope is a target of an assignment that belongs to it and that the journal notes as having
succeeded since.

A scope that came into being after the first state is not bound by this, so that a closure call,
which binds its parameters and local names in a scope of its own, adds nothing to what was there.
-/

namespace Conduit

open World (Calm Handles)

/-! ## Lookups -/

namespace Scope

theorem lookup_bind (name other : Bytes) (id : VariableId) (bindings : List (Bytes × VariableId)) :
    (bind name id bindings).lookup other = if other = name then some id else bindings.lookup other :=
  lookup_put (bind name id) rfl (fun _ _ ↦ rfl) bindings other

theorem lookup_define (scope : Scope) (name other : Bytes) (id : VariableId) :
    (scope.define name id).lookup other = if other = name then some id else scope.lookup other :=
  lookup_bind name other id scope.bindings

end Scope

namespace World

theorem scope_of_get? {w : World} {id : ScopeId} {scope : Scope}
    (h : w.scopes.get? id = some scope) : w.scope id = scope := by
  simp [World.scope, h]

theorem scope_newScope (w : World) (scope : Scope) (id : ScopeId) :
    (w.newScope scope).2.scope id = if id = w.scopes.size then scope else w.scope id := by
  change ((w.scopes.push scope).get? id).getD {} = _
  rcases Nat.lt_trichotomy id w.scopes.size with hlt | heq | hgt
  · rw [Table.get?_push_of_lt hlt, if_neg (Nat.ne_of_lt hlt)]
    rfl
  · rw [heq, Table.get?_push_size, if_pos rfl]
    rfl
  · rw [Table.get?_eq_none_of_le (by rw [Table.size_push]; exact hgt), if_neg (Nat.ne_of_gt hgt), World.scope,
      Table.get?_eq_none_of_le (Nat.le_of_lt hgt)]

/-- A scope that does not exist binds nothing, so a new empty one binds nothing new. -/
theorem scope_newScope_empty (w : World) (id : ScopeId) :
    (w.newScope {}).2.scope id = w.scope id := by
  rw [scope_newScope]
  split
  · rename_i heq
    rw [heq, World.scope, Table.get?_eq_none_of_le (Nat.le_refl _)]
    rfl
  · rfl

/-- What is bound in a scope that is extended elsewhere, or under another name, stays. -/
theorem lookup_scope_define (w : World) (scope : ScopeId) (name : Bytes) (x : VariableId)
    (id : ScopeId) (other : Bytes) :
    ((w.define scope name x).scope id).lookup other =
      if scope = id ∧ other = name ∧ scope < w.scopes.size then some x
      else (w.scope id).lookup other := by
  have hget : (w.define scope name x).scopes.get? id =
      if scope = id then (w.scopes.get? id).map fun s ↦ s.define name x else w.scopes.get? id :=
    Table.get?_modify _ _ _ _
  unfold World.scope
  rw [hget]
  by_cases hid : scope = id
  · subst hid
    rcases hs : w.scopes.get? scope with _ | s
    · have hle : ¬scope < w.scopes.size := by
        intro hlt
        obtain ⟨s, hs'⟩ := Table.exists_get?_of_lt hlt
        rw [hs] at hs'
        cases hs'
      simp [hle]
    · simp [Table.lt_size_of_get? hs, Scope.lookup_define]
  · simp [hid]

theorem module?_register (name other : Bytes) (id : ScopeId) (w : World) :
    (Eval.register name id w).module? other = if other = name then some id else w.module? other := by
  unfold module? Eval.register
  rw [List.lookup_cons, lookup_erase]
  by_cases hother : other = name
  · simp [hother]
  · simp [hother, beq_eq_false_iff_ne.mpr hother]

/-! ## The relation -/

/-- Which assignments, by their spans and targets, may bind names in which scope. -/
abbrev Assignments := ScopeId → Span → List Target → Prop

/-- No assignments in any scope. -/
def Assignments.none : Assignments := fun _ _ _ ↦ False

/-- Bindings are only added, and only by assignments that belong to the scope and have succeeded;
modules that are registered stay registered. -/
structure Binds (own : Assignments) (w w' : World) : Prop where
  modules : ∀ name id, w.module? name = some id → w'.module? name = some id
  same : ∀ id scope, (∀ span targets, ¬own id span targets) →
    w.scopes.get? id = some scope → w'.scopes.get? id = some scope
  kept : ∀ id name x, (w.scope id).lookup name = some x → (w'.scope id).lookup name = some x
  size_le : w.scopes.size ≤ w'.scopes.size
  added : ∃ events, w'.journal = w.journal ++ events ∧
    ∀ id name, id < w.scopes.size → (w.scope id).lookup name = Option.none →
      (w'.scope id).lookup name ≠ Option.none →
        ∃ span targets, own id span targets ∧ .assigned id span targets ∈ events ∧
          name ∈ Code.newNames targets

namespace Binds

variable {own own' : Assignments} {w w' w'' : World}

/-- Nothing is bound where the scopes stay as they are. -/
theorem of_scopes (hscopes : w'.scopes = w.scopes) (hmodules : w'.modules = w.modules)
    (hjournal : ∃ events, w'.journal = w.journal ++ events) : Binds own w w' where
  modules name id h := by rwa [module?, hmodules]
  same id scope _ h := by rwa [hscopes]
  kept id name x h := by rwa [World.scope, hscopes]
  size_le := Nat.le_of_eq (congrArg Table.size hscopes.symm)
  added := by
    obtain ⟨events, hevents⟩ := hjournal
    refine ⟨events, hevents, fun id name _ hnone hsome ↦ absurd hnone ?_⟩
    rwa [World.scope, hscopes] at hsome

protected theorem refl (w : World) : Binds own w w := of_scopes rfl rfl ⟨[], by simp⟩

protected theorem trans (h : Binds own w w') (h' : Binds own w' w'') : Binds own w w'' where
  modules name id hid := h'.modules name id (h.modules name id hid)
  same id scope hown hid := h'.same id scope hown (h.same id scope hown hid)
  kept id name x hx := h'.kept id name x (h.kept id name x hx)
  size_le := Nat.le_trans h.size_le h'.size_le
  added := by
    obtain ⟨events, hevents, hadded⟩ := h.added
    obtain ⟨events', hevents', hadded'⟩ := h'.added
    refine ⟨events ++ events', by rw [hevents', hevents, List.append_assoc], ?_⟩
    intro id name hid hnone hsome
    by_cases hmid : (w'.scope id).lookup name = Option.none
    · obtain ⟨span, targets, hown, hevent, hname⟩ :=
        hadded' id name (Nat.lt_of_lt_of_le hid h.size_le) hmid hsome
      exact ⟨span, targets, hown, List.mem_append_right _ hevent, hname⟩
    · obtain ⟨span, targets, hown, hevent, hname⟩ := hadded id name hid hnone hmid
      exact ⟨span, targets, hown, List.mem_append_left _ hevent, hname⟩

theorem mono (h : Binds own w w') (hown : ∀ id span targets, own id span targets →
    own' id span targets) : Binds own' w w' where
  modules := h.modules
  same id scope hown' := h.same id scope fun span targets h ↦ hown' span targets (hown _ _ _ h)
  kept := h.kept
  size_le := h.size_le
  added := by
    obtain ⟨events, hevents, hadded⟩ := h.added
    refine ⟨events, hevents, fun id name hid hnone hsome ↦ ?_⟩
    obtain ⟨span, targets, h, hevent, hname⟩ := hadded id name hid hnone hsome
    exact ⟨span, targets, hown _ _ _ h, hevent, hname⟩

theorem of_none (h : Binds .none w w') : Binds own w w' := h.mono fun _ _ _ ↦ False.elim

/-- Assignments that belong to scopes which were not there do not matter. -/
theorem outside (h : Binds own w w')
    (hown : ∀ id span targets, own id span targets → w.scopes.size ≤ id) : Binds .none w w' where
  modules := h.modules
  same id scope _ hid := by
    refine h.same id scope (fun span targets howned ↦ ?_) hid
    exact Nat.not_lt.mpr (hown id span targets howned) (Table.lt_size_of_get? hid)
  kept := h.kept
  size_le := h.size_le
  added := by
    obtain ⟨events, hevents, hadded⟩ := h.added
    refine ⟨events, hevents, fun id name hid hnone hsome ↦ ?_⟩
    obtain ⟨span, targets, howned, -⟩ := hadded id name hid hnone hsome
    exact absurd hid (Nat.not_lt.mpr (hown id span targets howned))

theorem of_handles (h : Handles w w') : Binds own w w' :=
  of_scopes h.scopes h.modules ⟨[], by rw [h.journal, List.append_nil]⟩

theorem newScope (scope : Scope) (w : World) : Binds own w (w.newScope scope).2 where
  modules _ _ h := h
  same id s _ h := (Table.get?_push_of_lt (Table.lt_size_of_get? h)).trans h
  kept id name x h := by
    rw [scope_newScope, if_neg]
    · exact h
    · rintro rfl
      simp [World.scope, Table.get?_eq_none_of_le (Nat.le_refl _), Scope.lookup] at h
  size_le := by simp [World.newScope]
  added := by
    refine ⟨[], by simp [World.newScope], fun id name hid hnone hsome ↦ absurd hnone ?_⟩
    rwa [scope_newScope, if_neg (Nat.ne_of_lt hid)] at hsome

theorem note (event : Event) (w : World) : Binds own w (w.note event) :=
  of_scopes rfl rfl ⟨[event], rfl⟩

instance : Mobile (Binds own) where
  move w span := of_scopes rfl rfl ⟨[], by simp⟩

instance : Tolerant (Binds own) where
  refl := Binds.refl
  trans _ _ _ := Binds.trans
  calm h := of_scopes h.scopes h.modules ⟨[], by rw [h.journal, List.append_nil]⟩
  note event w _ := note event w
  newScope := newScope
  failedLoad name _ h := (note _ _).trans (h.trans (note _ _))
  load {w w'} name id hname h := by
    have hregistered : Binds own (w.note (.loadBegan name)) (Eval.register name id w') := by
      refine ⟨fun other id' hother ↦ ?_, h.same, h.kept, h.size_le, h.added⟩
      have hne : other ≠ name := by
        rintro rfl
        have hother : w.module? other = some id' := hother
        rw [hname] at hother
        cases hother
      rw [module?_register, if_neg hne]
      exact h.modules other id' hother
    exact (note _ w).trans (hregistered.trans (note _ _))
  handles := of_handles

end Binds

/-- Names may be bound at will in scopes that were not there. -/
theorem Binds.define {own : Assignments} {w w' : World} {s : ScopeId} (h : Binds own w w')
    (hs : w.scopes.size ≤ s) (name : Bytes) (x : VariableId) : Binds own w (w'.define s name x) where
  modules := h.modules
  same id scope hown hid := by
    have hne : s ≠ id := fun heq ↦ Nat.not_lt.mpr hs (heq ▸ Table.lt_size_of_get? hid)
    exact (Table.get?_modify _ _ _ _).trans ((if_neg hne).trans (h.same id scope hown hid))
  kept id name' y hy := by
    rcases hid : w.scopes.get? id with _ | scope
    · simp [World.scope, hid, Scope.lookup] at hy
    · have hne : s ≠ id := fun heq ↦ Nat.not_lt.mpr hs (heq ▸ Table.lt_size_of_get? hid)
      rw [lookup_scope_define, if_neg fun hdefined ↦ hne hdefined.1]
      exact h.kept id name' y hy
  size_le := Nat.le_trans h.size_le (Nat.le_of_eq (Table.size_modify _ _ _).symm)
  added := by
    obtain ⟨events, hevents, hadded⟩ := h.added
    refine ⟨events, hevents, fun id name' hid hnone hsome ↦ hadded id name' hid hnone ?_⟩
    have hne : s ≠ id := fun heq ↦ Nat.not_lt.mpr hs (heq ▸ hid)
    rwa [lookup_scope_define, if_neg fun hdefined ↦ hne hdefined.1] at hsome

/-! ## Binding created names -/

theorem get?_scopes_foldl_define (s id : ScopeId) (entries : List (Bytes × VariableId)) (w : World)
    (hid : id ≠ s) :
    (entries.foldl (fun w (name, x) ↦ w.define s name x) w).scopes.get? id = w.scopes.get? id := by
  induction entries generalizing w with
  | nil => rfl
  | cons entry rest ih =>
    rw [List.foldl_cons, ih]
    exact (Table.get?_modify _ _ _ _).trans (if_neg hid.symm)

theorem lookup_foldl_define (s : ScopeId) (name : Bytes) (entries : List (Bytes × VariableId))
    (w : World) (hname : ∀ entry ∈ entries, entry.1 ≠ name) :
    ((entries.foldl (fun w (name, x) ↦ w.define s name x) w).scope s).lookup name =
      (w.scope s).lookup name := by
  induction entries generalizing w with
  | nil => rfl
  | cons entry rest ih =>
    rw [List.foldl_cons, ih _ fun other hother ↦ hname other (by simp [hother]),
      lookup_scope_define, if_neg]
    rintro ⟨-, heq, -⟩
    exact hname entry (by simp) heq.symm

theorem lookup_foldl_define_of_ne {s id : ScopeId} (hid : id ≠ s) (name : Bytes)
    (entries : List (Bytes × VariableId)) (w : World) :
    ((entries.foldl (fun w (name, x) ↦ w.define s name x) w).scope id).lookup name =
      (w.scope id).lookup name := by
  rw [World.scope, get?_scopes_foldl_define s id entries w hid, ← World.scope]

/-- Defining names changes nothing but scopes, of which there are as many as before. -/
theorem foldl_define_eq (s : ScopeId) (entries : List (Bytes × VariableId)) (w : World) :
    ∃ scopes, entries.foldl (fun w (name, x) ↦ w.define s name x) w = { w with scopes } ∧
      scopes.size = w.scopes.size := by
  induction entries generalizing w with
  | nil => exact ⟨w.scopes, rfl, rfl⟩
  | cons entry rest ih =>
    obtain ⟨scopes, heq, hsize⟩ := ih (w.define s entry.1 entry.2)
    exact ⟨scopes, heq, hsize.trans (Table.size_modify _ _ _)⟩

/-- Steps that bind nothing leave every name of a scope to what it stood for. -/
theorem Binds.lookup_eq {w w' : World} {id : ScopeId} (h : Binds .none w w')
    (hid : id < w.scopes.size) (name : Bytes) :
    (w'.scope id).lookup name = (w.scope id).lookup name := by
  obtain ⟨scope, hscope⟩ := Table.exists_get?_of_lt hid
  rw [scope_of_get? hscope, scope_of_get? (h.same id scope (fun _ _ ↦ not_false) hscope)]

/-- After steps that bind nothing, an assignment that belongs to a scope binds names of its own in
it, which the scope did not have at the start. -/
theorem Binds.assign {own : Assignments} {w w' : World} {s : ScopeId} {span : Span}
    {targets : List Target} {entries : List (Bytes × VariableId)} (h : Binds .none w w')
    (hown : own s span targets)
    (hentries : ∀ entry ∈ entries, entry.1 ∈ Code.newNames targets ∧
      (w.scope s).lookup entry.1 = none) :
    Binds own w
      ((entries.foldl (fun w (name, x) ↦ w.define s name x) w').note
        (.assigned s span targets)) := by
  obtain ⟨hsize, hmodules, hjournal⟩ :
      (entries.foldl (fun w (name, x) ↦ w.define s name x) w').scopes.size = w'.scopes.size ∧
        (entries.foldl (fun w (name, x) ↦ w.define s name x) w').modules = w'.modules ∧
          (entries.foldl (fun w (name, x) ↦ w.define s name x) w').journal = w'.journal := by
    obtain ⟨scopes, heq, hsize⟩ := foldl_define_eq s entries w'
    rw [heq]
    exact ⟨hsize, rfl, rfl⟩
  obtain ⟨events, hevents, -⟩ := h.added
  refine ⟨fun name id hid ↦ ?_, fun id scope hnone hid ↦ ?_, fun id name x hx ↦ ?_, ?_,
    events ++ [.assigned s span targets], ?_, fun id name hid hnone hsome ↦ ?_⟩
  · exact (congrArg (List.lookup name) hmodules).trans (h.modules name id hid)
  · have hne : id ≠ s := by
      rintro rfl
      exact hnone span targets hown
    exact (get?_scopes_foldl_define s id entries w' hne).trans
      (h.same id scope (fun _ _ ↦ not_false) hid)
  · by_cases hs : id = s
    · subst hs
      refine (lookup_foldl_define id name entries w' fun entry hentry ↦ ?_).trans
        (h.kept id name x hx)
      rintro rfl
      rw [(hentries entry hentry).2] at hx
      cases hx
    · exact (lookup_foldl_define_of_ne hs name entries w').trans (h.kept id name x hx)
  · exact Nat.le_trans h.size_le (Nat.le_of_eq hsize.symm)
  · rw [← List.append_assoc, ← hevents, ← hjournal]
    rfl
  · by_cases hs : id = s
    · subst hs
      by_cases hname : ∃ entry ∈ entries, entry.1 = name
      · obtain ⟨entry, hentry, rfl⟩ := hname
        exact ⟨span, targets, hown, by simp, (hentries entry hentry).1⟩
      · refine absurd ?_ hsome
        refine (lookup_foldl_define id name entries w' fun entry hentry heq ↦ ?_).trans
          ((h.lookup_eq hid name).trans hnone)
        exact hname ⟨entry, hentry, heq⟩
    · refine absurd ?_ hsome
      exact (lookup_foldl_define_of_ne hs name entries w').trans ((h.lookup_eq hid name).trans hnone)

end World

end Conduit
