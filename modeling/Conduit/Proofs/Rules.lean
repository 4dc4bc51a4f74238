import Conduit.Proofs.Bindings
import Conduit.Proofs.Quiet
import Conduit.Proofs.Spans

/-!
# Rules for Texts, Spans and Values

Rules hold from a moment on.  They say which spans the code of a text may carry, in which texts code
may stand and on which spans an error may be blamed after some events, and whether a value may be
absent.  A state is lawful if every closure in it stands in a text that is known and carries spans
that fit the text, if no value in it is absent or has an absent part unless this is allowed, if every
variable that holds a value is of the kind of that value, and if every bound variable holds one.

States develop onward: events are added to the journal, and a variable that is held to a kind stays
held to it.
-/

namespace Conduit

/-- What code and values have to comply with, from a moment on. -/
structure Rules where
  /-- What has been noted before the moment. -/
  past : List Event
  /-- The code of a text may carry the span. -/
  fits : Bytes → Span → Prop
  /-- After the events, code may stand in the text. -/
  known : List Event → Bytes → Prop
  /-- After the events, an error may be blamed on the span. -/
  blames : List Event → Span → Prop
  /-- Values may be absent. -/
  absent : Prop
  fits_whole : ∀ text, fits text ⟨0, text.length⟩
  known_append : ∀ {journal text} events, known journal text → known (journal ++ events) text
  known_body : ∀ {journal} name text, past <+: journal → known (journal ++ [.bodyBegan name text]) text
  blames_append : ∀ {journal span} events, blames journal span → blames (journal ++ events) span
  blames_fits : ∀ {journal text span}, known journal text → fits text span → blames journal span

/-! ## Values -/

namespace Value

mutual

/-- The value is not absent, and neither is a part of it at any depth. -/
def Solid : Value → Prop
  | .absent => False
  | .text _ => True
  | .list items => itemsSolid items
  | .fn _ => True

def itemsSolid : List Value → Prop
  | [] => True
  | v :: rest => v.Solid ∧ itemsSolid rest

end

theorem itemsSolid_iff {items : List Value} : itemsSolid items ↔ ∀ v ∈ items, v.Solid := by
  induction items with
  | nil => simp [itemsSolid]
  | cons v rest ih => simp [itemsSolid, ih]

theorem solid_list {items : List Value} : (list items).Solid ↔ ∀ v ∈ items, v.Solid := by
  rw [Solid, itemsSolid_iff]

end Value

/-- The closure stands in a text that is known, and its body carries spans that fit the text. -/
structure Closure.Obeys (T : Rules) (journal : List Event) (c : Closure) : Prop where
  known : T.known journal c.text
  fits : ∀ span ∈ c.body.spans, T.fits c.text span

/-- The closures in the value obey the rules, and no part of it is absent unless this is allowed. -/
structure Value.Obeys (T : Rules) (journal : List Event) (v : Value) : Prop where
  closures : ∀ c ∈ v.closures, c.Obeys T journal
  solid : T.absent ∨ v.Solid

variable {T : Rules} {journal : List Event}

namespace Value

theorem obeys_text (content : Bytes) : (text content).Obeys T journal where
  closures := by simp
  solid := .inr (by simp [Solid])

theorem obeys_list {items : List Value} :
    (list items).Obeys T journal ↔ ∀ v ∈ items, v.Obeys T journal := by
  constructor
  · intro h v hv
    refine ⟨fun c hc ↦ h.closures c ?_, h.solid.imp_right fun hsolid ↦ solid_list.mp hsolid v hv⟩
    rw [closures_list, mem_closuresOf]
    exact ⟨v, hv, hc⟩
  · intro h
    refine ⟨fun c hc ↦ ?_, ?_⟩
    · rw [closures_list, mem_closuresOf] at hc
      obtain ⟨v, hv, hcv⟩ := hc
      exact (h v hv).closures c hcv
    · by_cases habsent : T.absent
      · exact .inl habsent
      · exact .inr (solid_list.mpr fun v hv ↦ (h v hv).solid.resolve_left habsent)

theorem obeys_texts (contents : List Bytes) : (list (contents.map text)).Obeys T journal :=
  obeys_list.mpr fun v hv ↦ by
    obtain ⟨content, -, rfl⟩ := List.mem_map.mp hv
    exact obeys_text content

theorem obeys_fn {f : Fn} (h : ∀ c, f = .closure c → c.Obeys T journal) :
    (fn f).Obeys T journal where
  closures c hc := by
    cases f with
    | closure c' =>
      rw [closures_closure, List.mem_singleton] at hc
      exact h c (hc ▸ rfl)
    | _ => simp [closures] at hc
  solid := .inr (by simp [Solid])

theorem obeys_builtin (b : Builtin) : (fn (.builtin b)).Obeys T journal := obeys_fn nofun

theorem Obeys.append {v : Value} (h : v.Obeys T journal) (events : List Event) :
    v.Obeys T (journal ++ events) where
  closures c hc := ⟨T.known_append events (h.closures c hc).known, (h.closures c hc).fits⟩
  solid := h.solid

/-- Where the absent value obeys the rules it is allowed. -/
theorem Obeys.absent (h : Value.absent.Obeys T journal) : T.absent :=
  h.solid.resolve_right (by simp [Solid])

end Value

/-! ## Variables -/

namespace Variable

/-- The variable holds a value or is a view of one. -/
def isSet : Variable → Bool
  | .plain none _ => false
  | _ => true

/-- A variable that is held to a kind holds a value of that kind, and one that is not is empty. -/
def Obeys (T : Rules) (journal : List Event) : Variable → Prop
  | .plain none v => v = .absent
  | .plain (some kind) v => v.kind? = some kind ∧ v.Obeys T journal
  | .readOnly v => v.Obeys T journal
  | _ => True

/-- What may become of a variable.  A plain one may get another value, but is held to its kind for
good; any other stays as it is. -/
def Becomes : Variable → Variable → Prop
  | .plain kind _, x => ∃ kind' v, x = .plain kind' v ∧ (kind.isSome = true → kind' = kind)
  | x, x' => x' = x

variable {x x' x'' : Variable}

theorem Becomes.refl (x : Variable) : x.Becomes x := by
  cases x with
  | plain kind v => exact ⟨kind, v, rfl, fun _ ↦ rfl⟩
  | _ => rfl

theorem Becomes.trans (h : x.Becomes x') (h' : x'.Becomes x'') : x.Becomes x'' := by
  cases x with
  | plain kind v =>
    obtain ⟨kind', v', rfl, hkind⟩ := h
    obtain ⟨kind'', v'', rfl, hkind'⟩ := h'
    refine ⟨kind'', v'', rfl, fun hsome ↦ ?_⟩
    rw [hkind hsome] at hkind'
    exact hkind' hsome
  | _ => cases h; exact h'

theorem Becomes.isSet (h : x.Becomes x') (hx : x.isSet = true) : x'.isSet = true := by
  cases x with
  | plain kind v =>
    obtain ⟨kind', v', rfl, hkind⟩ := h
    cases kind with
    | none => cases hx
    | some k =>
      rw [hkind rfl]
      rfl
  | _ => cases h; exact hx

theorem Obeys.append {x : Variable} (h : x.Obeys T journal) (events : List Event) :
    x.Obeys T (journal ++ events) := by
  rcases x with ⟨_ | kind, v⟩ | v | name | name | _
  case plain.none => exact h
  case plain.some => exact ⟨h.1, h.2.append events⟩
  case readOnly => exact Value.Obeys.append h events
  all_goals trivial

/-- What a variable that holds a value reads as obeys the rules if the variable does. -/
theorem Obeys.read {x : Variable} {w : World} {v : Value} (h : x.Obeys T journal)
    (hx : x.isSet = true) (hv : x.read w = .ok v) : v.Obeys T journal := by
  rcases x with ⟨_ | kind, u⟩ | u | name | name | _
  case plain.none => cases hx
  case plain.some =>
    cases hv
    exact h.2
  case readOnly =>
    cases hv
    exact h
  case env =>
    cases hv
    exact Value.obeys_text _
  case shared =>
    unfold Variable.read at hv
    dsimp only at hv
    split at hv <;> cases hv
    exact Value.obeys_text _
  case paths =>
    cases hv
    exact Value.obeys_texts _

end Variable

/-! ## Bound variables -/

namespace Scope

variable {id other : VariableId}

/-- Some name of the scope is bound to the variable. -/
def Binds (scope : Scope) (id : VariableId) : Prop := ∃ name, (name, id) ∈ scope.bindings

theorem not_binds_empty (id : VariableId) : ¬({} : Scope).Binds id := by
  rintro ⟨name, hmem⟩
  cases hmem

theorem binds_of_lookup {scope : Scope} {name : Bytes} (h : scope.lookup name = some id) :
    scope.Binds id := by
  obtain ⟨before, after, heq, -⟩ := List.lookup_eq_some_iff.mp h
  exact ⟨name, heq ▸ List.mem_append_right _ List.mem_cons_self⟩

theorem mem_bind {name : Bytes} {bindings : List (Bytes × VariableId)}
    {entry : Bytes × VariableId} (h : entry ∈ bind name id bindings) :
    entry = (name, id) ∨ entry ∈ bindings := by
  induction bindings with
  | nil => exact .inl (List.mem_singleton.mp h)
  | cons first rest ih =>
    unfold bind at h
    split at h
    · exact (List.mem_cons.mp h).imp_right (List.mem_cons_of_mem _)
    · rcases List.mem_cons.mp h with rfl | h
      · exact .inr List.mem_cons_self
      · exact (ih h).imp_right (List.mem_cons_of_mem _)

theorem binds_define {scope : Scope} {name : Bytes} (h : (scope.define name id).Binds other) :
    other = id ∨ scope.Binds other := by
  obtain ⟨key, hmem⟩ := h
  rcases mem_bind hmem with heq | hmem
  · exact .inl (congrArg Prod.snd heq)
  · exact .inr ⟨key, hmem⟩

/-- What a snapshot binds, one of the two scopes binds. -/
theorem binds_merge {outer inner : Scope} (h : (merge outer inner).Binds id) :
    outer.Binds id ∨ inner.Binds id := by
  obtain ⟨bindings⟩ := inner
  unfold merge at h
  induction bindings generalizing outer with
  | nil => exact .inl h
  | cons entry rest ih =>
    rw [List.foldl_cons] at h
    rcases ih h with h | ⟨name, hmem⟩
    · rcases binds_define h with rfl | h
      · exact .inr ⟨entry.1, List.mem_cons_self⟩
      · exact .inl h
    · exact .inr ⟨name, List.mem_cons_of_mem _ hmem⟩

end Scope

namespace World

theorem binds_define {w : World} {scope other : ScopeId} {name : Bytes} {x id : VariableId}
    (h : ((w.define scope name x).scope other).Binds id) : id = x ∨ (w.scope other).Binds id := by
  unfold World.scope at h ⊢
  change (((w.scopes.modify scope _).get? other).getD {}).Binds id at h
  rw [Table.get?_modify] at h
  split at h
  · rcases hs : w.scopes.get? other with _ | s <;> rw [hs] at h
    · exact .inr h
    · exact Scope.binds_define h
  · exact .inr h

/-! ## Development -/

/-- What stands at a place holds a value or is a view of one. -/
def Ready (w : World) (place : Place) : Prop := (w.variableAt place).isSet = true

/-- Events have been added, and variables have become what they may. -/
structure Onward (w w' : World) : Prop where
  journal : w.journal <+: w'.journal
  vars : ∀ id x, w.vars.get? id = some x → ∃ x', w'.vars.get? id = some x' ∧ x.Becomes x'

namespace Onward

variable {w w' w'' : World}

protected theorem refl (w : World) : Onward w w := ⟨List.prefix_rfl, fun _ x hx ↦ ⟨x, hx, .refl x⟩⟩

protected theorem trans (h : Onward w w') (h' : Onward w' w'') : Onward w w'' := by
  refine ⟨h.journal.trans h'.journal, fun id x hx ↦ ?_⟩
  obtain ⟨x', hx', hbecomes⟩ := h.vars id x hx
  obtain ⟨x'', hx'', hbecomes'⟩ := h'.vars id x' hx'
  exact ⟨x'', hx'', hbecomes.trans hbecomes'⟩

theorem of_vars (hjournal : w.journal <+: w'.journal) (hvars : w'.vars = w.vars) : Onward w w' :=
  ⟨hjournal, fun id x hx ↦ ⟨x, by rwa [hvars], .refl x⟩⟩

theorem handles (h : Handles w w') : Onward w w' :=
  of_vars (h.journal ▸ List.prefix_rfl) h.vars

theorem newVariable (w : World) (x : Variable) : Onward w (w.newVariable x).2 :=
  ⟨List.prefix_rfl, fun id y hy ↦
    ⟨y, by rwa [World.newVariable, Table.get?_push_of_lt (Table.lt_size_of_get? hy)], .refl y⟩⟩

/-- A plain variable gets a value of the kind that it is held to, if it is held to one. -/
theorem setVariable {id : VariableId} {kept : Option Kind} {v u : Value} {kind : Kind}
    (hid : w.vars.get? id = some (.plain kept u)) (hkept : kept.isSome = true → kept = some kind) :
    Onward w { w with vars := w.vars.modify id fun _ ↦ .plain (some kind) v } := by
  refine ⟨List.prefix_rfl, fun other x hx ↦ ?_⟩
  rw [Table.get?_modify]
  split
  · subst other
    rw [hid, Option.some.injEq] at hx
    subst hx
    exact ⟨_, by rw [hid]; rfl, some kind, v, rfl, fun hsome ↦ (hkept hsome).symm⟩
  · exact ⟨x, hx, .refl x⟩

/-- A place that is ready stays ready. -/
theorem ready (h : Onward w w') {place : Place} (hplace : w.Ready place) : w'.Ready place := by
  unfold Ready variableAt at hplace ⊢
  cases place with
  | bound id =>
    dsimp only at hplace ⊢
    rcases hx : w.vars.get? id with _ | x <;> rw [hx] at hplace
    · cases hplace
    · obtain ⟨x', hx', hbecomes⟩ := h.vars id x hx
      rw [hx']
      exact hbecomes.isSet hplace
  | _ => exact hplace

theorem knows (h : Onward w w') {text : Bytes} (hknown : T.known w.journal text) :
    T.known w'.journal text := by
  obtain ⟨events, hevents⟩ := h.journal
  rw [← hevents]
  exact T.known_append events hknown

theorem blames (h : Onward w w') {span : Span} (hspan : T.blames w.journal span) :
    T.blames w'.journal span := by
  obtain ⟨events, hevents⟩ := h.journal
  rw [← hevents]
  exact T.blames_append events hspan

theorem value (h : Onward w w') {v : Value} (hv : v.Obeys T w.journal) : v.Obeys T w'.journal := by
  obtain ⟨events, hevents⟩ := h.journal
  rw [← hevents]
  exact hv.append events

end Onward

/-! ## Lawful states -/

/-- The variables, the bound names and the queued values obey the rules. -/
structure Lawful (T : Rules) (w : World) : Prop where
  past : T.past <+: w.journal
  vars : ∀ id x, w.vars.get? id = some x → x.Obeys T w.journal
  bound : ∀ scope id, (w.scope scope).Binds id → w.Ready (.bound id)
  queued : ∀ v, w.Queued v → v.Obeys T w.journal

/-- The state is lawful, and an error may be blamed on the span under evaluation. -/
structure Obeys (T : Rules) (w : World) : Prop extends Lawful T w where
  here : T.blames w.journal w.here

namespace Lawful

variable {w w' : World}

/-- Every closure that is stored obeys the rules. -/
theorem closure (h : w.Lawful T) {c : Closure} (hc : w.Stores c) : c.Obeys T w.journal := by
  rcases hc with ⟨id, x, hid, hc⟩ | ⟨id, line, hid, v, hv, hc⟩
  · have hx := h.vars id x hid
    rcases x with ⟨_ | kind, v⟩ | v | name | name | _
    case plain.none =>
      obtain rfl : v = .absent := hx
      cases hc
    case plain.some => exact hx.2.closures c hc
    case readOnly => exact hx.closures c hc
    all_goals cases hc
  · exact (h.queued v ⟨id, line, hid, hv⟩).closures c hc

/-- A lawful state is lawful by other rules too if the closures that it stores obey them. -/
theorem mono {T' : Rules} (h : w.Lawful T) (hpast : T'.past <+: w.journal)
    (habsent : T.absent → T'.absent)
    (hclosures : ∀ c, w.Stores c → c.Obeys T w.journal → c.Obeys T' w.journal) : w.Lawful T' := by
  have hvalue : ∀ v : Value, v.Obeys T w.journal → (∀ c ∈ v.closures, w.Stores c) →
      v.Obeys T' w.journal :=
    fun v hv hstored ↦ ⟨fun c hc ↦ hclosures c (hstored c hc) (hv.closures c hc),
      hv.solid.imp_left habsent⟩
  refine ⟨hpast, fun id x hid ↦ ?_, h.bound, fun v hv ↦ ?_⟩
  · have hx := h.vars id x hid
    have hstored : ∀ c ∈ x.closures, w.Stores c := fun c hc ↦ .inl ⟨id, x, hid, hc⟩
    rcases x with ⟨_ | kind, v⟩ | v | name | name | _
    case plain.none => exact hx
    case plain.some => exact ⟨hx.1, hvalue v hx.2 hstored⟩
    case readOnly => exact hvalue v hx hstored
    all_goals trivial
  · refine hvalue v (h.queued v hv) fun c hc ↦ ?_
    obtain ⟨id, line, hid, hqueued⟩ := hv
    exact .inr ⟨id, line, hid, v, hqueued, hc⟩

/-- Variables and scopes are the same, and what is queued was queued before or obeys the rules. -/
theorem of_vars (h : w.Lawful T) (hjournal : w.journal <+: w'.journal) (hvars : w'.vars = w.vars)
    (hscopes : w'.scopes = w.scopes)
    (hqueued : ∀ v, w'.Queued v → w.Queued v ∨ v.Obeys T w'.journal) : w'.Lawful T := by
  have honward : Onward w w' := .of_vars hjournal hvars
  refine ⟨h.past.trans hjournal, fun id x hx ↦ ?_, fun scope id hid ↦ ?_, fun v hv ↦ ?_⟩
  · rw [hvars] at hx
    obtain ⟨events, hevents⟩ := hjournal
    rw [← hevents]
    exact (h.vars id x hx).append events
  · unfold World.scope at hid
    rw [hscopes] at hid
    exact honward.ready (h.bound scope id hid)
  · rcases hqueued v hv with hv | hv
    · exact honward.value (h.queued v hv)
    · exact hv

theorem handles (h : w.Lawful T) (hhandles : Handles w w') : w'.Lawful T :=
  h.of_vars (hhandles.journal ▸ List.prefix_rfl) hhandles.vars hhandles.scopes
    fun v hv ↦ .inl (hhandles.queued v hv)

/-- Names are bound to variables that hold values. -/
theorem scopes (h : w.Lawful T) {scopes : Table Scope}
    (hbound : ∀ scope id, ({ w with scopes }.scope scope).Binds id → w.Ready (.bound id)) :
    { w with scopes }.Lawful T :=
  ⟨h.past, h.vars, hbound, h.queued⟩

theorem newScope (h : w.Lawful T) {scope : Scope}
    (hscope : ∀ id, scope.Binds id → w.Ready (.bound id)) : (w.newScope scope).2.Lawful T := by
  refine h.scopes fun other id hid ↦ ?_
  change ((w.newScope scope).2.scope other).Binds id at hid
  rw [scope_newScope] at hid
  split at hid
  · exact hscope id hid
  · exact h.bound other id hid

theorem define (h : w.Lawful T) {id : VariableId} (hid : w.Ready (.bound id)) (scope : ScopeId)
    (name : Bytes) : (w.define scope name id).Lawful T := by
  refine h.scopes fun other id' hid' ↦ ?_
  rcases binds_define hid' with rfl | hid'
  · exact hid
  · exact h.bound other id' hid'

/-- The table of variables develops, and every variable obeys the rules afterwards. -/
theorem develop (h : w.Lawful T) {vars : Table Variable} (honward : Onward w { w with vars })
    (hvars : ∀ id x, vars.get? id = some x → w.vars.get? id = some x ∨ x.Obeys T w.journal) :
    { w with vars }.Lawful T where
  past := h.past
  vars id x hx := (hvars id x hx).elim (h.vars id x) fun hx ↦ hx
  bound scope id hid := honward.ready (h.bound scope id hid)
  queued := h.queued

theorem newVariable (h : w.Lawful T) {x : Variable} (hx : x.Obeys T w.journal) :
    (w.newVariable x).2.Lawful T := by
  refine h.develop (.newVariable w x) fun id y hy ↦ ?_
  rcases Table.get?_push_cases hy with hy | ⟨-, rfl⟩
  · exact .inl hy
  · exact .inr hx

theorem setVariable (h : w.Lawful T) {id : VariableId} {kept : Option Kind} {v u : Value}
    {kind : Kind} (hid : w.vars.get? id = some (.plain kept u))
    (hkept : kept.isSome = true → kept = some kind) (hkind : v.kind? = some kind)
    (hv : v.Obeys T w.journal) :
    { w with vars := w.vars.modify id fun _ ↦ .plain (some kind) v }.Lawful T := by
  refine h.develop (.setVariable hid hkept) fun other x hx ↦ ?_
  rw [Table.get?_modify] at hx
  split at hx
  · obtain ⟨y, -, rfl⟩ := Option.map_eq_some_iff.mp hx
    exact .inr ⟨hkind, hv⟩
  · exact .inl hx

/-- What is read from a place that is ready obeys the rules. -/
theorem read (h : w.Lawful T) {place : Place} (hplace : w.Ready place) {v : Value}
    (hv : (w.variableAt place).read w = .ok v) : v.Obeys T w.journal := by
  refine Variable.Obeys.read ?_ hplace hv
  unfold Ready at hplace
  unfold variableAt at hplace ⊢
  cases place with
  | bound id =>
    dsimp only at hplace ⊢
    rcases hx : w.vars.get? id with _ | x <;> rw [hx] at hplace
    · cases hplace
    · exact h.vars id x hx
  | command name => exact Value.obeys_fn nofun
  | _ => trivial

end Lawful

theorem Obeys.handles {w w' : World} (h : w.Obeys T) (hhandles : Handles w w') : w'.Obeys T :=
  ⟨h.toLawful.handles hhandles, by rw [hhandles.journal, hhandles.here]; exact h.here⟩

theorem Obeys.note {w : World} (h : w.Obeys T) (event : Event) : (w.note event).Obeys T :=
  ⟨h.toLawful.of_vars (List.prefix_append _ _) rfl rfl fun _ ↦ .inl, T.blames_append _ h.here⟩

theorem Obeys.move {w : World} (h : w.Lawful T) {span : Span} (hspan : T.blames w.journal span) :
    { w with here := span }.Obeys T :=
  ⟨⟨h.past, h.vars, h.bound, h.queued⟩, hspan⟩

end World

end Conduit
