import Conduit.Context
import Conduit.Eval.Module
import Conduit.Proofs.Bindings
import Conduit.Proofs.Mirror.Values

/-!
# States up to the Identity of Scopes

Two states are alike for a pairing of scopes if the values in their variables and channels are,
their modules have the same names and paired scopes, paired scopes bind the same names to the same
variables, those of the globals and the builtins are paired with themselves, and everything else is
the same, the journal excepted.  Two states mirror each other if moreover a given scope of the one
and a given scope of the other are blank and take no part in the pairing.  These two stand outside
the innermost scopes of the code that is run.

New scopes extend the pairing.  What the pairing has it keeps.
-/

namespace Conduit

/-! ## Tables -/

namespace Table

variable {α : Type} {R : α → α → Prop} {t t' : Table α}

/-- Two tables with related objects at the same places. -/
def Like (R : α → α → Prop) (t t' : Table α) : Prop := List.Forall₂ R t.rows t'.rows

namespace Like

theorem size_eq (h : Like R t t') : t'.size = t.size := (List.Forall₂.length_eq h).symm

theorem get? (h : Like R t t') (id : Nat) : Option.Rel R (t.get? id) (t'.get? id) := by
  have hrows : ∀ {rows rows' : List α}, List.Forall₂ R rows rows' → ∀ id : Nat,
      Option.Rel R rows[id]? rows'[id]? := by
    intro rows rows' hrows
    induction hrows with
    | nil => exact fun id ↦ .none
    | cons hr _ ih =>
      intro id
      cases id with
      | zero => exact .some hr
      | succ id => exact ih id
  exact hrows h id

theorem push (h : Like R t t') {a a' : α} (ha : R a a') : Like R (t.push a) (t'.push a') :=
  List.rel_append h (.cons ha .nil)

theorem modify (h : Like R t t') (id : Nat) {f f' : α → α}
    (hf : ∀ a a', R a a' → R (f a) (f' a')) : Like R (t.modify id f) (t'.modify id f') := by
  have hrows : ∀ {rows rows' : List α}, List.Forall₂ R rows rows' → ∀ id : Nat,
      List.Forall₂ R (rows.modify id f) (rows'.modify id f') := by
    intro rows rows' hrows
    induction hrows with
    | nil => exact fun id ↦ by simp
    | cons hr hrest ih =>
      intro id
      cases id with
      | zero => exact .cons (hf _ _ hr) hrest
      | succ id => exact .cons hr (ih id)
  exact hrows h id

theorem mono {S : α → α → Prop} (h : Like R t t') (hRS : ∀ a a', R a a' → S a a') : Like S t t' :=
  List.Forall₂.imp hRS h

end Like

end Table

/-! ## Variables and channels -/

variable {r s : Pairing}

/-- Two variables with values that are alike. -/
inductive Variable.Like (r : Pairing) : Variable → Variable → Prop where
  | plain (kind : Option Kind) {v v' : Value} (h : v.Like r v') :
      Like r (.plain kind v) (.plain kind v')
  | readOnly {v v' : Value} (h : v.Like r v') : Like r (.readOnly v) (.readOnly v')
  | env (name : Bytes) : Like r (.env name) (.env name)
  | shared (name : Bytes) : Like r (.shared name) (.shared name)
  | paths : Like r .paths .paths

theorem Variable.Like.mono (hrs : r ≤ s) {x x' : Variable} (h : x.Like r x') :
    x.Like s x' := by
  cases h with
  | plain kind h => exact .plain kind (h.mono hrs)
  | readOnly h => exact .readOnly (h.mono hrs)
  | env name => exact .env name
  | shared name => exact .shared name
  | paths => exact .paths

/-- Two channels whose queues are alike. -/
structure Channel.Like (r : Pairing) (c c' : Channel Value) : Prop where
  queue : Value.AllLike r c.queue c'.queue
  capacity : c'.capacity = c.capacity
  closed : c'.closed = c.closed

theorem Channel.Like.hasRoom_eq {c c' : Channel Value} (h : c.Like r c') :
    c'.hasRoom = c.hasRoom := by
  rw [hasRoom, hasRoom, h.capacity, h.queue.length_eq]

/-- Two lines whose channels are alike. -/
structure Line.Like (r : Pairing) (line line' : Line) : Prop where
  channel : line.channel.Like r line'.channel
  attended : line'.attended = line.attended

theorem Line.Like.mono (hrs : r ≤ s) {line line' : Line}
    (h : line.Like r line') : line.Like s line' :=
  ⟨⟨h.channel.queue.mono hrs, h.channel.capacity, h.channel.closed⟩, h.attended⟩

/-! ## What may refer to scopes -/

/-- The parts of a state that may refer to scopes. -/
structure Memory where
  vars : Table Variable := .empty
  scopes : Table Scope := .empty
  channels : Table Line := .empty
  modules : List (Bytes × ScopeId) := []
  journal : List Event := []

namespace Memory

/-- The scope with an identity. -/
def scope (m : Memory) (id : ScopeId) : Scope := (m.scopes.get? id).getD {}

theorem scope_modify (m : Memory) {i : ScopeId} (hi : i < m.scopes.size) (f : Scope → Scope)
    (j : ScopeId) :
    { m with scopes := m.scopes.modify i f }.scope j =
      if i = j then f (m.scope j) else m.scope j := by
  unfold scope
  rw [Table.get?_modify]
  by_cases hij : i = j
  · subst hij
    obtain ⟨scope, hscope⟩ := Table.exists_get?_of_lt hi
    simp [hscope]
  · simp [hij]

theorem scope_push (m : Memory) (scope : Scope) {j : ScopeId} (hj : j < m.scopes.size) :
    { m with scopes := m.scopes.push scope }.scope j = m.scope j := by
  unfold Memory.scope
  rw [Table.get?_push_of_lt hj]

theorem scope_push_size (m : Memory) (scope : Scope) :
    { m with scopes := m.scopes.push scope }.scope m.scopes.size = scope := by
  unfold Memory.scope
  rw [Table.get?_push_size]
  rfl

/-- Two memories that are the same but for the identity of scopes. -/
structure Like (r : Pairing) (m m' : Memory) : Prop where
  vars : Table.Like (Variable.Like r) m.vars m'.vars
  channels : Table.Like (Line.Like r) m.channels m'.channels
  modules : List.Forall₂ (fun e e' ↦ e'.1 = e.1 ∧ r e.2 e'.2) m.modules m'.modules
  exist : ∀ {i i'}, r i i' → i < m.scopes.size ∧ i' < m'.scopes.size
  scope : ∀ {i i'}, r i i' → m'.scope i' = m.scope i
  unique : ∀ {i i' j j'}, r i i' → r j j' → (i = j ↔ i' = j')
  globals : r World.globals World.globals
  builtins : r World.builtins World.builtins

/-- Two memories that are alike, with a blank scope in each that takes no part in the pairing. -/
structure Mirrors (o o' : ScopeId) (r : Pairing) (m m' : Memory) : Prop extends Like r m m' where
  blank : m.scope o = {} ∧ m'.scope o' = {}
  existing : o < m.scopes.size ∧ o' < m'.scopes.size
  apart : ∀ {i i'}, r i i' → i ≠ o ∧ i' ≠ o'

namespace Mirrors

variable {o o' : ScopeId} {m m' : Memory}

/-- Paired scopes are changed in the same way. -/
theorem modifyScope (h : Mirrors o o' r m m') {i i' : ScopeId} (hi : r i i') (f : Scope → Scope) :
    Mirrors o o' r { m with scopes := m.scopes.modify i f }
      { m' with scopes := m'.scopes.modify i' f } where
  vars := h.vars
  channels := h.channels
  modules := h.modules
  unique := h.unique
  globals := h.globals
  builtins := h.builtins
  apart := h.apart
  exist hj := by
    rw [Table.size_modify, Table.size_modify]
    exact h.exist hj
  existing := by
    rw [Table.size_modify, Table.size_modify]
    exact h.existing
  scope {j j'} hj := by
    rw [scope_modify m (h.exist hi).1, scope_modify m' (h.exist hi).2, h.scope hj]
    simp only [h.unique hi hj]
  blank := by
    rw [scope_modify m (h.exist hi).1, scope_modify m' (h.exist hi).2, if_neg (h.apart hi).1,
      if_neg (h.apart hi).2]
    exact h.blank

/-- New scopes with the same content are paired from then on. -/
theorem pushScope (h : Mirrors o o' r m m') (scope : Scope) :
    ∃ s : Pairing, r ≤ s ∧ s m.scopes.size m'.scopes.size ∧
      Mirrors o o' s { m with scopes := m.scopes.push scope }
        { m' with scopes := m'.scopes.push scope } := by
  let s : Pairing := fun i i' ↦ r i i' ∨ i = m.scopes.size ∧ i' = m'.scopes.size
  have hrs : r ≤ s := fun _ _ ↦ .inl
  refine ⟨s, hrs, .inr ⟨rfl, rfl⟩, ?_⟩
  exact {
    vars := h.vars.mono fun _ _ ↦ Variable.Like.mono hrs
    channels := h.channels.mono fun _ _ ↦ Line.Like.mono hrs
    modules := h.modules.imp fun _ _ he ↦ ⟨he.1, hrs _ _ he.2⟩
    globals := hrs _ _ h.globals
    builtins := hrs _ _ h.builtins
    exist := fun hj ↦ by
      rw [Table.size_push, Table.size_push]
      rcases hj with hj | ⟨rfl, rfl⟩
      · exact (h.exist hj).imp Nat.lt_succ_of_lt Nat.lt_succ_of_lt
      · exact ⟨Nat.lt_succ_self _, Nat.lt_succ_self _⟩
    scope := fun hj ↦ by
      rcases hj with hj | ⟨rfl, rfl⟩
      · rw [scope_push m scope (h.exist hj).1, scope_push m' scope (h.exist hj).2, h.scope hj]
      · rw [scope_push_size, scope_push_size]
    unique := fun hi hj ↦ by
      rcases hi with hi | ⟨rfl, rfl⟩ <;> rcases hj with hj | ⟨rfl, rfl⟩
      · exact h.unique hi hj
      · have hlt := h.exist hi
        exact iff_of_false (Nat.ne_of_lt hlt.1) (Nat.ne_of_lt hlt.2)
      · have hlt := h.exist hj
        exact iff_of_false (Nat.ne_of_gt hlt.1) (Nat.ne_of_gt hlt.2)
      · exact iff_of_true rfl rfl
    blank := by
      rw [scope_push m scope h.existing.1, scope_push m' scope h.existing.2]
      exact h.blank
    existing := by
      rw [Table.size_push, Table.size_push]
      exact h.existing.imp Nat.lt_succ_of_lt Nat.lt_succ_of_lt
    apart := fun hj ↦ by
      rcases hj with hj | ⟨rfl, rfl⟩
      · exact h.apart hj
      · exact h.existing.imp Nat.ne_of_gt Nat.ne_of_gt }

/-- A new blank scope of the second memory may be the one that takes no part. -/
theorem setApart (h : Mirrors o o' r m m') :
    Mirrors o m'.scopes.size r m { m' with scopes := m'.scopes.push {} } where
  vars := h.vars
  channels := h.channels
  modules := h.modules
  unique := h.unique
  globals := h.globals
  builtins := h.builtins
  exist hi := by
    rw [Table.size_push]
    exact (h.exist hi).imp_right Nat.lt_succ_of_lt
  scope hi := by
    rw [scope_push m' {} (h.exist hi).2, h.scope hi]
  blank := ⟨h.blank.1, scope_push_size m' {}⟩
  existing := by
    rw [Table.size_push]
    exact ⟨h.existing.1, Nat.lt_succ_self _⟩
  apart hi := ⟨(h.apart hi).1, Nat.ne_of_lt (h.exist hi).2⟩

end Mirrors

end Memory

namespace World

/-- The memory of a state. -/
def memory (w : World) : Memory := ⟨w.vars, w.scopes, w.channels, w.modules, w.journal⟩

/-- The state with another memory. -/
def withMemory (w : World) (m : Memory) : World :=
  { w with
    vars := m.vars, scopes := m.scopes, channels := m.channels, modules := m.modules
    journal := m.journal }

/-- The state with nothing in its memory. -/
def bare (w : World) : World := w.withMemory {}

/-- Two states that are the same but for the identity of scopes. -/
structure Like (r : Pairing) (w w' : World) : Prop where
  bare : w'.bare = w.bare
  memory : w.memory.Like r w'.memory

/-- What does not depend on the memory is the same on both sides. -/
theorem Like.congr {α : Type} {w w' : World} (h : Like r w w') (f : World → α)
    (hf : ∀ w, f w.bare = f w) : f w' = f w := by
  rw [← hf w', h.bare, hf w]

/-- A variable exists on both sides, with values that are alike, or on none. -/
theorem Like.variable? {w w' : World} (h : Like r w w') (id : VariableId) :
    Option.Rel (Variable.Like r) (w.vars.get? id) (w'.vars.get? id) :=
  h.memory.vars.get? id

/-- A line exists on both sides, with channels that are alike, or on none. -/
theorem Like.line? {w w' : World} (h : Like r w w') (id : ChannelId) :
    Option.Rel (Line.Like r) (w.channels.get? id) (w'.channels.get? id) :=
  h.memory.channels.get? id

/-- The modules have the same names and paired scopes. -/
theorem Like.modules {w w' : World} (h : Like r w w') :
    List.Forall₂ (fun e e' ↦ e'.1 = e.1 ∧ r e.2 e'.2) w.modules w'.modules :=
  h.memory.modules

/-- Two states that are alike, with a blank scope in each that takes no part in the pairing. -/
structure Mirrors (o o' : ScopeId) (r : Pairing) (w w' : World) : Prop where
  bare : w'.bare = w.bare
  memory : w.memory.Mirrors o o' r w'.memory

/-- A change of state that neither looks at the memory nor touches it. -/
def Blind (f : World → World) : Prop := ∀ w m, f (w.withMemory m) = (f w).withMemory m

theorem Blind.memory {f : World → World} (hf : Blind f) (w : World) : (f w).memory = w.memory :=
  have hsame : f w = (f w).withMemory w.memory := hf w w.memory
  (congrArg World.memory hsame).trans rfl

theorem Blind.bare {f : World → World} (hf : Blind f) (w : World) : (f w).bare = f w.bare :=
  (hf w {}).symm

namespace Mirrors

variable {o o' : ScopeId} {w w' : World}

theorem like (h : Mirrors o o' r w w') : Like r w w' := ⟨h.bare, h.memory.toLike⟩

theorem congr {α : Type} (h : Mirrors o o' r w w') (f : World → α) (hf : ∀ w, f w.bare = f w) :
    f w' = f w :=
  h.like.congr f hf

/-- A change that does not concern the memory is the same on both sides. -/
theorem blind (h : Mirrors o o' r w w') {f : World → World} (hf : Blind f) :
    Mirrors o o' r (f w) (f w') where
  bare := by rw [hf.bare, hf.bare, h.bare]
  memory := by
    rw [hf.memory, hf.memory]
    exact h.memory

theorem note (h : Mirrors o o' r w w') (event event' : Event) :
    Mirrors o o' r (w.note event) (w'.note event') where
  bare := h.bare
  memory := { h.memory with }

/-! ## Changes of the memory -/

theorem withVars (h : Mirrors o o' r w w') {vars vars' : Table Variable}
    (hvars : Table.Like (Variable.Like r) vars vars') :
    Mirrors o o' r { w with vars } { w' with vars := vars' } where
  bare := h.bare
  memory := { h.memory with vars := hvars }

theorem withChannels (h : Mirrors o o' r w w') {channels channels' : Table Line}
    (hchannels : Table.Like (Line.Like r) channels channels') :
    Mirrors o o' r { w with channels } { w' with channels := channels' } where
  bare := h.bare
  memory := { h.memory with channels := hchannels }

theorem newVariable (h : Mirrors o o' r w w') {x x' : Variable} (hx : x.Like r x') :
    (w'.newVariable x').1 = (w.newVariable x).1 ∧
      Mirrors o o' r (w.newVariable x).2 (w'.newVariable x').2 :=
  ⟨h.memory.vars.size_eq, h.withVars (h.memory.vars.push hx)⟩

theorem setVariable (h : Mirrors o o' r w w') (id : VariableId) {x x' : Variable}
    (hx : x.Like r x') :
    Mirrors o o' r { w with vars := w.vars.modify id fun _ ↦ x }
      { w' with vars := w'.vars.modify id fun _ ↦ x' } :=
  h.withVars (h.memory.vars.modify id fun _ _ _ ↦ hx)

theorem newChannel (h : Mirrors o o' r w w') {line line' : Line} (hline : line.Like r line') :
    (w'.newChannel line').1 = (w.newChannel line).1 ∧
      Mirrors o o' r (w.newChannel line).2 (w'.newChannel line').2 :=
  ⟨h.memory.channels.size_eq, h.withChannels (h.memory.channels.push hline)⟩

theorem modifyChannel (h : Mirrors o o' r w w') (id : ChannelId)
    {f f' : Channel Value → Channel Value} (hf : ∀ c c', c.Like r c' → (f c).Like r (f' c')) :
    Mirrors o o' r (w.modifyChannel id f) (w'.modifyChannel id f') :=
  h.withChannels (h.memory.channels.modify id fun _ _ hline ↦
    ⟨hf _ _ hline.channel, hline.attended⟩)

theorem closeChannel (h : Mirrors o o' r w w') (id : ChannelId) :
    Mirrors o o' r (w.closeChannel id) (w'.closeChannel id) :=
  h.modifyChannel id fun _ _ hc ↦ ⟨hc.queue, hc.capacity, rfl⟩

/-- Registering a module with paired scopes. -/
theorem register (h : Mirrors o o' r w w') (name : Bytes) {i i' : ScopeId} (hi : r i i') :
    Mirrors o o' r (Eval.register name i w) (Eval.register name i' w') where
  bare := h.bare
  memory :=
    { h.memory with
      modules := by
        refine .cons ⟨rfl, hi⟩ (List.rel_filter (fun e e' he ↦ ?_) h.memory.modules)
        simp only [he.1] }

/-- A name is bound in paired scopes. -/
theorem define (h : Mirrors o o' r w w') {i i' : ScopeId} (hi : r i i') (name : Bytes)
    (x : VariableId) : Mirrors o o' r (w.define i name x) (w'.define i' name x) where
  bare := h.bare
  memory := h.memory.modifyScope hi _

/-- New scopes with the same content are paired from then on. -/
theorem newScope (h : Mirrors o o' r w w') (scope : Scope) :
    ∃ s : Pairing, r ≤ s ∧ s w.scopes.size w'.scopes.size ∧
      Mirrors o o' s (w.newScope scope).2 (w'.newScope scope).2 := by
  obtain ⟨s, hrs, hnew, hmemory⟩ := h.memory.pushScope scope
  exact ⟨s, hrs, hnew, h.bare, hmemory⟩

theorem setApart (h : Mirrors o o' r w w') :
    Mirrors o w'.scopes.size r w (w'.newScope {}).2 :=
  ⟨h.bare, h.memory.setApart⟩

theorem builtins (h : Mirrors o o' r w w') : w'.scope World.builtins = w.scope World.builtins :=
  h.memory.scope h.memory.builtins

/-- A module is registered on both sides, with paired scopes, or on none. -/
theorem module? (h : Mirrors o o' r w w') (name : Bytes) :
    Option.Rel r (w.module? name) (w'.module? name) := by
  have hmodules := h.like.modules
  unfold World.module?
  generalize w.modules = modules, w'.modules = modules' at hmodules
  induction hmodules with
  | nil => exact .none
  | @cons e e' _ _ he _ ih =>
    rw [List.lookup_cons, List.lookup_cons, he.1]
    cases name == e.1 with
    | true => exact .some he.2
    | false => exact ih

end Mirrors

end World

/-! ## Contexts -/

/-- Two contexts that are the same but for the identity of scopes.  The scopes outside the innermost
ones are paired, or they are the blank ones. -/
structure Context.Like (o o' : ScopeId) (r : Pairing) (ctx ctx' : Context) : Prop where
  source : ctx'.name = ctx.name ∧ ctx'.text = ctx.text
  label : ctx'.label = ctx.label
  endpoints : ctx'.endpoints = ctx.endpoints
  scope : r ctx.scope ctx'.scope
  outer : r ctx.outer ctx'.outer ∨ ctx.outer = o ∧ ctx'.outer = o'

namespace Context.Like

variable {o o' : ScopeId} {ctx ctx' : Context} {w w' : World}

theorem mono (h : ctx.Like o o' r ctx') (hrs : r ≤ s) : ctx.Like o o' s ctx' :=
  ⟨h.source, h.label, h.endpoints, hrs _ _ h.scope, h.outer.imp_left (hrs _ _)⟩

theorem scope_eq (h : ctx.Like o o' r ctx') (hw : World.Mirrors o o' r w w') :
    w'.scope ctx'.scope = w.scope ctx.scope :=
  hw.memory.scope h.scope

theorem outer_eq (h : ctx.Like o o' r ctx') (hw : World.Mirrors o o' r w w') :
    w'.scope ctx'.outer = w.scope ctx.outer := by
  rcases h.outer with houter | ⟨houter, houter'⟩
  · exact hw.memory.scope houter
  · rw [houter, houter']
    exact hw.memory.blank.2.trans hw.memory.blank.1.symm

end Context.Like

end Conduit
