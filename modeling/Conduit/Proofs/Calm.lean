import Conduit.Proofs.Action
import Conduit.Proofs.Environment
import Conduit.World.Endpoints
import Conduit.World.Streams
import Conduit.World.Variables

/-!
# Operations on Data

Most of what a command does changes data only: variables that exist or are new, values that are
sent, bytes, files, the environment, the store.  Such an operation is calm.  It leaves every scope,
endpoint and module as it is, notes nothing in the journal, prints nothing, closes no channel that
exists and takes no value off one, and neither closes a stream that exists nor changes how many hold
it and whether it is owned.  The environment stays one that a process can have.  Every closure that is
stored afterwards was stored before or was given to the operation.

The module fixes this relation and shows it of the operations on variables and streams.
-/

namespace Conduit

/-! ## Tables that are kept -/

namespace Table

variable {α β : Type}

theorem lt_size_of_get? {t : Table α} {id : Nat} {a : α} (h : t.get? id = some a) :
    id < t.size := by
  by_contra hle
  rw [get?_eq_none_of_le (Nat.le_of_not_lt hle)] at h
  cases h

theorem exists_get?_of_lt {t : Table α} {id : Nat} (h : id < t.size) : ∃ a, t.get? id = some a :=
  ⟨_, List.getElem?_eq_getElem h⟩

/-- Every object of the first table is in the second one, and the two are related. -/
def Follows (r : α → α → Prop) (t t' : Table α) : Prop :=
  ∀ id a, t.get? id = some a → ∃ a', t'.get? id = some a' ∧ r a a'

namespace Follows

variable {r : α → α → Prop} {t t' t'' : Table α}

theorem refl (hr : ∀ a, r a a) (t : Table α) : Follows r t t := fun _ a h ↦ ⟨a, h, hr a⟩

theorem trans (hr : ∀ {a b c}, r a b → r b c → r a c) (h : Follows r t t') (h' : Follows r t' t'') :
    Follows r t t'' := by
  intro id a ha
  obtain ⟨b, hb, hab⟩ := h id a ha
  obtain ⟨c, hc, hbc⟩ := h' id b hb
  exact ⟨c, hc, hr hab hbc⟩

theorem push (hr : ∀ a, r a a) (t : Table α) (a : α) : Follows r t (t.push a) := by
  intro id b hb
  exact ⟨b, by rwa [get?_push_of_lt (lt_size_of_get? hb)], hr b⟩

theorem modify (hr : ∀ a, r a a) {id : Nat} {f : α → α}
    (hf : ∀ a, t.get? id = some a → r a (f a)) : Follows r t (t.modify id f) := by
  intro other a ha
  by_cases hid : id = other
  · subst hid
    exact ⟨f a, by simp [get?_modify, ha], hf a ha⟩
  · exact ⟨a, by simp [get?_modify, hid, ha], hr a⟩

theorem size_le (h : Follows r t t') : t.size ≤ t'.size := by
  by_contra hlt
  obtain ⟨a, ha⟩ := exists_get?_of_lt (Nat.lt_of_not_le hlt)
  obtain ⟨b, hb, -⟩ := h _ _ ha
  rw [get?_eq_none_of_le (Nat.le_refl _)] at hb
  cases hb

end Follows

/-- Every object of the first table is in the second one, with the same view of it. -/
def Kept (view : α → β) (t t' : Table α) : Prop := Follows (fun a a' ↦ view a' = view a) t t'

namespace Kept

variable {view : α → β} {t t' t'' : Table α}

theorem refl (t : Table α) : Kept view t t :=
  Follows.refl (r := fun a a' ↦ view a' = view a) (fun _ ↦ rfl) t

theorem trans (h : Kept view t t') (h' : Kept view t' t'') : Kept view t t'' :=
  Follows.trans (fun hab hbc ↦ hbc.trans hab) h h'

theorem push (t : Table α) (a : α) : Kept view t (t.push a) :=
  Follows.push (r := fun a a' ↦ view a' = view a) (fun _ ↦ rfl) t a

theorem modify {id : Nat} {f : α → α} (hf : ∀ a, t.get? id = some a → view (f a) = view a) :
    Kept view t (t.modify id f) :=
  Follows.modify (r := fun a a' ↦ view a' = view a) (fun _ ↦ rfl) hf

theorem size_le (h : Kept view t t') : t.size ≤ t'.size :=
  Follows.size_le (r := fun a a' ↦ view a' = view a) h

end Kept

theorem get?_push_cases {α : Type} {t : Table α} {a b : α} {id : Nat}
    (h : (t.push a).get? id = some b) : t.get? id = some b ∨ id = t.size ∧ b = a := by
  rcases Nat.lt_trichotomy id t.size with hlt | heq | hgt
  · exact .inl (by rwa [get?_push_of_lt hlt] at h)
  · rw [heq, get?_push_size] at h
    exact .inr ⟨heq, (Option.some.inj h).symm⟩
  · rw [get?_eq_none_of_le (by simp; omega)] at h
    cases h

end Table

/-! ## Closures in a state -/

namespace Value

mutual

/-- The closures that a value is made of. -/
def closures : Value → List Closure
  | .absent => []
  | .text _ => []
  | .list items => closuresOf items
  | .fn (.closure c) => [c]
  | .fn _ => []

/-- The closures that the values of a list are made of. -/
def closuresOf : List Value → List Closure
  | [] => []
  | v :: rest => v.closures ++ closuresOf rest

end

theorem mem_closuresOf {c : Closure} {values : List Value} :
    c ∈ closuresOf values ↔ ∃ v ∈ values, c ∈ v.closures := by
  induction values with
  | nil => simp [closuresOf]
  | cons v rest ih => simp [closuresOf, ih]

@[simp] theorem closures_absent : absent.closures = [] := by simp [closures]

@[simp] theorem closures_text (content : Bytes) : (text content).closures = [] := by
  simp [closures]

@[simp] theorem closures_list (items : List Value) : (list items).closures = closuresOf items := by
  simp [closures]

@[simp] theorem closures_closure (c : Closure) : (fn (.closure c)).closures = [c] := by
  simp [closures]

@[simp] theorem closures_external (name : Bytes) : (fn (.external name)).closures = [] := by
  simp [closures]

@[simp] theorem closures_builtin (b : Builtin) : (fn (.builtin b)).closures = [] := by
  simp [closures]

@[simp] theorem closuresOf_texts (contents : List Bytes) :
    closuresOf (contents.map text) = [] := by
  induction contents with
  | nil => simp [closuresOf]
  | cons content rest ih => simp [closuresOf, ih]

end Value

/-- The closures in the value that a variable keeps. -/
def Variable.closures : Variable → List Closure
  | .plain _ value => value.closures
  | .readOnly value => value.closures
  | _ => []

/-- A closure is part of a value that some variable keeps or some channel has queued. -/
def World.Stores (w : World) (c : Closure) : Prop :=
  (∃ id x, w.vars.get? id = some x ∧ c ∈ x.closures) ∨
    ∃ id line, w.channels.get? id = some line ∧ ∃ v ∈ line.channel.queue, c ∈ v.closures

/-! ## Calm changes -/

/-- The channel has what was queued on it before, and perhaps more behind that, and is attended if
it was. -/
structure Line.Extends (line line' : Line) : Prop where
  attended : line'.attended = line.attended
  queue : line.channel.queue <+: line'.channel.queue

namespace Line.Extends

protected theorem refl (line : Line) : line.Extends line := ⟨rfl, List.prefix_rfl⟩

protected theorem trans {line line' line'' : Line} (h : line.Extends line')
    (h' : line'.Extends line'') : line.Extends line'' :=
  ⟨h'.attended.trans h.attended, h.queue.trans h'.queue⟩

end Line.Extends

namespace World

/-- Only data has changed from one state to the other, and every closure that is stored afterwards
was stored before or was given. -/
structure Calm (given : Closure → Prop) (w w' : World) : Prop where
  scopes : w'.scopes = w.scopes
  modules : w'.modules = w.modules
  journal : w'.journal = w.journal
  here : w'.here = w.here
  interrupted : w.interrupted = true → w'.interrupted = true
  printed : w'.printed = w.printed
  endpoints : w'.endpoints = w.endpoints
  channels : Table.Kept (fun line ↦ line.channel.closed) w.channels w'.channels
  queues : Table.Follows Line.Extends w.channels w'.channels
  streams : Table.Kept (fun s ↦ (s.holders, s.closed, s.owned)) w.streams w'.streams
  environment : w.environment.Proper → w'.environment.Proper
  closures : ∀ c, w'.Stores c → w.Stores c ∨ given c

namespace Calm

variable {given : Closure → Prop} {w w' w'' : World}

protected theorem refl (w : World) : Calm given w w :=
  ⟨rfl, rfl, rfl, rfl, fun h ↦ h, rfl, rfl, .refl _, .refl .refl _, .refl _, fun h ↦ h, fun _ ↦ .inl⟩

protected theorem trans (h : Calm given w w') (h' : Calm given w' w'') : Calm given w w'' where
  scopes := h'.scopes.trans h.scopes
  modules := h'.modules.trans h.modules
  journal := h'.journal.trans h.journal
  here := h'.here.trans h.here
  interrupted := h'.interrupted ∘ h.interrupted
  printed := h'.printed.trans h.printed
  endpoints := h'.endpoints.trans h.endpoints
  channels := h.channels.trans h'.channels
  queues := h.queues.trans .trans h'.queues
  streams := h.streams.trans h'.streams
  environment := h'.environment ∘ h.environment
  closures c hc := by
    rcases h'.closures c hc with hc | hc
    · exact h.closures c hc
    · exact .inr hc

instance : Std.Refl (Calm given) := ⟨Calm.refl⟩

instance : IsTrans World (Calm given) := ⟨fun _ _ _ ↦ Calm.trans⟩

/-- The parts of a state that nothing else refers to. -/
theorem other (w : World) (pipes : Table Bytes) (files : Host.FileTree) (directory : Host.Path)
    (store : Option (List (Bytes × Bytes))) (stub : Option Stub) (terminal : Bool)
    (parses : Nat) :
    Calm given w { w with pipes, files, directory, store, stub, terminal, parses } :=
  ⟨rfl, rfl, rfl, rfl, fun h ↦ h, rfl, rfl, .refl _, .refl .refl _, .refl _, fun h ↦ h, fun _ ↦ .inl⟩

/-- A name of the environment is set. -/
theorem setEnvironment (w : World) {environment : Host.Environment} {name value : Bytes}
    (hset : w.environment.set? name value = some environment) :
    Calm given w { w with environment } :=
  ⟨rfl, rfl, rfl, rfl, fun h ↦ h, rfl, rfl, .refl _, .refl .refl _, .refl _, fun h ↦ h.set? hset,
    fun _ ↦ .inl⟩

/-- A stream that exists may move on, but is held, open and owned as before. -/
theorem modifyStream (w : World) {id : StreamId} {f : Stream → Stream}
    (hf : ∀ s, (f s).holders = s.holders ∧ (f s).closed = s.closed ∧ (f s).owned = s.owned) :
    Calm given w { w with streams := w.streams.modify id f } where
  scopes := rfl
  modules := rfl
  journal := rfl
  here := rfl
  interrupted h := h
  printed := rfl
  endpoints := rfl
  channels := .refl _
  queues := .refl .refl _
  streams := .modify fun s _ ↦ by rw [(hf s).1, (hf s).2.1, (hf s).2.2]
  environment h := h
  closures _ := .inl

theorem newStream (w : World) (device : Device) (owned : Bool) :
    Calm given w (w.newStream device owned).2 :=
  ⟨rfl, rfl, rfl, rfl, fun h ↦ h, rfl, rfl, .refl _, .refl .refl _, .push _ _, fun h ↦ h, fun _ ↦ .inl⟩

theorem newPipe (w : World) : Calm given w w.newPipe.2 :=
  have hpipe : Calm given w { w with pipes := w.pipes.push [] } :=
    other w _ _ _ _ _ _ _
  (hpipe.trans (newStream _ _ _)).trans (newStream _ _ _)

theorem stores_setVars {vars : Table Variable} {c : Closure}
    (hc : { w with vars }.Stores c) :
    (∃ id x, vars.get? id = some x ∧ c ∈ x.closures) ∨ w.Stores c := by
  rcases hc with hc | hc
  · exact .inl hc
  · exact .inr (.inr hc)

/-- A new variable stores what it is given. -/
theorem newVariable (w : World) {x : Variable} (hx : ∀ c ∈ x.closures, given c) :
    Calm given w (w.newVariable x).2 where
  scopes := rfl
  modules := rfl
  journal := rfl
  here := rfl
  interrupted h := h
  printed := rfl
  endpoints := rfl
  channels := .refl _
  queues := .refl .refl _
  streams := .refl _
  environment h := h
  closures c hc := by
    rcases stores_setVars hc with ⟨id, y, hy, hcy⟩ | hc
    · rcases Table.get?_push_cases hy with hy | ⟨-, rfl⟩
      · exact .inl (.inl ⟨id, y, hy, hcy⟩)
      · exact .inr (hx c hcy)
    · exact .inl hc

/-- A variable that is written stores what it is given. -/
theorem setVariable (w : World) {id : VariableId} {x : Variable} (hx : ∀ c ∈ x.closures, given c) :
    Calm given w { w with vars := w.vars.modify id fun _ ↦ x } where
  scopes := rfl
  modules := rfl
  journal := rfl
  here := rfl
  interrupted h := h
  printed := rfl
  endpoints := rfl
  channels := .refl _
  queues := .refl .refl _
  streams := .refl _
  environment h := h
  closures c hc := by
    rcases stores_setVars hc with ⟨other, y, hy, hcy⟩ | hc
    · rw [Table.get?_modify] at hy
      split at hy
      · obtain ⟨z, -, rfl⟩ := Option.map_eq_some_iff.mp hy
        exact .inr (hx c hcy)
      · exact .inl (.inl ⟨other, y, hy, hcy⟩)
    · exact .inl hc

/-- A value that is sent is given. -/
theorem enqueue (w : World) (id : ChannelId) {v : Value} (hv : ∀ c ∈ v.closures, given c) :
    Calm given w (w.modifyChannel id fun c ↦ c.enqueue v) where
  scopes := rfl
  modules := rfl
  journal := rfl
  here := rfl
  interrupted h := h
  printed := rfl
  endpoints := rfl
  channels := .modify fun _ _ ↦ rfl
  queues := .modify .refl fun _ _ ↦ ⟨rfl, List.prefix_append _ _⟩
  streams := .refl _
  environment h := h
  closures c hc := by
    rcases hc with hc | ⟨other, line', hline', u, hu, hcu⟩
    · exact .inl (.inl hc)
    · change (w.channels.modify _ _).get? _ = _ at hline'
      rw [Table.get?_modify] at hline'
      split at hline'
      · subst other
        obtain ⟨line, hline, rfl⟩ := Option.map_eq_some_iff.mp hline'
        rcases List.mem_append.mp hu with hu | hu
        · exact .inl (.inr ⟨id, line, hline, u, hu, hcu⟩)
        · exact .inr (hv c (List.mem_singleton.mp hu ▸ hcu))
      · exact .inl (.inr ⟨other, line', hline', u, hu, hcu⟩)

/-- A new channel whose queue is empty. -/
theorem newChannel (w : World) {line : Line} (hline : line.channel.queue = []) :
    Calm given w (w.newChannel line).2 where
  scopes := rfl
  modules := rfl
  journal := rfl
  here := rfl
  interrupted h := h
  printed := rfl
  endpoints := rfl
  channels := .push _ _
  queues := .push .refl _ _
  streams := .refl _
  environment h := h
  closures c hc := by
    rcases hc with hc | ⟨id, other, hother, v, hv, hcv⟩
    · exact .inl (.inl hc)
    · rcases Table.get?_push_cases hother with hother | ⟨-, rfl⟩
      · exact .inl (.inr ⟨id, other, hother, v, hv, hcv⟩)
      · rw [hline] at hv
        cases hv

end Calm

/-! ## Values that are taken -/

/-- Values have been taken off the front of the queue of one channel. -/
def Takes (id : ChannelId) (w w' : World) : Prop :=
  ∃ f : Channel Value → Channel Value, w' = w.modifyChannel id f ∧
    ∀ line, w.channels.get? id = some line →
      (f line.channel).closed = line.channel.closed ∧ (f line.channel).queue <:+ line.channel.queue

theorem Takes.drain (w : World) (id : ChannelId) :
    Takes id w (w.modifyChannel id fun c ↦ c.drain.1) :=
  ⟨fun c ↦ c.drain.1, rfl, fun _ _ ↦ ⟨rfl, List.nil_suffix⟩⟩

end World

end Conduit
