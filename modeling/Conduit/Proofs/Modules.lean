import Mathlib.Data.List.Chain
import Mathlib.Data.List.Dedup
import Mathlib.Data.List.Perm.Subperm
import Mathlib.Logic.Relation
import Conduit.Proofs.Persistent.Binding

/-!
# Loads and how they Nest

The journal notes where the load of a module begins and where it ends.  The loads in progress at a
moment are those that have begun and not ended before it.  In the events that any piece of
evaluation adds, loads are nested in each other like brackets: one that begins inside another ends
inside it.

Nothing here keeps a module from being loaded inside a load of itself.  It takes a cycle of imports,
where one module imports another if a load of the other begins while its own load is the innermost
one.  Without such a cycle the loads in progress are of different modules.
-/

namespace Conduit

namespace Event

/-- The module that an event begins to load. -/
def begins? : Event → Option Bytes
  | .loadBegan name => some name
  | _ => none

/-- The modules whose load begins in some events, in order. -/
def begun (events : List Event) : List Bytes := events.filterMap begins?

/-- The loads in progress after an event, the innermost one first. -/
def enter (nest : List Bytes) : Event → List Bytes
  | .loadBegan name => name :: nest
  | .loadEnded _ => nest.tail
  | _ => nest

/-- The loads in progress after some events, of those that have begun in them. -/
def nest (events : List Event) : List Bytes := events.foldl enter []

/-- Every load that begins ends, and does so after the ones that have begun inside it. -/
inductive Nested : List Event → Prop
  | nil : Nested []
  | other {event : Event} {events : List Event} : event.isLoad = false → Nested events →
      Nested (event :: events)
  | load {name : Bytes} {inner rest : List Event} : Nested inner → Nested rest →
      Nested (.loadBegan name :: (inner ++ .loadEnded name :: rest))

/-- A load of one module begins while the load of another is the innermost one. -/
def Imports (events : List Event) (outer inner : Bytes) : Prop :=
  ∃ before after, events = before ++ .loadBegan inner :: after ∧ (nest before).head? = some outer

/-- No module imports itself through any number of others. -/
def Acyclic (events : List Event) : Prop :=
  ∀ name, ¬Relation.TransGen (Imports events) name name

variable {events events' before : List Event}

theorem begun_append (events events' : List Event) :
    begun (events ++ events') = begun events ++ begun events' :=
  List.filterMap_append

theorem begun_around (name : Bytes) (events : List Event) :
    begun (.loadBegan name :: (events ++ [.loadEnded name])) = name :: begun events :=
  (congrArg (name :: ·) (begun_append events _)).trans (by simp [begun, begins?])

theorem begun_of_not_isLoad {event : Event} (h : event.isLoad = false) : begun [event] = [] := by
  cases event with
  | loadBegan name => cases h
  | _ => rfl

theorem nest_snoc (events : List Event) (event : Event) :
    nest (events ++ [event]) = enter (nest events) event :=
  List.foldl_append

theorem enter_of_not_isLoad {event : Event} (h : event.isLoad = false) (nest : List Bytes) :
    enter nest event = nest := by
  cases event with
  | loadBegan name => cases h
  | loadEnded name => cases h
  | _ => rfl

namespace Nested

theorem append (h : Nested events) (h' : Nested events') : Nested (events ++ events') := by
  induction h with
  | nil => exact h'
  | other hevent _ ih => exact .other hevent ih
  | load hinner _ _ ihrest =>
    rw [List.cons_append, List.append_assoc, List.cons_append]
    exact .load hinner ihrest

theorem foldl_enter (h : Nested events) (outside : List Bytes) :
    events.foldl enter outside = outside := by
  induction h generalizing outside with
  | nil => rfl
  | other hevent _ ih =>
    rw [List.foldl_cons, enter_of_not_isLoad hevent]
    exact ih outside
  | @load name inner rest _ _ ihinner ihrest =>
    calc (Event.loadBegan name :: (inner ++ .loadEnded name :: rest)).foldl enter outside
        = (inner ++ .loadEnded name :: rest).foldl enter (name :: outside) := rfl
      _ = (Event.loadEnded name :: rest).foldl enter (name :: outside) := by
        rw [List.foldl_append, ihinner]
      _ = outside := ihrest outside

/-- What has begun in nested events has ended after them. -/
theorem nest_eq_nil (h : Nested events) : nest events = [] := h.foldl_enter []

end Nested

/-! ## Cycles of imports -/

theorem mem_begun_of_mem_nest {name : Bytes} (h : name ∈ nest events) : name ∈ begun events := by
  induction events using List.reverseRecOn with
  | nil => cases h
  | append_singleton before event ih =>
    rw [nest_snoc] at h
    rw [begun_append, List.mem_append]
    cases event with
    | loadBegan other =>
      rcases List.mem_cons.mp h with rfl | h
      · exact .inr List.mem_cons_self
      · exact .inl (ih h)
    | loadEnded other => exact .inl (ih (List.mem_of_mem_tail h))
    | _ => exact .inl (ih h)

theorem begun_subset (h : before <+: events) : begun before ⊆ begun events := by
  obtain ⟨after, rfl⟩ := h
  rw [begun_append]
  exact List.subset_append_left _ _

/-- Of two loads of which one is directly inside the other, the outer module imports the inner. -/
theorem isChain_nest (h : before <+: events) :
    (nest before).IsChain fun inner outer ↦ Imports events outer inner := by
  induction before using List.reverseRecOn with
  | nil => exact .nil
  | append_singleton before event ih =>
    have hchain := ih ((List.prefix_append before [event]).trans h)
    obtain ⟨after, rfl⟩ := h
    rw [nest_snoc]
    cases event with
    | loadBegan name =>
      refine List.isChain_cons.mpr ⟨fun outer houter ↦ ⟨before, after, ?_, houter⟩, hchain⟩
      rw [List.append_assoc]
      rfl
    | loadEnded name => exact hchain.tail
    | _ => exact hchain

/-- Without a cycle of imports no module is loaded inside a load of itself. -/
theorem Acyclic.nodup_nest (hevents : Acyclic events) (h : before <+: events) :
    (nest before).Nodup := by
  have hchain : (nest before).IsChain fun inner outer ↦
      Relation.TransGen (Imports events) outer inner :=
    (isChain_nest h).imp fun _ _ ↦ Relation.TransGen.single
  have htrans : IsTrans Bytes fun inner outer ↦ Relation.TransGen (Imports events) outer inner :=
    ⟨fun _ _ _ h h' ↦ h'.trans h⟩
  refine (List.isChain_iff_pairwise.mp hchain).imp fun {inner outer} himports heq ↦ ?_
  exact hevents outer (heq ▸ himports)

/-- Without a cycle of imports the nest of loads is no deeper than there are modules to load. -/
theorem Acyclic.length_nest_le (hevents : Acyclic events) (h : before <+: events) :
    (nest before).length ≤ (begun events).dedup.length := by
  have hsub : nest before ⊆ (begun events).dedup := fun name hname ↦
    List.mem_dedup.mpr (begun_subset h (mem_begun_of_mem_nest hname))
  exact (List.Nodup.subperm (hevents.nodup_nest h) hsub).length_le

theorem Imports.idxOf_lt {outer inner : Bytes} (h : Imports events outer inner)
    (hevents : (begun events).Nodup) :
    (begun events).idxOf outer < (begun events).idxOf inner := by
  obtain ⟨before, after, rfl, houter⟩ := h
  have hbegun : begun (before ++ .loadBegan inner :: after) = begun before ++ inner :: begun after :=
    begun_append before _
  rw [hbegun] at hevents ⊢
  have hmem : outer ∈ begun before := mem_begun_of_mem_nest (List.mem_of_mem_head? houter)
  have hnotMem : inner ∉ begun before := fun hinner ↦
    (List.nodup_append.mp hevents).2.2 inner hinner inner List.mem_cons_self rfl
  calc (begun before ++ inner :: begun after).idxOf outer
      = (begun before).idxOf outer := List.idxOf_append_of_mem hmem
    _ < (begun before).length := List.idxOf_lt_length_of_mem hmem
    _ ≤ (begun before ++ inner :: begun after).idxOf inner := by
      rw [List.idxOf_append_of_notMem hnotMem]
      exact Nat.le_add_right _ _

/-- Modules that are loaded once each do not import each other in a cycle. -/
theorem acyclic_of_nodup (hevents : (begun events).Nodup) : Acyclic events := by
  intro name hcycle
  have hlt : ∀ outer inner, Relation.TransGen (Imports events) outer inner →
      (begun events).idxOf outer < (begun events).idxOf inner := by
    intro outer inner himports
    induction himports with
    | single h => exact h.idxOf_lt hevents
    | tail _ h ih => exact Nat.lt_trans ih (h.idxOf_lt hevents)
  exact Nat.lt_irrefl _ (hlt name name hcycle)

end Event

/-! ## The relation -/

namespace World

open Event (Nested begun)

/-- The journal has been extended by nested events in which loads begin only of modules that were not
registered before, and no other registration has changed. -/
def Loads (w w' : World) : Prop :=
  ∃ events, w'.journal = w.journal ++ events ∧ Nested events ∧
    (∀ name ∈ begun events, w.module? name = none) ∧
      ∀ name, name ∉ begun events → w'.module? name = w.module? name

namespace Loads

variable {w w' w'' : World}

/-- Nothing is loaded where modules and journal stay as they are. -/
theorem of_same (hmodules : w'.modules = w.modules) (hjournal : w'.journal = w.journal) :
    Loads w w' :=
  ⟨[], by rw [hjournal, List.append_nil], .nil, nofun, fun name _ ↦ by rw [module?, hmodules, module?]⟩

/-- What is registered stays registered. -/
theorem kept (h : Loads w w') {name : Bytes} {id : ScopeId} (hname : w.module? name = some id) :
    w'.module? name = some id := by
  obtain ⟨events, -, -, hbegun, hothers⟩ := h
  rw [hothers name fun hmem ↦ ?_, hname]
  rw [hbegun name hmem] at hname
  cases hname

protected theorem trans (h : Loads w w') (h' : Loads w' w'') : Loads w w'' := by
  obtain ⟨events, hevents, hnested, hbegun, hothers⟩ := h
  obtain ⟨events', hevents', hnested', hbegun', hothers'⟩ := h'
  refine ⟨events ++ events', ?_, hnested.append hnested', fun name hname ↦ ?_, fun name hname ↦ ?_⟩
  · rw [hevents', hevents, List.append_assoc]
  · rw [Event.begun_append, List.mem_append] at hname
    by_cases hmem : name ∈ begun events
    · exact hbegun name hmem
    · rw [← hothers name hmem]
      exact hbegun' name (hname.resolve_left hmem)
  · rw [Event.begun_append, List.mem_append, not_or] at hname
    rw [hothers' name hname.2, hothers name hname.1]

theorem note {event : Event} (hevent : event.isLoad = false) (w : World) :
    Loads w (w.note event) := by
  refine ⟨[event], rfl, .other hevent .nil, fun name hname ↦ ?_, fun name _ ↦ rfl⟩
  rw [Event.begun_of_not_isLoad hevent] at hname
  cases hname

theorem journal_around {name : Bytes} {events : List Event}
    (h : w'.journal = (w.note (.loadBegan name)).journal ++ events) :
    (w'.note (.loadEnded name)).journal =
      w.journal ++ .loadBegan name :: (events ++ [.loadEnded name]) := by
  change w'.journal ++ [_] = _
  rw [h]
  simp [World.note]

/-- A load of a module that is not registered, which leaves the other modules to the loads in it. -/
theorem around {name : Bytes} (hname : w.module? name = none) (h : Loads (w.note (.loadBegan name)) w')
    (hothers : ∀ other, other ≠ name → w''.module? other = w'.module? other)
    (hjournal : w''.journal = w'.journal) : Loads w (w''.note (.loadEnded name)) := by
  obtain ⟨events, hevents, hnested, hbegun, hkept⟩ := h
  refine ⟨.loadBegan name :: (events ++ [.loadEnded name]), ?_, .load hnested .nil,
    fun other hother ↦ ?_, fun other hother ↦ ?_⟩
  · exact journal_around (hjournal.trans hevents)
  · rw [Event.begun_around, List.mem_cons] at hother
    rcases hother with rfl | hother
    · exact hname
    · exact hbegun other hother
  · rw [Event.begun_around, List.mem_cons, not_or] at hother
    exact (hothers other hother.1).trans (hkept other hother.2)

instance : Mobile Loads where
  move _ _ := of_same rfl rfl

instance : Tolerant Loads where
  refl _ := of_same rfl rfl
  trans _ _ _ := Loads.trans
  calm h := of_same h.modules h.journal
  handles h := of_same h.modules h.journal
  note _ w hevent := note hevent w
  newScope _ _ := of_same rfl rfl
  failedLoad _ hname h := around hname h (fun _ _ ↦ rfl) rfl
  load _ _ hname h :=
    around hname h (fun _ hother ↦ (module?_register _ _ _ _).trans (if_neg hother)) rfl

instance : Liberal Loads where
  define _ _ _ _ := of_same rfl rfl

end Loads

end World

end Conduit
