import Conduit.Eval.Module
import Conduit.Proofs.Handling.Stages
import Conduit.Proofs.Holding.References
import Conduit.Proofs.Interruption

/-!
# Actions that Heed the Interrupt Flag

An action heeds the interrupt flag if it begins no form once the flag is set, whether before or in the
course of it, and if the flag is set at the end once it has been.  Forms are checked for where they
begin as the sole form of a pipeline, so all of this is asked only where every closure at hand has
pipelines of one form and so has every module whose body begins in the course of the action.  What the
action is given may be a condition as well.

That the journal grows is asked without any condition, so that what is known of the bodies that begin
in the course of an action is known of those that begin in its first steps.
-/

namespace Conduit

open World (Calm Handles Moves)

/-! ## Closures in values -/

namespace Value

/-- The closures in the value have pipelines of one form. -/
def Unpiped (v : Value) : Prop := ∀ c ∈ v.closures, c.body.Unpiped

/-- The closures in the values have pipelines of one form. -/
def AllUnpiped (values : List Value) : Prop := ∀ v ∈ values, v.Unpiped

theorem unpiped_text (content : Bytes) : (text content).Unpiped := by simp [Unpiped]

theorem unpiped_list {items : List Value} : (list items).Unpiped ↔ AllUnpiped items := by
  simp only [Unpiped, AllUnpiped, closures_list, mem_closuresOf]
  exact ⟨fun h v hv c hc ↦ h c ⟨v, hv, hc⟩, fun h c ⟨v, hv, hc⟩ ↦ h v hv c hc⟩

theorem unpiped_closure {c : Closure} : (fn (.closure c)).Unpiped ↔ c.body.Unpiped := by
  simp [Unpiped]

theorem unpiped_builtin (b : Builtin) : (fn (.builtin b)).Unpiped := by simp [Unpiped]

namespace AllUnpiped

variable {v : Value} {values others : List Value}

theorem nil : AllUnpiped [] := nofun

theorem cons (h : v.Unpiped) (hrest : AllUnpiped values) : AllUnpiped (v :: values) := by
  intro u hu
  rcases List.mem_cons.mp hu with rfl | hu
  · exact h
  · exact hrest u hu

theorem append (h : AllUnpiped values) (h' : AllUnpiped others) : AllUnpiped (values ++ others) :=
  fun v hv ↦ (List.mem_append.mp hv).elim (h v) (h' v)

theorem head (h : AllUnpiped (v :: values)) : v.Unpiped := h v List.mem_cons_self

theorem tail (h : AllUnpiped (v :: values)) : AllUnpiped values :=
  fun u hu ↦ h u (List.mem_cons_of_mem _ hu)

end AllUnpiped

end Value

/-! ## Events -/

/-- In the events, the body of a module begins only if every chunk that its text parses to has
pipelines of one form. -/
def Setup.LoadsUnpiped (setup : Setup) (events : List Event) : Prop :=
  ∀ name text, .bodyBegan name text ∈ events → ∀ parser ∈ setup.parser, ∀ chunk,
    parser text = .ok chunk → chunk.Unpiped

namespace Event

/-- Whether an event has to do with the interrupt flag: it is the beginning of a form, which is checked
for the flag, or an interruption. -/
def concernsFlag : Event → Bool
  | .form _ _ | .interrupted => true
  | _ => false

/-- Where a form begins in the events, the interrupt flag is not set: it is not noted to be, was not
set before the events, and nothing has set it among them. -/
def CutOff (flag : Bool) (events : List Event) : Prop :=
  ∀ before span now after, events = before ++ .form span now :: after →
    now = false ∧ flag = false ∧ .interrupted ∉ before

variable {flag flag' : Bool} {events events' : List Event}

theorem CutOff.nil (flag : Bool) : CutOff flag [] := by
  intro before span now after h
  simp at h

theorem CutOff.singleton {event : Event} (h : event.concernsFlag = false) (flag : Bool) :
    CutOff flag [event] := by
  intro before span now after heq
  rcases List.append_eq_singleton_iff.mp heq.symm with ⟨-, hform⟩ | ⟨-, hform⟩
  · cases hform
    cases h
  · cases hform

theorem CutOff.form (span : Span) : CutOff false [.form span false] := by
  intro before span' now after heq
  rcases List.append_eq_singleton_iff.mp heq.symm with ⟨rfl, hform⟩ | ⟨-, hform⟩
  · cases hform
    exact ⟨rfl, rfl, nofun⟩
  · cases hform

/-- Events come after others that have left the flag as it is then. -/
theorem CutOff.append (h : CutOff flag events) (h' : CutOff flag' events')
    (hflag : flag = true ∨ .interrupted ∈ events → flag' = true) : CutOff flag (events ++ events') := by
  have hboth : flag' = false → flag = false ∧ .interrupted ∉ events := by
    intro hclear
    have hneither : ¬(flag = true ∨ .interrupted ∈ events) := fun hset ↦ by
      rw [hflag hset] at hclear
      cases hclear
    obtain ⟨hfirst, hnot⟩ := not_or.mp hneither
    exact ⟨Bool.eq_false_iff.mpr hfirst, hnot⟩
  intro before span now after heq
  rcases List.append_eq_append_iff.mp heq with ⟨between, rfl, hafter⟩ | ⟨between, hbefore, hform⟩
  · obtain ⟨hnow, hclear, hnot⟩ := h' between span now after hafter
    exact ⟨hnow, (hboth hclear).1,
      fun hmem ↦ (List.mem_append.mp hmem).elim (hboth hclear).2 hnot⟩
  · cases between with
    | nil =>
      obtain ⟨hnow, hclear, -⟩ := h' [] span now after hform.symm
      rw [List.append_nil] at hbefore
      exact ⟨hnow, (hboth hclear).1, hbefore ▸ (hboth hclear).2⟩
    | cons event between =>
      obtain ⟨rfl, -⟩ := List.cons.inj hform
      exact h before span now between hbefore

end Event

/-! ## States -/

namespace World

/-- Every closure that is stored has pipelines of one form. -/
def Unpiped (w : World) : Prop := ∀ c, w.Stores c → c.body.Unpiped

/-- From one state to the other, events have been added in which no form begins once the interrupt
flag is set; the flag is set afterwards if it ever was. -/
structure Heeds (w w' : World) (events : List Event) : Prop where
  unpiped : w'.Unpiped
  cutOff : Event.CutOff w.interrupted events
  flag : w.interrupted = true ∨ .interrupted ∈ events → w'.interrupted = true

/-- The interrupt flag stays set. -/
def Raises (w w' : World) : Prop := w.interrupted = true → w'.interrupted = true

variable {w w' w'' : World}

namespace Heeds

variable {events events' : List Event}

theorem trans (h : Heeds w w' events) (h' : Heeds w' w'' events') :
    Heeds w w'' (events ++ events') where
  unpiped := h'.unpiped
  cutOff := h.cutOff.append h'.cutOff h.flag
  flag hset := by
    rcases hset with hset | hset
    · exact h'.flag (.inl (h.flag (.inl hset)))
    · rcases List.mem_append.mp hset with hset | hset
      · exact h'.flag (.inl (h.flag (.inr hset)))
      · exact h'.flag (.inr hset)

/-- Nothing is noted. -/
theorem unnoted (hw : w'.Unpiped) (h : Raises w w') : Heeds w w' [] where
  unpiped := hw
  cutOff := .nil _
  flag hset := h (hset.resolve_right nofun)

end Heeds

theorem Unpiped.calm {given : Closure → Prop} (h : w.Unpiped) (hcalm : Calm given w w')
    (hgiven : ∀ c, given c → c.body.Unpiped) : w'.Unpiped :=
  fun c hc ↦ (hcalm.closures c hc).elim (h c) (hgiven c)

theorem Unpiped.handles (h : w.Unpiped) (hhandles : Handles w w') : w'.Unpiped :=
  fun c hc ↦ h c (hhandles.closures c hc)

/-! ## The flag stays set -/

namespace Raises

theorem of_eq (h : w'.interrupted = w.interrupted) : Raises w w' := fun hset ↦ h.trans hset

theorem holdStream (w : World) (id : Option StreamId) : Raises w (w.holdStream id) := by
  cases id with
  | some id => exact .of_eq rfl
  | none => exact .of_eq rfl

theorem releaseStream (w : World) (id : Option StreamId) : Raises w (w.releaseStream id) := by
  cases id with
  | some id => exact .of_eq rfl
  | none => exact .of_eq rfl

protected theorem trans (h : Raises w w') (h' : Raises w' w'') : Raises w w'' := h' ∘ h

theorem closeEndpoint (w : World) (id : EndpointId) : Raises w (w.closeEndpoint id) := by
  have hrelease := releaseStream w (w.endpoint id).stream
  unfold World.closeEndpoint
  dsimp only
  split
  · exact hrelease.trans (.of_eq rfl)
  · exact hrelease.trans (.of_eq rfl)

theorem dropEndpoint (w : World) (id : EndpointId) : Raises w (w.dropEndpoint id) := by
  unfold World.dropEndpoint
  dsimp only
  split
  · exact (releaseStream w _).trans (.of_eq rfl)
  · exact .of_eq rfl

theorem moves : Moves Raises where
  refl _ h := h
  trans := .trans
  newChannel _ _ := .of_eq rfl
  newStream _ _ _ := .of_eq rfl
  newEndpoint w e := (holdStream w e.stream).trans (.of_eq rfl)
  referTo _ _ := .of_eq rfl
  closeEndpoint := closeEndpoint
  dropEndpoint := dropEndpoint

end Raises

end World

/-! ## Actions -/

namespace Act

open World (Raises)

variable {α β : Type} {setup : Setup} {given given' : Prop}

/-- The action adds events, and heeds the interrupt flag if the condition holds, the closures that are
stored have pipelines of one form and so have the modules whose bodies begin.  A condition on its
result may be added. -/
def Heeds (setup : Setup) (given : Prop) (act : Act α) (w : World) (done : α → Prop) : Prop :=
  ∃ events, (act w).2.journal = w.journal ++ events ∧
    (given → w.Unpiped → setup.LoadsUnpiped events →
      World.Heeds w (act w).2 events ∧ ∀ a, (act w).1 = .done a → done a)

/-- Nothing else is asked of the result. -/
abbrev Stops (setup : Setup) (given : Prop) (act : Act α) (w : World) : Prop :=
  act.Heeds setup given w fun _ ↦ True

namespace Heeds

variable {act : Act α} {next : α → Act β} {w : World} {done done' : α → Prop}

theorem mono (h : act.Heeds setup given w done) (hgiven : given' → given)
    (hdone : given' → ∀ a, done a → done' a) : act.Heeds setup given' w done' := by
  obtain ⟨events, hjournal, hheeds⟩ := h
  refine ⟨events, hjournal, fun hg hw hloads ↦ ?_⟩
  obtain ⟨hstate, hresult⟩ := hheeds (hgiven hg) hw hloads
  exact ⟨hstate, fun a ha ↦ hdone hg a (hresult a ha)⟩

theorem stops (h : act.Heeds setup given w done) : act.Stops setup given w :=
  h.mono (fun hgiven ↦ hgiven) fun _ _ _ ↦ trivial

theorem assuming (h : act.Heeds setup given w done) (hgiven : given' → given) :
    act.Heeds setup given' w done :=
  h.mono hgiven fun _ _ ha ↦ ha

/-- An action that notes nothing. -/
theorem unnoted (hjournal : (act w).2.journal = w.journal) (hraises : Raises w (act w).2)
    (hw : given → w.Unpiped → (act w).2.Unpiped ∧ ∀ a, (act w).1 = .done a → done a) :
    act.Heeds setup given w done :=
  ⟨[], by rw [hjournal, List.append_nil], fun hgiven hunpiped _ ↦
    ⟨.unnoted (hw hgiven hunpiped).1 hraises, (hw hgiven hunpiped).2⟩⟩

/-- What follows heeds the flag from the state that the first action has led to. -/
theorem bindFrom {done' : β → Prop} (h : act.Heeds setup given w done)
    (hn : ∀ a w', act w = (.done a, w') → (next a).Heeds setup (given ∧ done a) w' done') :
    (act >>= next).Heeds setup given w done' := by
  obtain ⟨events, hjournal, hheeds⟩ := h
  unfold Heeds
  rw [bind_apply]
  rcases hact : act w with ⟨a | e | what | reason, w'⟩ <;> rw [hact] at hjournal hheeds
  case done =>
    obtain ⟨events', hjournal', hheeds'⟩ := hn a w' hact
    refine ⟨events ++ events', ?_, fun hgiven hw hloads ↦ ?_⟩
    · calc (next a w').2.journal = w'.journal ++ events' := hjournal'
        _ = w.journal ++ (events ++ events') := by rw [hjournal, List.append_assoc]
    · have hfirst : setup.LoadsUnpiped events :=
        fun name text hmem ↦ hloads name text (List.mem_append_left _ hmem)
      have hrest : setup.LoadsUnpiped events' :=
        fun name text hmem ↦ hloads name text (List.mem_append_right _ hmem)
      obtain ⟨hstate, hresult⟩ := hheeds hgiven hw hfirst
      obtain ⟨hstate', hresult'⟩ := hheeds' ⟨hgiven, hresult a rfl⟩ hstate.unpiped hrest
      exact ⟨hstate.trans hstate', hresult'⟩
  all_goals
    exact ⟨events, hjournal, fun hgiven hw hloads ↦ ⟨(hheeds hgiven hw hloads).1, nofun⟩⟩

theorem bind {done' : β → Prop} (h : act.Heeds setup given w done)
    (hn : ∀ a w', (next a).Heeds setup (given ∧ done a) w' done') :
    (act >>= next).Heeds setup given w done' :=
  h.bindFrom fun a w' _ ↦ hn a w'

theorem worldBind {next : World → Act β} {done' : β → Prop}
    (h : (next w).Heeds setup given w done') : (Act.world >>= next).Heeds setup given w done' := h

theorem pure {a : α} (ha : given → done a) : (Pure.pure a : Act α).Heeds setup given w done :=
  unnoted rfl (fun h ↦ h) fun hgiven hw ↦ ⟨hw, fun b hb ↦ by cases hb; exact ha hgiven⟩

theorem raise (e : Error) : (Act.raise e : Act α).Heeds setup given w done :=
  unnoted rfl (fun h ↦ h) fun _ hw ↦ ⟨hw, nofun⟩

theorem fail (message : Bytes) : (Act.fail message : Act α).Heeds setup given w done :=
  unnoted rfl (fun h ↦ h) fun _ hw ↦ ⟨hw, nofun⟩

theorem throwForeign (what : Bytes) : (Act.throwForeign what : Act α).Heeds setup given w done :=
  unnoted rfl (fun h ↦ h) fun _ hw ↦ ⟨hw, nofun⟩

theorem halt (reason : Halt) : (Act.halt reason : Act α).Heeds setup given w done :=
  unnoted rfl (fun h ↦ h) fun _ hw ↦ ⟨hw, nofun⟩

/-- A calm action, which is given closures with pipelines of one form. -/
theorem calm (h : Keeps (Calm fun c ↦ given → c.body.Unpiped) act) : act.Stops setup given w :=
  unnoted (h w).journal (h w).interrupted fun hgiven hw ↦
    ⟨hw.calm (h w) fun _ hc ↦ hc hgiven, fun _ _ ↦ trivial⟩

/-- An action that handles endpoints. -/
theorem handles (h : Keeps Handles act) (hraises : Keeps Raises act) : act.Stops setup given w :=
  unnoted (h w).journal (hraises w) fun _ hw ↦ ⟨hw.handles (h w), fun _ _ ↦ trivial⟩

/-- A note that does not concern the flag. -/
theorem note {event : Event} (h : event.concernsFlag = false) :
    (Act.modify (World.note event)).Heeds setup given w fun _ ↦ setup.LoadsUnpiped [event] := by
  refine ⟨[event], rfl, fun _ hw hloads ↦ ⟨⟨hw, .singleton h _, fun hset ↦ ?_⟩, fun _ _ ↦ hloads⟩⟩
  refine hset.resolve_right fun hmem ↦ ?_
  rw [← List.mem_singleton.mp hmem] at h
  cases h

/-- A cleanup that heeds the flag. -/
theorem ensuring {cleanup : World → World} (h : act.Heeds setup given w done)
    (hc : ∀ w', (Act.modify cleanup).Stops setup given w') :
    (act.ensuring cleanup).Heeds setup given w done := by
  obtain ⟨events, hjournal, hheeds⟩ := h
  obtain ⟨events', hjournal', hheeds'⟩ := hc (act w).2
  refine ⟨events ++ events', ?_, fun hgiven hw hloads ↦ ?_⟩
  · calc (cleanup (act w).2).journal = (act w).2.journal ++ events' := hjournal'
      _ = w.journal ++ (events ++ events') := by rw [hjournal, List.append_assoc]
  · have hfirst : setup.LoadsUnpiped events :=
      fun name text hmem ↦ hloads name text (List.mem_append_left _ hmem)
    have hrest : setup.LoadsUnpiped events' :=
      fun name text hmem ↦ hloads name text (List.mem_append_right _ hmem)
    obtain ⟨hstate, hresult⟩ := hheeds hgiven hw hfirst
    exact ⟨hstate.trans (hheeds' hgiven hstate.unpiped hrest).1, hresult⟩

theorem orElseChange {cleanup : World → World} (h : act.Heeds setup given w done)
    (hc : ∀ w', (Act.modify cleanup).Stops setup given w') :
    (act.orElseChange cleanup).Heeds setup given w done := by
  have hcleaned : (act.ensuring cleanup).Heeds setup given w done := h.ensuring hc
  unfold Heeds Act.orElseChange
  unfold Heeds Act.ensuring at hcleaned
  unfold Heeds at h
  rcases hact : act w with ⟨_ | _ | _ | _, w'⟩ <;> rw [hact] at h hcleaned
  case done => exact h
  all_goals exact hcleaned

/-- The span under evaluation does not matter. -/
theorem within {span : Span} (h : act.Heeds setup given { w with here := span } done) :
    (act.within span).Heeds setup given w done := by
  obtain ⟨events, hjournal, hheeds⟩ := h
  refine ⟨events, hjournal, fun hgiven hw hloads ↦ ?_⟩
  obtain ⟨⟨hunpiped, hcutOff, hflag⟩, hresult⟩ := hheeds hgiven hw hloads
  exact ⟨⟨hunpiped, hcutOff, hflag⟩, hresult⟩

theorem apart (h : act.Heeds setup given w done) : act.apart.Heeds setup given w done :=
  within h

theorem attempt {act : Act Unit} (h : act.Stops setup given w) : act.attempt.Stops setup given w := by
  obtain ⟨events, hjournal, hheeds⟩ := h
  have hstate : (act.attempt w).2 = (act w).2 := by
    unfold Act.attempt
    rcases act w with ⟨_ | _ | _ | _, w'⟩ <;> rfl
  refine ⟨events, by rw [hstate, hjournal], fun hgiven hw hloads ↦ ⟨?_, fun _ _ ↦ trivial⟩⟩
  rw [hstate]
  exact (hheeds hgiven hw hloads).1

end Heeds

end Act

end Conduit
