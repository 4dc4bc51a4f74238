import Conduit.Proofs.Rules

/-!
# Actions that Comply

An action complies with the rules in a state if the state that it reaches obeys them and has developed
onward, however the action ends, if it raises an error blamed on a span only where the rules allow
it, and if it asks for the kind of the absent value only where the absent value may occur.  A
condition on its result and the state reached may be added.  A quiet action complies in every state
that obeys the rules.
-/

namespace Conduit

open World (Handles Onward)

variable {T : Rules}

/-- The end of an action that complies, in the state that it has reached. -/
def Outcome.Obeys {α : Type} (T : Rules) (w : World) (done : α → World → Prop) : Outcome α → Prop
  | .done a => done a w
  | .raised e => ∀ span ∈ e.span, T.blames w.journal span
  | .foreign _ => True
  | .halted reason => reason = .absentValue → T.absent

/-- The error that a stage has ended with, if it has, is blamed where the rules allow it. -/
def Eval.StageResult.Obeys (T : Rules) (journal : List Event) (result : Eval.StageResult) : Prop :=
  ∀ e, result = .raised e → ∀ span ∈ e.span, T.blames journal span

namespace Act

variable {α β : Type}

/-- However the action ends, the state reached and the end obey the rules. -/
structure Complies (T : Rules) (act : Act α) (w : World) (done : α → World → Prop) : Prop where
  obeys : (act w).2.Obeys T
  onward : Onward w (act w).2
  ends : (act w).1.Obeys T (act w).2 done

/-- The action complies and nothing else is asked of its result. -/
abbrev Plain (T : Rules) (act : Act α) (w : World) : Prop := act.Complies T w fun _ _ ↦ True

namespace Complies

variable {act : Act α} {next : α → Act β} {w : World} {done : α → World → Prop}

theorem mono {done' : α → World → Prop} (h : act.Complies T w done)
    (hd : ∀ a w', w'.Obeys T → Onward w w' → done a w' → done' a w') : act.Complies T w done' := by
  obtain ⟨hobeys, honward, hends⟩ := h
  refine ⟨hobeys, honward, ?_⟩
  rcases hact : act w with ⟨a | _ | _ | _, w'⟩ <;> rw [hact] at hobeys honward hends
  case done => exact hd a w' hobeys honward hends
  all_goals exact hends

theorem plain (h : act.Complies T w done) : act.Plain T w := h.mono fun _ _ _ _ _ ↦ trivial

theorem bind {done' : β → World → Prop} (h : act.Complies T w done)
    (hn : ∀ a w', w'.Obeys T → Onward w w' → done a w' → (next a).Complies T w' done') :
    (act >>= next).Complies T w done' := by
  obtain ⟨hobeys, honward, hends⟩ := h
  rcases hact : act w with ⟨a | _ | _ | _, w'⟩ <;> rw [hact] at hobeys honward hends
  case done =>
    obtain ⟨hobeys', honward', hends'⟩ := hn a w' hobeys honward hends
    refine ⟨?_, ?_, ?_⟩ <;> rw [bind_of_done hact]
    · exact hobeys'
    · exact honward.trans honward'
    · exact hends'
  all_goals
    refine ⟨?_, ?_, ?_⟩ <;> rw [bind_apply, hact]
    · exact hobeys
    · exact honward
    · exact hends

theorem worldBind {next : World → Act β} {done' : β → World → Prop}
    (h : (next w).Complies T w done') : (Act.world >>= next).Complies T w done' :=
  ⟨h.obeys, h.onward, h.ends⟩

theorem pure (hw : w.Obeys T) {a : α} (ha : done a w) :
    (Pure.pure a : Act α).Complies T w done :=
  ⟨hw, .refl w, ha⟩

/-- A quiet action complies; what is known of its results may be added. -/
theorem quietly (hw : w.Obeys T) (h : act.Quiet)
    (hd : ∀ a w', act w = (.done a, w') → done a w') : act.Complies T w done := by
  have hobeys : (act w).2.Obeys T := hw.handles (h.handles w)
  refine ⟨hobeys, .handles (h.handles w), ?_⟩
  have hhere := hobeys.here
  have hsame : (act w).2.here = w.here := (h.handles w).here
  have hends := h.ends w
  rcases hact : act w with ⟨a | e | what | reason, w'⟩ <;> rw [hact] at hends hhere hsame
  case done => exact hd a w' hact
  case raised =>
    intro span hspan
    rw [hends span hspan, ← hsame]
    exact hhere
  case foreign => trivial
  case halted => exact fun heq ↦ absurd heq hends

theorem quiet (hw : w.Obeys T) (h : act.Quiet) : act.Plain T w :=
  quietly hw h fun _ _ _ ↦ trivial

theorem raise (hw : w.Obeys T) {e : Error} (he : ∀ span ∈ e.span, T.blames w.journal span) :
    (Act.raise e : Act α).Complies T w done :=
  ⟨hw, .refl w, he⟩

theorem fail (hw : w.Obeys T) (message : Bytes) : (Act.fail message : Act α).Complies T w done := by
  refine ⟨hw, .refl w, fun span hspan ↦ ?_⟩
  cases hspan
  exact hw.here

/-- Raising an error that is blamed on nothing. -/
theorem raiseUnblamed (hw : w.Obeys T) {e : Error} (he : e.span = none) :
    (Act.raise e : Act α).Complies T w done :=
  raise hw fun span hspan ↦ by
    rw [he] at hspan
    cases hspan

theorem throwForeign (hw : w.Obeys T) (what : Bytes) :
    (Act.throwForeign what : Act α).Complies T w done :=
  ⟨hw, .refl w, trivial⟩

/-- Asking for the kind of the absent value, where it may occur. -/
theorem haltAbsent (hw : w.Obeys T) (habsent : T.absent) :
    (Act.halt .absentValue : Act α).Complies T w done :=
  ⟨hw, .refl w, fun _ ↦ habsent⟩

theorem ofExcept (hw : w.Obeys T) {result : Except Error α} (h : Unblamed result) :
    (Act.ofExcept result).Plain T w :=
  quiet hw (.ofExcept h)

theorem checkInterrupt (hw : w.Obeys T) : Act.checkInterrupt.Plain T w := quiet hw .checkInterrupt

theorem note (hw : w.Obeys T) (event : Event) :
    (Act.modify (World.note event)).Complies T w fun _ w' ↦ w' = w.note event :=
  ⟨hw.note event, .of_vars (List.prefix_append _ _) rfl, rfl⟩

/-- A value that is allowed has a kind. -/
theorem kindOf (hw : w.Obeys T) {v : Value} (hv : v.Obeys T w.journal) :
    (Act.kindOf v).Complies T w fun kind w' ↦ w' = w ∧ v.kind? = some kind := by
  unfold Act.kindOf
  cases v with
  | absent => exact haltAbsent hw hv.absent
  | _ => exact pure hw ⟨rfl, rfl⟩

/-! ## Cleanups and spans -/

/-- A cleanup is run in a state that obeys the rules. -/
theorem ensuring {cleanup : World → World} {done' : α → World → Prop} (h : act.Complies T w done)
    (hc : ∀ w', w'.Obeys T → (cleanup w').Obeys T ∧ Onward w' (cleanup w'))
    (hd : ∀ a w', w'.Obeys T → Onward w w' → done a w' → done' a (cleanup w')) :
    (act.ensuring cleanup).Complies T w done' := by
  obtain ⟨hobeys, honward, hends⟩ := h
  obtain ⟨hcleaned, hcleanup⟩ := hc _ hobeys
  refine ⟨hcleaned, honward.trans hcleanup, ?_⟩
  change (act w).1.Obeys T (cleanup (act w).2) done'
  rcases hact : act w with ⟨a | _ | _ | _, w'⟩ <;> rw [hact] at hobeys honward hends hcleanup
  case done => exact hd a w' hobeys honward hends
  case raised => exact fun span hspan ↦ hcleanup.blames (hends span hspan)
  all_goals exact hends

theorem ensuringHandles {cleanup : World → World} (h : act.Plain T w)
    (hc : ∀ w', Handles w' (cleanup w')) : (act.ensuring cleanup).Plain T w :=
  h.ensuring (fun w' hw' ↦ ⟨hw'.handles (hc w'), .handles (hc w')⟩) fun _ _ _ _ _ ↦ trivial

theorem orElseChange {cleanup : World → World} (h : act.Complies T w done)
    (hc : ∀ w', Handles w' (cleanup w')) : (act.orElseChange cleanup).Complies T w done := by
  obtain ⟨hobeys, honward, hends⟩ := h
  rcases hact : act w with ⟨a | _ | _ | _, w'⟩ <;> rw [hact] at hobeys honward hends
  case done =>
    refine ⟨?_, ?_, ?_⟩ <;> unfold Act.orElseChange <;> rw [hact]
    · exact hobeys
    · exact honward
    · exact hends
  all_goals
    have hcleanup : Onward w' (cleanup w') := .handles (hc w')
    refine ⟨?_, ?_, ?_⟩ <;> unfold Act.orElseChange <;> rw [hact]
    · exact hobeys.handles (hc w')
    · exact honward.trans hcleanup
  case raised.refine_3 => exact fun span hspan ↦ hcleanup.blames (hends span hspan)
  all_goals exact hends

/-- A span under evaluation of one's own, on which errors may be blamed. -/
theorem within {done' : α → World → Prop} (hw : w.Obeys T) {span : Span}
    (h : act.Complies T { w with here := span } done)
    (hd : ∀ a w', done a w' → done' a { w' with here := w.here }) :
    (act.within span).Complies T w done' := by
  obtain ⟨hobeys, honward, hends⟩ := h
  have honward' : Onward w (act { w with here := span }).2 := ⟨honward.journal, honward.vars⟩
  refine ⟨.move hobeys.toLawful (honward'.blames hw.here), ⟨honward.journal, honward.vars⟩, ?_⟩
  change (act { w with here := span }).1.Obeys T { (act _).2 with here := w.here } _
  rcases hact : act { w with here := span } with ⟨a | _ | _ | _, w'⟩ <;> rw [hact] at hends
  case done => exact hd a w' hends
  all_goals exact hends

theorem apart {done' : α → World → Prop} (hw : w.Obeys T) (h : act.Complies T w done)
    (hd : ∀ a w', done a w' → done' a { w' with here := w.here }) : act.apart.Complies T w done' :=
  have hwithin : (act.within w.here).Complies T w done' := within hw h hd
  ⟨hwithin.obeys, hwithin.onward, hwithin.ends⟩

/-- An error that is blamed on the span under evaluation, unless it is blamed on another. -/
theorem blames_orSpan {w' : World} (hw : w'.Obeys T) {e : Error}
    (he : ∀ span ∈ e.span, T.blames w'.journal span) :
    ∀ span ∈ (e.orSpan w'.here).span, T.blames w'.journal span := by
  intro span hspan
  unfold Error.orSpan at hspan
  split at hspan
  · exact he span hspan
  · cases hspan
    exact hw.here

/-- What protected evaluation yields is blamed where the rules allow it. -/
theorem attempt {act : Act Unit} (h : act.Plain T w) :
    act.attempt.Complies T w fun error w' ↦
      ∀ e ∈ error, ∃ span ∈ e.span, T.blames w'.journal span := by
  obtain ⟨hobeys, honward, hends⟩ := h
  rcases hact : act w with ⟨_ | e | _ | _, w'⟩ <;> rw [hact] at hobeys honward hends <;>
    (refine ⟨?_, ?_, ?_⟩ <;> unfold Act.attempt <;> rw [hact])
  case done.refine_3 => exact nofun
  case raised.refine_3 =>
    rintro e' ⟨rfl⟩
    have hblames := blames_orSpan hobeys hends
    unfold Error.orSpan at hblames ⊢
    split at hblames
    · rename_i span hspan
      exact ⟨span, hspan, hblames span hspan⟩
    · exact ⟨w'.here, rfl, hblames _ rfl⟩
  case foreign.refine_3 => trivial
  case halted.refine_3 => exact hends
  all_goals first | exact hobeys | exact honward

theorem settled {act : Act Unit} (h : act.Plain T w) :
    (Eval.settled act).Complies T w fun result w' ↦ result.Obeys T w'.journal := by
  obtain ⟨hobeys, honward, hends⟩ := h
  rcases hact : act w with ⟨_ | e | _ | _, w'⟩ <;> rw [hact] at hobeys honward hends <;>
    (refine ⟨?_, ?_, ?_⟩ <;> unfold Eval.settled <;> rw [hact])
  case done.refine_3 => exact nofun
  case raised.refine_3 =>
    rintro e' ⟨rfl⟩
    exact blames_orSpan hobeys hends
  case foreign.refine_3 => exact nofun
  case halted.refine_3 => exact hends
  all_goals first | exact hobeys | exact honward

end Complies

end Act

end Conduit
