import Mathlib.Order.Defs.Unbundled
import Mathlib.Tactic.Common
import Conduit.Act

/-!
# What Actions Keep and where they Lead

An action keeps a relation between states if the state it ends in is related to the one it started
in, however it ends.  For a reflexive and transitive relation this passes from the steps of an action
to the whole.  Where the result of a step matters to the next one, an action is said to lead from a
state to a postcondition on its result and the state reached, with a condition of its own on the
states in which it breaks off.
-/

namespace Conduit

/-- An error blamed where it is caught keeps its kind and its message, and the span that it has. -/
theorem Error.orSpan_eq (e : Error) (span : Span) :
    e.orSpan span = ⟨e.kind, e.message, some (e.span.getD span)⟩ := by
  obtain ⟨kind, message, _ | _⟩ := e <;> rfl

namespace Act

variable {α β : Type}

/-- An action that looks at the state first is given the state that it starts in. -/
theorem world_bind (next : World → Act β) (w : World) : (Act.world >>= next) w = next w w := rfl

theorem change_bind (f : World → α × World) (next : α → Act β) (w : World) :
    (Act.change f >>= next) w = next (f w).1 (f w).2 := rfl

theorem modify_bind (f : World → World) (next : Unit → Act β) (w : World) :
    (Act.modify f >>= next) w = next () (f w) := rfl

theorem bind_apply (act : Act α) (next : α → Act β) (w : World) :
    (act >>= next) w = match act w with
      | (.done a, w) => next a w
      | (.raised e, w) => (.raised e, w)
      | (.foreign what, w) => (.foreign what, w)
      | (.halted reason, w) => (.halted reason, w) := rfl

theorem ensuring_state (act : Act α) (cleanup : World → World) (w : World) :
    (act.ensuring cleanup w).2 = cleanup (act w).2 := rfl

theorem bind_of_done {act : Act α} {next : α → Act β} {w w₁ : World} {a : α}
    (h : act w = (.done a, w₁)) : (act >>= next) w = next a w₁ := by
  change Act.bind act next w = next a w₁
  unfold Act.bind
  rw [h]

theorem checkInterrupt_clear {w : World} (h : w.interrupted = false) :
    checkInterrupt w = (.done (), w) := by
  rw [checkInterrupt, h]
  rfl

theorem checkInterrupt_set {w : World} (h : w.interrupted = true) :
    checkInterrupt w = (.raised .interrupted, w) := by
  rw [checkInterrupt, h]
  rfl

/-- A composed action yields a result only after its first part has. -/
theorem done_of_bind {act : Act α} {next : α → Act β} {w w' : World} {b : β}
    (h : (act >>= next) w = (.done b, w')) :
    ∃ a w₁, act w = (.done a, w₁) ∧ next a w₁ = (.done b, w') := by
  change Act.bind act next w = _ at h
  unfold Act.bind at h
  rcases hact : act w with ⟨_ | _ | _ | _, w₁⟩ <;> rw [hact] at h
  case done a => exact ⟨a, w₁, rfl, h⟩
  all_goals cases h

/-- Protected evaluation without an error has yielded a result. -/
theorem done_of_attempt {act : Act Unit} {w w' : World} (h : act.attempt w = (.done none, w')) :
    act w = (.done (), w') := by
  unfold Act.attempt at h
  rcases hact : act w with ⟨_ | _ | _ | _, w₁⟩ <;> rw [hact] at h
  case done a =>
    cases h
    rfl
  all_goals cases h

/-- An error of a composed action comes from the first part, or from the second one after the first
has yielded a result. -/
theorem raised_of_bind {act : Act α} {next : α → Act β} {w w' : World} {e : Error}
    (h : (act >>= next) w = (.raised e, w')) :
    act w = (.raised e, w') ∨ ∃ a w₁, act w = (.done a, w₁) ∧ next a w₁ = (.raised e, w') := by
  change Act.bind act next w = _ at h
  unfold Act.bind at h
  rcases hact : act w with ⟨_ | _ | _ | _, w₁⟩ <;> rw [hact] at h
  case done a => exact .inr ⟨a, w₁, rfl, h⟩
  case raised error =>
    cases h
    exact .inl rfl
  all_goals cases h

instance : LawfulMonad Act := by
  refine LawfulMonad.mk' Act (fun act ↦ ?_) (fun _ _ ↦ rfl) fun act next last ↦ ?_
  · funext w
    change (act >>= pure) w = act w
    rw [bind_apply]
    rcases act w with ⟨_ | _ | _ | _, w'⟩ <;> rfl
  · funext w
    simp only [bind_apply]
    rcases act w with ⟨_ | _ | _ | _, w'⟩ <;> rfl

/-! ## Relations that are kept -/

/-- However the action ends, the state reached is related to the one it started in. -/
def Keeps (R : World → World → Prop) (act : Act α) : Prop := ∀ w, R w (act w).2

namespace Keeps

variable {R S : World → World → Prop} {act : Act α} {next : α → Act β}

theorem mono (h : Keeps R act) (hRS : ∀ w w', R w w' → S w w') : Keeps S act :=
  fun w ↦ hRS w _ (h w)

theorem modify {f : World → World} (h : ∀ w, R w (f w)) : Keeps R (Act.modify f) := h

theorem change {f : World → α × World} (h : ∀ w, R w (f w).2) : Keeps R (Act.change f) := h

section Preorder

variable [Std.Refl R]

theorem pure (a : α) : Keeps R (Pure.pure a : Act α) := fun w ↦ refl_of R w

theorem world : Keeps R Act.world := fun w ↦ refl_of R w

theorem raise (e : Error) : Keeps R (Act.raise e : Act α) := fun w ↦ refl_of R w

theorem throwForeign (what : Bytes) : Keeps R (Act.throwForeign what : Act α) :=
  fun w ↦ refl_of R w

theorem halt (reason : Halt) : Keeps R (Act.halt reason : Act α) := fun w ↦ refl_of R w

theorem fail (message : Bytes) : Keeps R (Act.fail message : Act α) := fun w ↦ refl_of R w

theorem ofExcept (result : Except Error α) : Keeps R (Act.ofExcept result) := by
  cases result with
  | ok a => exact pure a
  | error e => exact raise e

theorem orHalt (reason : Halt) (result : Option α) : Keeps R (Act.orHalt reason result) := by
  cases result with
  | some a => exact pure a
  | none => exact halt reason

theorem checkInterrupt : Keeps R Act.checkInterrupt := by
  intro w
  unfold Act.checkInterrupt
  split <;> exact refl_of R w

end Preorder

theorem bind [IsTrans World R] (h : Keeps R act) (hn : ∀ a, Keeps R (next a)) :
    Keeps R (act >>= next) := by
  intro w
  have hw := h w
  change R w (Act.bind act next w).2
  unfold Act.bind
  rcases hact : act w with ⟨_ | _ | _ | _, w'⟩ <;> rw [hact] at hw
  case done a => exact trans_of R hw (hn a w')
  all_goals exact hw

theorem worldBind {next : World → Act β} (h : ∀ w, R w (next w w).2) :
    Keeps R (Act.world >>= next) := h

theorem map [Std.Refl R] [IsTrans World R] (f : α → β) (h : Keeps R act) : Keeps R (f <$> act) :=
  bind h fun a ↦ pure (f a)

theorem ensuring [IsTrans World R] {cleanup : World → World} (h : Keeps R act)
    (hc : ∀ w, R w (cleanup w)) : Keeps R (act.ensuring cleanup) :=
  fun w ↦ trans_of R (h w) (hc _)

theorem orElseChange [IsTrans World R] {cleanup : World → World} (h : Keeps R act)
    (hc : ∀ w, R w (cleanup w)) : Keeps R (act.orElseChange cleanup) := by
  intro w
  have hw := h w
  unfold Act.orElseChange
  rcases hact : act w with ⟨_ | _ | _ | _, w'⟩ <;> rw [hact] at hw
  case done a => exact hw
  all_goals exact trans_of R hw (hc w')

theorem attempt {act : Act Unit} (h : Keeps R act) : Keeps R act.attempt := by
  intro w
  have hw := h w
  unfold Act.attempt
  rcases hact : act w with ⟨_ | _ | _ | _, w'⟩ <;> rw [hact] at hw <;> exact hw

/-- A span of one's own under evaluation does not matter to a relation that no span matters to. -/
theorem within [IsTrans World R] (hmove : ∀ (w : World) (span : Span), R w { w with here := span })
    {span : Span} (h : Keeps R act) : Keeps R (act.within span) :=
  fun w ↦ trans_of R (trans_of R (hmove w span) (h _)) (hmove _ _)

theorem apart [IsTrans World R] (hmove : ∀ (w : World) (span : Span), R w { w with here := span })
    (h : Keeps R act) : Keeps R act.apart :=
  fun w ↦ within hmove h w

end Keeps

/-! ## Postconditions -/

/-- From a state, the action yields a result that meets `done` together with the state reached, or
breaks off in a state that meets `broken`. -/
def Leads (act : Act α) (w : World) (done : α → World → Prop) (broken : World → Prop) : Prop :=
  match act w with
  | (.done a, w) => done a w
  | (_, w) => broken w

namespace Leads

variable {R : World → World → Prop} {act : Act α} {next : α → Act β} {w : World}
  {done : α → World → Prop} {broken : World → Prop}

theorem mono {done' : α → World → Prop} {broken' : World → Prop} (h : act.Leads w done broken)
    (hd : ∀ a w, done a w → done' a w) (hb : ∀ w, broken w → broken' w) :
    act.Leads w done' broken' := by
  unfold Leads at h ⊢
  rcases hact : act w with ⟨_ | _ | _ | _, w'⟩ <;> rw [hact] at h
  case done a => exact hd a w' h
  all_goals exact hb w' h

theorem bind {done' : β → World → Prop} (h : act.Leads w done broken)
    (hn : ∀ a w, done a w → (next a).Leads w done' broken) :
    (act >>= next).Leads w done' broken := by
  change Leads (Act.bind act next) w done' broken
  unfold Leads at h
  unfold Leads Act.bind
  rcases hact : act w with ⟨_ | _ | _ | _, w'⟩ <;> rw [hact] at h
  case done a => exact hn a w' h
  all_goals exact h

theorem ensuring {cleanup : World → World} {done' : α → World → Prop} {broken' : World → Prop}
    (h : act.Leads w done broken) (hd : ∀ a w, done a w → done' a (cleanup w))
    (hb : ∀ w, broken w → broken' (cleanup w)) : (act.ensuring cleanup).Leads w done' broken' := by
  unfold Leads at h
  unfold Leads Act.ensuring
  rcases hact : act w with ⟨_ | _ | _ | _, w'⟩ <;> rw [hact] at h
  case done a => exact hd a w' h
  all_goals exact hb w' h

theorem orElseChange {cleanup : World → World} {broken' : World → Prop}
    (h : act.Leads w done broken) (hb : ∀ w, broken w → broken' (cleanup w)) :
    (act.orElseChange cleanup).Leads w done broken' := by
  unfold Leads at h
  unfold Leads Act.orElseChange
  rcases hact : act w with ⟨_ | _ | _ | _, w'⟩ <;> rw [hact] at h
  case done a => exact h
  all_goals exact hb w' h

theorem trivial (act : Act α) (w : World) : act.Leads w (fun _ _ ↦ True) fun _ ↦ True := by
  unfold Leads
  split <;> exact True.intro

/-- What an action keeps may be used beside what it leads to. -/
theorem keeping (h : act.Leads w done broken) (hR : Keeps R act) :
    act.Leads w (fun a w' ↦ done a w' ∧ R w w') (fun w' ↦ broken w' ∧ R w w') := by
  have hw := hR w
  unfold Leads at h ⊢
  rcases hact : act w with ⟨_ | _ | _ | _, w'⟩ <;> rw [hact] at h hw <;> exact ⟨h, hw⟩

theorem ofKeeps (hR : Keeps R act) : act.Leads w (fun _ w' ↦ R w w') (R w) := by
  have hw := hR w
  unfold Leads
  rcases hact : act w with ⟨_ | _ | _ | _, w'⟩ <;> rw [hact] at hw <;> exact hw

/-- A cleanup runs however the action ends. -/
theorem cleanup {f : World → World} {P : World → Prop} (hR : Keeps R act)
    (hf : ∀ w', R w w' → P (f w')) : (act.ensuring f).Leads w (fun _ ↦ P) P :=
  (ofKeeps hR).ensuring (fun _ ↦ hf) hf

/-- What holds of the state reached in either case holds of it however the action ends. -/
theorem state {P : World → Prop} (h : act.Leads w (fun _ ↦ P) P) : P (act w).2 := by
  unfold Leads at h
  rcases hact : act w with ⟨_ | _ | _ | _, w'⟩ <;> rw [hact] at h <;> exact h

end Leads

/-- Whenever the action yields a result, the result has the property. -/
def Yields (Q : α → Prop) (act : Act α) : Prop :=
  ∀ w, act.Leads w (fun a _ ↦ Q a) fun _ ↦ True

/-- The next action need only be looked at for results that the first one can have. -/
theorem Keeps.bindYield {R : World → World → Prop} {Q : α → Prop} {act : Act α} {next : α → Act β}
    [IsTrans World R] (h : Keeps R act) (hQ : act.Yields Q) (hn : ∀ a, Q a → Keeps R (next a)) :
    Keeps R (act >>= next) := by
  intro w
  have hlead := ((hQ w).keeping h).mono (fun _ _ ha ↦ ha) fun _ hw ↦ hw.2
  refine (hlead.bind fun a w' ha ↦ ?_).state
  refine (Leads.ofKeeps (hn a ha.1) (w := w')).mono (fun _ w'' hw ↦ ?_) fun w'' hw ↦ ?_
  · exact trans_of R ha.2 hw
  · exact trans_of R ha.2 hw

end Act

end Conduit
