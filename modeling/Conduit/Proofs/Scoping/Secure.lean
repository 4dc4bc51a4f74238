import Conduit.Eval.Pipeline
import Conduit.Proofs.Scoping.Soundness

/-!
# Secure Actions

An action is secure in a sound state if the state that it reaches is sound and scopes have only
gained names, however the action ends.  A condition on its result and the state reached may be added.
The rules are those for postconditions, with soundness and growth handed on from step to step.
-/

namespace Conduit

open World (Grows Calm Handles)

/-! ## Secure actions -/

namespace Act

variable {α β : Type}

/-- However the action ends, the state reached is sound and has grown; a result meets the
condition. -/
def Secure (act : Act α) (w : World) (done : α → World → Prop) : Prop :=
  act.Leads w (fun a w' ↦ w'.Sound ∧ Grows w w' ∧ done a w') fun w' ↦ w'.Sound ∧ Grows w w'

/-- The action is secure and nothing else is asked of its result. -/
abbrev Safe (act : Act α) (w : World) : Prop := act.Secure w fun _ _ ↦ True

namespace Secure

variable {act : Act α} {next : α → Act β} {w : World} {done : α → World → Prop}

theorem mono {done' : α → World → Prop} (h : act.Secure w done)
    (hd : ∀ a w', w'.Sound → Grows w w' → done a w' → done' a w') : act.Secure w done' :=
  Leads.mono h (fun a w' ⟨hs, hg, ha⟩ ↦ ⟨hs, hg, hd a w' hs hg ha⟩) fun _ hb ↦ hb

theorem safe (h : act.Secure w done) : act.Safe w := h.mono fun _ _ _ _ _ ↦ trivial

theorem bind {done' : β → World → Prop} (h : act.Secure w done)
    (hn : ∀ a w', w'.Sound → Grows w w' → done a w' → (next a).Secure w' done') :
    (act >>= next).Secure w done' := by
  refine Leads.bind h fun a w' ⟨hs, hg, ha⟩ ↦ ?_
  refine Leads.mono (hn a w' hs hg ha) (fun b w'' ⟨hs', hg', hb⟩ ↦ ?_) fun w'' ⟨hs', hg'⟩ ↦ ?_
  · exact ⟨hs', hg.trans hg', hb⟩
  · exact ⟨hs', hg.trans hg'⟩

theorem pure (hw : w.Sound) {a : α} (ha : done a w) : (Pure.pure a : Act α).Secure w done :=
  ⟨hw, .refl w, ha⟩

theorem raise (hw : w.Sound) (e : Error) : (Act.raise e : Act α).Secure w done := ⟨hw, .refl w⟩

theorem throwForeign (hw : w.Sound) (what : Bytes) :
    (Act.throwForeign what : Act α).Secure w done :=
  ⟨hw, .refl w⟩

theorem halt (hw : w.Sound) (reason : Halt) : (Act.halt reason : Act α).Secure w done :=
  ⟨hw, .refl w⟩

theorem fail (hw : w.Sound) (message : Bytes) : (Act.fail message : Act α).Secure w done :=
  ⟨hw, .refl w⟩

theorem ofExcept (hw : w.Sound) (result : Except Error α) : (Act.ofExcept result).Safe w := by
  cases result with
  | ok a => exact pure hw trivial
  | error e => exact raise hw e

theorem worldBind {next : World → Act β} {done' : β → World → Prop}
    (h : (next w).Secure w done') : (Act.world >>= next).Secure w done' := h

/-- Calm actions are secure as long as they are given sound closures. -/
theorem calmLeads {given : Closure → Prop} (hw : w.Sound) (hgiven : ∀ c, given c → c.Sound w)
    (h : act.Leads w (fun a w' ↦ Calm given w w' ∧ done a w') (Calm given w)) :
    act.Secure w done :=
  Leads.mono h (fun _ _ ⟨hcalm, ha⟩ ↦ ⟨hw.calm hcalm hgiven, .of_scopes hcalm.scopes, ha⟩)
    fun _ hcalm ↦ ⟨hw.calm hcalm hgiven, .of_scopes hcalm.scopes⟩

theorem calm (hw : w.Sound) (h : Keeps (Calm (·.Sound w)) act) : act.Safe w :=
  calmLeads hw (fun _ hc ↦ hc) ((Leads.ofKeeps h).mono (fun _ _ hcalm ↦ ⟨hcalm, trivial⟩)
    fun _ hcalm ↦ hcalm)

theorem checkInterrupt (hw : w.Sound) : Act.checkInterrupt.Safe w := calm hw .checkInterrupt

theorem handles (hw : w.Sound) (h : Keeps Handles act) : act.Safe w :=
  (Leads.ofKeeps h).mono (fun _ _ hh ↦ ⟨hw.handles hh, .of_scopes hh.scopes, trivial⟩)
    fun _ hh ↦ ⟨hw.handles hh, .of_scopes hh.scopes⟩

/-- What an action yields whenever it does may be used beside the condition on its result. -/
theorem yielding {Q : α → Prop} (h : act.Secure w done) (hQ : act.Yields Q) :
    act.Secure w fun a w' ↦ done a w' ∧ Q a := by
  have hyield := hQ w
  unfold Secure Leads at h ⊢
  unfold Leads at hyield
  rcases hact : act w with ⟨_ | _ | _ | _, w'⟩ <;> rw [hact] at h hyield
  case done a => exact ⟨h.1, h.2.1, h.2.2, hyield⟩
  all_goals exact h

/-- A cleanup is run in a sound state as well. -/
theorem ensuringSound {cleanup : World → World} (h : act.Secure w done)
    (hc : ∀ w', w'.Sound → (cleanup w').Sound ∧ Grows w' (cleanup w'))
    (hd : ∀ a w', done a w' → done a (cleanup w')) : (act.ensuring cleanup).Secure w done := by
  refine Leads.ensuring h (fun a w' ⟨hs, hg, ha⟩ ↦ ?_) fun w' ⟨hs, hg⟩ ↦ ?_
  · exact ⟨(hc w' hs).1, hg.trans (hc w' hs).2, hd a w' ha⟩
  · exact ⟨(hc w' hs).1, hg.trans (hc w' hs).2⟩

theorem ensuring {cleanup : World → World} (h : act.Safe w)
    (hc : ∀ w', Handles w' (cleanup w')) : (act.ensuring cleanup).Safe w :=
  h.ensuringSound (fun w' hs ↦ ⟨hs.handles (hc w'), .of_scopes (hc w').scopes⟩) fun _ _ ↦ id

theorem orElseChange {cleanup : World → World} (h : act.Secure w done)
    (hc : ∀ w', Handles w' (cleanup w')) : (act.orElseChange cleanup).Secure w done :=
  Leads.orElseChange h
    fun w' ⟨hs, hg⟩ ↦ ⟨hs.handles (hc w'), hg.trans (.of_scopes (hc w').scopes)⟩

theorem moved (hw : w.Sound) (span : Span) : { w with here := span }.Sound :=
  hw.scopes (.of_scopes rfl) rfl rfl rfl

/-- The span under evaluation does not matter. -/
theorem within (span : Span) (h : act.Safe { w with here := span }) : (act.within span).Safe w := by
  unfold Safe Secure Leads at h
  unfold Safe Secure Leads Act.within
  dsimp only
  rcases hact : act { w with here := span } with ⟨_ | _ | _ | _, w'⟩ <;> rw [hact] at h
  case done a =>
    obtain ⟨hs, hg, -⟩ := h
    exact ⟨moved hs w.here, ⟨hg.size_le, hg.has⟩, trivial⟩
  all_goals
    obtain ⟨hs, hg⟩ := h
    exact ⟨moved hs w.here, ⟨hg.size_le, hg.has⟩⟩

theorem apart (h : act.Safe w) : act.apart.Safe w := within w.here h

theorem attempt {act : Act Unit} (h : act.Safe w) : act.attempt.Safe w := by
  unfold Safe Secure Leads at h
  unfold Safe Secure Leads Act.attempt
  rcases hact : act w with ⟨_ | _ | _ | _, w'⟩ <;> rw [hact] at h
  case done a => exact h
  case raised e => exact ⟨h.1, h.2, trivial⟩
  all_goals exact h

theorem settled {act : Act Unit} (h : act.Safe w) : (Eval.settled act).Safe w := by
  unfold Safe Secure Leads at h
  unfold Safe Secure Leads Eval.settled
  rcases hact : act w with ⟨_ | _ | _ | _, w'⟩ <;> rw [hact] at h
  case done a => exact h
  case halted reason => exact h
  all_goals exact ⟨h.1, h.2, trivial⟩

end Secure

end Act

end Conduit
