import Conduit.Proofs.Action
import Conduit.Proofs.Mirror.Worlds

/-!
# Actions that Mirror Each Other

Two actions mirror each other from two states that do if they end in the same way, with the same
error or exception or for the same reason, and in states that mirror each other again.  Results meet
a condition that may depend on the pairing reached.  The rules follow the ways in which actions are
composed.  An action that neither looks at the memory nor touches it mirrors itself.
-/

namespace Conduit

variable {r s : Pairing} {o o' : ScopeId}

namespace Act

variable {α β α' β' : Type}

/-- Two ends of actions that match. -/
inductive Matched (o o' : ScopeId) (r : Pairing) (Q : Pairing → α → α' → Prop) :
    Outcome α × World → Outcome α' × World → Prop where
  | done {s : Pairing} {a : α} {a' : α'} {w w' : World} (hrs : r ≤ s)
      (hw : w.Mirrors o o' s w') (ha : Q s a a') : Matched o o' r Q (.done a, w) (.done a', w')
  | raised {s : Pairing} {w w' : World} (e : Error) (hrs : r ≤ s) (hw : w.Mirrors o o' s w') :
      Matched o o' r Q (.raised e, w) (.raised e, w')
  | foreign {s : Pairing} {w w' : World} (what : Bytes) (hrs : r ≤ s) (hw : w.Mirrors o o' s w') :
      Matched o o' r Q (.foreign what, w) (.foreign what, w')
  | halted {s : Pairing} {w w' : World} (reason : Halt) (hrs : r ≤ s)
      (hw : w.Mirrors o o' s w') : Matched o o' r Q (.halted reason, w) (.halted reason, w')

/-- The states of ends that match mirror each other. -/
theorem Matched.mirrors {Q : Pairing → α → α' → Prop} {ends : Outcome α × World}
    {ends' : Outcome α' × World} (h : Matched o o' r Q ends ends') :
    ∃ s, r ≤ s ∧ ends.2.Mirrors o o' s ends'.2 := by
  cases h with
  | done hrs hw ha => exact ⟨_, hrs, hw⟩
  | raised e hrs hw => exact ⟨_, hrs, hw⟩
  | foreign what hrs hw => exact ⟨_, hrs, hw⟩
  | halted reason hrs hw => exact ⟨_, hrs, hw⟩

/-- From two states, two actions end in ways that match. -/
def Mirror (o o' : ScopeId) (r : Pairing) (Q : Pairing → α → α' → Prop) (act : Act α)
    (act' : Act α') (w w' : World) : Prop :=
  Matched o o' r Q (act w) (act' w')

/-- The results are the same. -/
abbrev Same (_ : Pairing) (a a' : α) : Prop := a' = a

/-- Nothing is asked of the results. -/
abbrev Any (_ : Pairing) (_ : α) (_ : α') : Prop := True

namespace Mirror

variable {Q : Pairing → α → α' → Prop} {P : Pairing → β → β' → Prop} {act : Act α}
  {act' : Act α'} {next : α → Act β} {next' : α' → Act β'} {w w' : World}

theorem pure (hw : w.Mirrors o o' r w') {a : α} {a' : α'} (ha : Q r a a') :
    Mirror o o' r Q (Pure.pure a) (Pure.pure a') w w' :=
  .done (le_refl r) hw ha

theorem raise (hw : w.Mirrors o o' r w') (e : Error) :
    Mirror o o' r Q (Act.raise e) (Act.raise e) w w' :=
  .raised e (le_refl r) hw

theorem throwForeign (hw : w.Mirrors o o' r w') (what : Bytes) :
    Mirror o o' r Q (Act.throwForeign what) (Act.throwForeign what) w w' :=
  .foreign what (le_refl r) hw

theorem halt (hw : w.Mirrors o o' r w') (reason : Halt) :
    Mirror o o' r Q (Act.halt reason) (Act.halt reason) w w' :=
  .halted reason (le_refl r) hw

theorem fail (hw : w.Mirrors o o' r w') (message : Bytes) :
    Mirror o o' r Q (Act.fail message) (Act.fail message) w w' := by
  have hhere : w'.here = w.here := hw.congr World.here fun _ ↦ rfl
  unfold Mirror Act.fail
  rw [hhere]
  exact .raised _ (le_refl r) hw

theorem mono (h : Mirror o o' s Q act act' w w') (hrs : r ≤ s) : Mirror o o' r Q act act' w w' := by
  unfold Mirror at h ⊢
  generalize act w = ends, act' w' = ends' at h
  cases h with
  | done hst hw ha => exact .done (hrs.trans hst) hw ha
  | raised e hst hw => exact .raised e (hrs.trans hst) hw
  | foreign what hst hw => exact .foreign what (hrs.trans hst) hw
  | halted reason hst hw => exact .halted reason (hrs.trans hst) hw

theorem imp {Q' : Pairing → α → α' → Prop} (h : Mirror o o' r Q act act' w w')
    (hQ : ∀ s a a', r ≤ s → Q s a a' → Q' s a a') : Mirror o o' r Q' act act' w w' := by
  unfold Mirror at h ⊢
  generalize act w = ends, act' w' = ends' at h
  cases h with
  | done hrs hw ha => exact .done hrs hw (hQ _ _ _ hrs ha)
  | raised e hrs hw => exact .raised e hrs hw
  | foreign what hrs hw => exact .foreign what hrs hw
  | halted reason hrs hw => exact .halted reason hrs hw

theorem bind (h : Mirror o o' r Q act act' w w')
    (hn : ∀ s a a' w₁ w₁', r ≤ s → w₁.Mirrors o o' s w₁' → Q s a a' →
      Mirror o o' s P (next a) (next' a') w₁ w₁') :
    Mirror o o' r P (act >>= next) (act' >>= next') w w' := by
  change Mirror o o' r P (Act.bind act next) (Act.bind act' next') w w'
  unfold Mirror at h
  unfold Mirror Act.bind
  generalize act w = ends, act' w' = ends' at h
  cases h with
  | done hrs hw ha => exact (hn _ _ _ _ _ hrs hw ha).mono hrs
  | raised e hrs hw => exact .raised e hrs hw
  | foreign what hrs hw => exact .foreign what hrs hw
  | halted reason hrs hw => exact .halted reason hrs hw

/-- The same result is handed on. -/
theorem bindSame {act act' : Act α} {next : α → Act β} {next' : α → Act β'}
    (h : Mirror o o' r Same act act' w w')
    (hn : ∀ s a w₁ w₁', r ≤ s → w₁.Mirrors o o' s w₁' →
      Mirror o o' s P (next a) (next' a) w₁ w₁') :
    Mirror o o' r P (act >>= next) (act' >>= next') w w' := by
  refine h.bind fun s a a' w₁ w₁' hrs hw₁ ha ↦ ?_
  rw [ha]
  exact hn s a w₁ w₁' hrs hw₁

theorem any (h : Mirror o o' r Q act act' w w') : Mirror o o' r Any act act' w w' :=
  h.imp fun _ _ _ _ _ ↦ trivial

theorem worldBind {next : World → Act β} {next' : World → Act β'}
    (h : Mirror o o' r P (next w) (next' w') w w') :
    Mirror o o' r P (Act.world >>= next) (Act.world >>= next') w w' := h

theorem modify (hrs : r ≤ s) {f f' : World → World} (h : (f w).Mirrors o o' s (f' w')) :
    Mirror o o' r (Any) (Act.modify f) (Act.modify f') w w' :=
  .done hrs h trivial

theorem change (hrs : r ≤ s) {f : World → α × World} {f' : World → α' × World}
    (h : (f w).2.Mirrors o o' s (f' w').2) (ha : Q s (f w).1 (f' w').1) :
    Mirror o o' r Q (Act.change f) (Act.change f') w w' :=
  .done hrs h ha

theorem ofExcept (hw : w.Mirrors o o' r w') (result : Except Error α) :
    Mirror o o' r Same (Act.ofExcept result) (Act.ofExcept result) w w' := by
  cases result with
  | ok a => exact pure hw rfl
  | error e => exact raise hw e

theorem orHalt (hw : w.Mirrors o o' r w') (reason : Halt) (result : Option α) :
    Mirror o o' r Same (Act.orHalt reason result) (Act.orHalt reason result) w w' := by
  cases result with
  | some a => exact pure hw rfl
  | none => exact halt hw reason

theorem checkInterrupt (hw : w.Mirrors o o' r w') :
    Mirror o o' r (Any) Act.checkInterrupt Act.checkInterrupt w w' := by
  have hinterrupted : w'.interrupted = w.interrupted := hw.congr World.interrupted fun _ ↦ rfl
  unfold Mirror Act.checkInterrupt
  rw [hinterrupted]
  split
  · exact .raised _ (le_refl r) hw
  · exact .done (le_refl r) hw trivial

theorem ensuring (h : Mirror o o' r Q act act' w w') {cleanup cleanup' : World → World}
    (hc : ∀ s w₁ w₁', w₁.Mirrors o o' s w₁' → (cleanup w₁).Mirrors o o' s (cleanup' w₁')) :
    Mirror o o' r Q (act.ensuring cleanup) (act'.ensuring cleanup') w w' := by
  unfold Mirror at h
  unfold Mirror Act.ensuring
  generalize act w = ends, act' w' = ends' at h
  cases h with
  | done hrs hw ha => exact .done hrs (hc _ _ _ hw) ha
  | raised e hrs hw => exact .raised e hrs (hc _ _ _ hw)
  | foreign what hrs hw => exact .foreign what hrs (hc _ _ _ hw)
  | halted reason hrs hw => exact .halted reason hrs (hc _ _ _ hw)

theorem orElseChange (h : Mirror o o' r Q act act' w w') {cleanup cleanup' : World → World}
    (hc : ∀ s w₁ w₁', w₁.Mirrors o o' s w₁' → (cleanup w₁).Mirrors o o' s (cleanup' w₁')) :
    Mirror o o' r Q (act.orElseChange cleanup) (act'.orElseChange cleanup') w w' := by
  unfold Mirror at h
  unfold Mirror Act.orElseChange
  generalize act w = ends, act' w' = ends' at h
  cases h with
  | done hrs hw ha => exact .done hrs hw ha
  | raised e hrs hw => exact .raised e hrs (hc _ _ _ hw)
  | foreign what hrs hw => exact .foreign what hrs (hc _ _ _ hw)
  | halted reason hrs hw => exact .halted reason hrs (hc _ _ _ hw)

theorem moved (hw : w.Mirrors o o' r w') (span : Span) :
    { w with here := span }.Mirrors o o' r { w' with here := span } :=
  hw.blind (f := fun w ↦ { w with here := span }) fun _ _ ↦ rfl

/-- The span under evaluation is put back to the same one. -/
theorem within (hw : w.Mirrors o o' r w') (span : Span)
    (h : ∀ w₁ w₁', w₁.Mirrors o o' r w₁' → Mirror o o' r Q act act' w₁ w₁') :
    Mirror o o' r Q (act.within span) (act'.within span) w w' := by
  have hhere : w'.here = w.here := hw.congr World.here fun _ ↦ rfl
  have hact := h _ _ (moved hw span)
  unfold Mirror at hact
  unfold Mirror Act.within
  generalize act { w with here := span } = ends, act' { w' with here := span } = ends' at hact
  rw [hhere]
  cases hact with
  | done hrs hw ha => exact .done hrs (moved hw _) ha
  | raised e hrs hw => exact .raised e hrs (moved hw _)
  | foreign what hrs hw => exact .foreign what hrs (moved hw _)
  | halted reason hrs hw => exact .halted reason hrs (moved hw _)

theorem apart (hw : w.Mirrors o o' r w')
    (h : ∀ w₁ w₁', w₁.Mirrors o o' r w₁' → Mirror o o' r Q act act' w₁ w₁') :
    Mirror o o' r Q act.apart act'.apart w w' := by
  have hhere : w'.here = w.here := hw.congr World.here fun _ ↦ rfl
  unfold Mirror Act.apart
  rw [hhere]
  exact within hw w.here h

theorem attempt {Q : Pairing → Unit → Unit → Prop} {act act' : Act Unit}
    (h : Mirror o o' r Q act act' w w') : Mirror o o' r Same act.attempt act'.attempt w w' := by
  unfold Mirror at h
  unfold Mirror Act.attempt
  generalize act w = ends, act' w' = ends' at h
  cases h with
  | done hrs hw ha => exact .done hrs hw rfl
  | raised e hrs hw =>
    refine .done hrs hw ?_
    rw [hw.congr World.here fun _ ↦ rfl]
  | foreign what hrs hw => exact .foreign what hrs hw
  | halted reason hrs hw => exact .halted reason hrs hw

end Mirror

/-! ## Blind actions -/

/-- The action neither looks at the memory nor touches it. -/
def Blind (act : Act α) : Prop :=
  ∀ w m, act (w.withMemory m) = ((act w).1, (act w).2.withMemory m)

namespace Blind

variable {act : Act α} {next : α → Act β} {w w' : World}

/-- A blind action mirrors itself. -/
theorem mirror (h : Blind act) (hw : w.Mirrors o o' r w') : Mirror o o' r Same act act w w' := by
  have hleft : act w = ((act w.bare).1, (act w.bare).2.withMemory w.memory) := h w.bare w.memory
  have hright : act w' = ((act w.bare).1, (act w.bare).2.withMemory w'.memory) := by
    rw [← hw.bare]
    exact h w'.bare w'.memory
  have hends : ∀ w₁ : World, (w₁.withMemory w.memory).Mirrors o o' r (w₁.withMemory w'.memory) :=
    fun _ ↦ ⟨rfl, hw.memory⟩
  unfold Mirror
  rw [hleft, hright]
  rcases act w.bare with ⟨_ | _ | _ | _, w₁⟩
  · exact .done (le_refl r) (hends w₁) rfl
  · exact .raised _ (le_refl r) (hends w₁)
  · exact .foreign _ (le_refl r) (hends w₁)
  · exact .halted _ (le_refl r) (hends w₁)

theorem pure (a : α) : Blind (Pure.pure a : Act α) := fun _ _ ↦ rfl

theorem raise (e : Error) : Blind (Act.raise e : Act α) := fun _ _ ↦ rfl

theorem fail (message : Bytes) : Blind (Act.fail message : Act α) := fun _ _ ↦ rfl

theorem modify {f : World → World} (hf : World.Blind f) : Blind (Act.modify f) := by
  intro w m
  unfold Act.modify
  rw [hf w m]

theorem ofExcept (result : Except Error α) : Blind (Act.ofExcept result) := by
  cases result with
  | ok a => exact pure a
  | error e => exact raise e

theorem bind (h : Blind act) (hn : ∀ a, Blind (next a)) : Blind (act >>= next) := by
  intro w m
  change Act.bind act next (w.withMemory m) =
    ((Act.bind act next w).1, (Act.bind act next w).2.withMemory m)
  unfold Act.bind
  rw [h w m]
  rcases act w with ⟨_ | _ | _ | _, w₁⟩
  · exact hn _ w₁ m
  · rfl
  · rfl
  · rfl

/-- The state may be looked at apart from its memory. -/
theorem worldBind {next : World → Act β} (hn : ∀ w, Blind (next w))
    (hsame : ∀ w m, next (w.withMemory m) = next w) : Blind (Act.world >>= next) := by
  intro w m
  rw [world_bind, world_bind, hsame w m]
  exact hn w w m

end Blind

end Act

end Conduit
