import Conduit.Proofs.Bindings.Evaluation
import Conduit.Proofs.Writes

/-!
# Assignments that Fail

An assignment checks the number of its values before it writes, and binds new names only after the
last write.  In between it writes target by target, and a value that a target refuses ends it there:
the targets in front of this one keep their new values.  So a failed assignment binds no name, and
changes nothing beyond the targets it had written when it was refused.
-/

namespace Conduit

open World (Stored Binds)
open Act (distribute writePlace writeAll raised_of_bind)

/-! ## Destructuring -/

namespace Act

/-- The number of values suits the places: each fixed place takes one, and what is left over needs a
place for the rest. -/
def Fits (fixed rest : List Place) (values : List Value) : Prop :=
  if rest.isEmpty then fixed.length = values.length else fixed.length ≤ values.length

/-- The writes that distribute values over places, in order. -/
def writesOf (fixed rest : List Place) (values : List Value) : List (Place × Value) :=
  fixed.zip values ++ rest.map fun tail ↦ (tail, .list (values.drop fixed.length))

/-- How distributing values over places can end with an error, and in which state: before anything
is written, or when one place refuses its value after those in front of it have taken theirs. -/
inductive Refused (fixed rest : List Place) (values : List Value) (w : World) :
    Error → World → Prop where
  | manyRests (hrest : 2 ≤ rest.length) : Refused fixed rest values w .moreThanOneRest w
  | misfit (hrest : rest.length ≤ 1) (hfits : ¬Fits fixed rest values) :
      Refused fixed rest values w .arityMismatch w
  | value {made : List (Place × Value)} {place : Place} {v : Value}
      {others : List (Place × Value)} {e : Error} {w' : World} (hrest : rest.length ≤ 1)
      (hfits : Fits fixed rest values)
      (hwrites : writesOf fixed rest values = made ++ (place, v) :: others)
      (hmade : Stored made w w') (hrefused : writePlace place v w' = (.raised e, w')) :
      Refused fixed rest values w e w'

variable {fixed rest : List Place} {values : List Value} {w w' : World} {e : Error}

theorem Refused.scopes (h : Refused fixed rest values w e w') : w'.scopes = w.scopes := by
  cases h with
  | manyRests _ => rfl
  | misfit _ _ => rfl
  | value _ _ _ hmade _ => rw [hmade.outside]

theorem refused_of_writeAll (hrest : rest.length ≤ 1) (hfits : Fits fixed rest values)
    (h : writeAll (writesOf fixed rest values) w = (.raised e, w')) :
    Refused fixed rest values w e w' := by
  obtain ⟨made, place, v, others, hwrites, hmade, hrefused⟩ := writeAll_raised h
  exact .value hrest hfits hwrites hmade hrefused

theorem distribute_nil (fixed : List Place) (values : List Value) :
    distribute fixed [] values =
      if fixed.length ≠ values.length then raise .arityMismatch
      else writeAll (writesOf fixed [] values) := by
  rw [writesOf, List.map_nil, List.append_nil, ← writePlaces_eq_writeAll]
  rfl

theorem distribute_singleton (fixed : List Place) (tail : Place) (values : List Value) :
    distribute fixed [tail] values =
      if values.length < fixed.length then raise .arityMismatch
      else writeAll (writesOf fixed [tail] values) := by
  rw [writesOf, List.map_singleton, writeAll_concat, ← writePlaces_eq_writeAll]
  rfl

/-- Whatever ends a distribution with an error leaves it in one of these ways. -/
theorem distribute_raised (h : distribute fixed rest values w = (.raised e, w')) :
    Refused fixed rest values w e w' := by
  match rest with
  | [] =>
    rw [distribute_nil] at h
    by_cases hlength : fixed.length = values.length
    · rw [if_neg (not_not.mpr hlength)] at h
      exact refused_of_writeAll (by simp) (by simpa [Fits] using hlength) h
    · rw [if_pos hlength] at h
      cases h
      exact .misfit (by simp) (by simpa [Fits] using hlength)
  | [tail] =>
    rw [distribute_singleton] at h
    by_cases hlength : values.length < fixed.length
    · rw [if_pos hlength] at h
      cases h
      exact .misfit (by simp) (by simpa [Fits] using hlength)
    · rw [if_neg hlength] at h
      exact refused_of_writeAll (by simp) (by simpa [Fits] using hlength) h
  | first :: second :: others =>
    cases h
    exact .manyRests (by simp)

end Act

/-! ## Assignments -/

namespace Eval

open Act (Refused)

/-- What an assignment does before it writes: it evaluates its values and finds its targets. -/
def prepare (go : Runner) (ctx : Context) (span : Span) (values : List Code.Expr)
    (targets : List Target) : Act (List Value × List Destination) := do
  beginForm span
  let values ← evalExprs go ctx values
  let destinations ← findTargets go ctx targets
  pure (values, destinations)

theorem evalForm_assignment (go : Runner) (ctx : Context) (span : Span) (values : List Code.Expr)
    (targets : List Target) :
    evalForm go ctx (.assignment span values targets) =
      prepare go ctx span values targets >>= fun prepared ↦
        distribute (placesOf prepared.2 false) (placesOf prepared.2 true) prepared.1 >>= fun _ ↦
          Act.modify (bindCreated ctx.scope prepared.2) >>= fun _ ↦
            Act.modify (World.note (.assigned ctx.scope span targets)) := by
  simp only [evalForm, prepare, bind_assoc, pure_bind]

theorem binds_prepare {go : Runner} (hgo : Runner.Keeps (Binds .none) go) (ctx : Context)
    (span : Span) (values : List Code.Expr) (targets : List Target) :
    Act.Keeps (Binds .none) (prepare go ctx span values targets) :=
  .bind (keeps_beginForm span) fun _ ↦ .bind (keeps_evalExprs (hgo.inContext ctx) values) fun _ ↦
    .bind (keeps_findTargets (hgo.inContext ctx) targets) fun _ ↦ .pure _

/-- An assignment that ends with an error has bound no name: every scope is as before.  Either the
error comes from its values or from the search for its targets, or the targets have been found and
the distribution of the values was refused. -/
theorem assignment_refused :
    (∀ (fixed rest : List Place) (values : List Value) (w w' : World) (e : Error),
      distribute fixed rest values w = (.raised e, w') →
        Refused fixed rest values w e w' ∧ w'.scopes = w.scopes) ∧
    ∀ (setup : Setup) (fuel : Nat) (ctx : Context) (span : Span) (values : List Code.Expr)
      (targets : List Target) (w w' : World) (e : Error),
      evalForm (run setup fuel) ctx (.assignment span values targets) w = (.raised e, w') →
        (∀ id scope, w.scopes.get? id = some scope → w'.scopes.get? id = some scope) ∧
        (prepare (run setup fuel) ctx span values targets w = (.raised e, w') ∨
          ∃ vs ds w₁, prepare (run setup fuel) ctx span values targets w = (.done (vs, ds), w₁) ∧
            Refused (placesOf ds false) (placesOf ds true) vs w₁ e w') := by
  constructor
  · intro fixed rest values w w' e h
    exact ⟨Act.distribute_raised h, (Act.distribute_raised h).scopes⟩
  · intro setup fuel ctx span values targets w w' e h
    have hprepare := binds_prepare (binds_run setup fuel) ctx span values targets w
    rw [evalForm_assignment] at h
    rcases raised_of_bind h with hraised | ⟨⟨vs, ds⟩, w₁, hdone, h⟩
    · rw [hraised] at hprepare
      exact ⟨fun id scope ↦ hprepare.same id scope fun _ _ ↦ not_false, .inl hraised⟩
    · rw [hdone] at hprepare
      rcases raised_of_bind h with hraised | ⟨_, w₂, -, h⟩
      · have hrefused := Act.distribute_raised hraised
        refine ⟨fun id scope hid ↦ ?_, .inr ⟨vs, ds, w₁, hdone, hrefused⟩⟩
        rw [hrefused.scopes]
        exact hprepare.same id scope (fun _ _ ↦ not_false) hid
      · -- Binding names and noting the assignment cannot fail.
        cases h

/-- A state in which the global names x and y lead to variables with a text each. -/
def twoTexts : World where
  vars := ⟨[.plain (some .string) (.text [0x61]), .plain (some .string) (.text [0x62])]⟩
  scopes := ⟨[⟨[([0x78], 0), ([0x79], 1)]⟩, {}]⟩

/-- A context whose innermost scope is that of the globals. -/
def topLevel : Context := ⟨[], [], [], World.globals, World.builtins, [], default⟩

/-- The targets x and y. -/
def twoTargets : List Target :=
  [⟨⟨0, 1⟩, false, ⟨[0x78], [], [0x78]⟩⟩, ⟨⟨2, 3⟩, false, ⟨[0x79], [], [0x79]⟩⟩]

/-- With `x y = 1 [2]`, y refuses the list after x has taken the text. -/
theorem assignment_refused_secondTarget :
    (∃ w', Refused [.bound 0, .bound 1] [] [.text [0x31], .list [.text [0x32]]] twoTexts
      (Variable.kindMismatch .list .string) w' ∧ w'.scopes = twoTexts.scopes) ∧
    ∃ w', (∀ id scope, twoTexts.scopes.get? id = some scope → w'.scopes.get? id = some scope) ∧
      ∃ vs ds w₁, prepare (run {} 1) topLevel ⟨0, 11⟩ [.text [0x31], .list [.text [0x32]]] twoTargets
          twoTexts = (.done (vs, ds), w₁) ∧
        Refused (placesOf ds false) (placesOf ds true) vs w₁
          (Variable.kindMismatch .list .string) w' := by
  constructor
  · exact ⟨_, assignment_refused.1 _ _ _ _ _ _ rfl⟩
  · obtain ⟨hscopes, hraised | hrefused⟩ := assignment_refused.2 {} 1 topLevel ⟨0, 11⟩
      [.text [0x31], .list [.text [0x32]]] twoTargets twoTexts _
      (Variable.kindMismatch .list .string) rfl
    · cases hraised
    · exact ⟨_, hscopes, hrefused⟩

/-- A destructuring that fails has not always left every variable as it was: with `x y = 1 [2]`, x
keeps the new value when y refuses the other one. -/
theorem assignment_not_allOrNothing :
    ¬∀ (setup : Setup) (fuel : Nat) (ctx : Context) (span : Span) (values : List Code.Expr)
      (targets : List Target) (w w₁ w' : World) (vs : List Value) (ds : List Destination)
      (e : Error),
      prepare (run setup fuel) ctx span values targets w = (.done (vs, ds), w₁) →
        distribute (placesOf ds false) (placesOf ds true) vs w₁ = (.raised e, w') →
          (∀ id x, w₁.vars.get? id = some x → w'.vars.get? id = some x) ∧
            w'.environment = w₁.environment ∧ w'.store = w₁.store ∧ w'.scopes = w₁.scopes := by
  intro h
  have hkept := (h {} 1 topLevel ⟨0, 11⟩ [.text [0x31], .list [.text [0x32]]] twoTargets twoTexts
    _ _ _ _ _ rfl rfl).1 0 _ rfl
  cases hkept

end Eval

end Conduit
