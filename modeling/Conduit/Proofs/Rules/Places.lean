import Conduit.Proofs.Rules.Actions

/-!
# Places that are Written

A value that is read from a place that is ready obeys the rules.  A value that obeys them may be
written to any place that exists, and when the write comes back the place is ready: an empty variable
has been held to the kind of the value.  When values have been distributed over places, each of the
places is ready.
-/

namespace Conduit

open World (Onward)
open Act (Complies Plain Quiet)

variable {T : Rules} {w w' : World}

/-! ## Places that exist -/

/-- The place is a variable that exists, or a view. -/
def World.Located (w : World) : Place → Prop
  | .bound id => ∃ x, w.vars.get? id = some x
  | _ => True

theorem World.Ready.located {place : Place} (h : w.Ready place) : w.Located place := by
  unfold World.Ready World.variableAt at h
  cases place with
  | bound id =>
    dsimp only at h
    rcases hx : w.vars.get? id with _ | x <;> rw [hx] at h
    · cases h
    · exact ⟨x, hx⟩
  | _ => trivial

/-- A plain variable stands at the place of a variable only. -/
theorem World.Located.plain {place : Place} (h : w.Located place) {kind : Option Kind} {v : Value}
    (hvariable : w.variableAt place = .plain kind v) :
    ∃ id, place = .bound id ∧ w.vars.get? id = some (.plain kind v) := by
  cases place with
  | bound id =>
    obtain ⟨x, hx⟩ := h
    have hplain : (w.vars.get? id).getD default = .plain kind v := hvariable
    rw [hx] at hplain
    cases hplain
    exact ⟨id, rfl, hx⟩
  | _ => cases hvariable

theorem World.Onward.located (h : Onward w w') {place : Place} (hplace : w.Located place) :
    w'.Located place := by
  cases place with
  | bound id =>
    obtain ⟨x, hx⟩ := hplace
    obtain ⟨x', hx', -⟩ := h.vars id x hx
    exact ⟨x', hx'⟩
  | _ => trivial

namespace Eval

/-! ## Reading -/

theorem quiet_readPlace (place : Place) : Quiet (Act.readPlace place) :=
  ⟨fun w ↦ Act.Keeps.ofExcept _ w, fun w ↦ (Quiet.ofExcept (.read w _)).ends w⟩

theorem complies_readPlace (hw : w.Obeys T) {place : Place} (hplace : w.Ready place) :
    (Act.readPlace place).Complies T w fun v w' ↦ v.Obeys T w'.journal := by
  refine .quietly hw (quiet_readPlace place) fun v w' h ↦ ?_
  unfold Act.readPlace Act.ofExcept at h
  rcases hread : (w.variableAt place).read w with e | u <;> rw [hread] at h <;> cases h
  exact hw.toLawful.read hplace hread

/-! ## Writing -/

/-- A plain variable that is written is held to the kind of what is written. -/
theorem complies_writePlain (hw : w.Obeys T) {id : VariableId} {kept : Option Kind} {u v : Value}
    (hid : w.vars.get? id = some (.plain kept u)) (hv : v.Obeys T w.journal) :
    (Act.writePlain id kept v).Complies T w fun _ w' ↦ w'.Ready (.bound id) := by
  have hset : ∀ kind, v.kind? = some kind → (kept.isSome = true → kept = some kind) →
      (Act.modify fun w ↦ { w with vars := w.vars.modify id fun _ ↦ .plain (some kind) v }).Complies
        T w fun _ w' ↦ w'.Ready (.bound id) := by
    intro kind hkind hkept
    refine ⟨⟨hw.toLawful.setVariable hid hkept hkind hv, hw.here⟩, .setVariable hid hkept, ?_⟩
    change (((w.vars.modify id _).get? id).getD default).isSet = true
    rw [Table.get?_modify, if_pos rfl, hid]
    rfl
  unfold Act.writePlain
  refine (Complies.kindOf hw hv).bind fun kind w₁ hw₁ _ ⟨heq, hkind⟩ ↦ ?_
  subst heq
  cases kept with
  | none => exact hset kind hkind nofun
  | some kept =>
    dsimp only
    split
    · rename_i heq
      subst heq
      exact hset kind hkind fun _ ↦ rfl
    · exact .raiseUnblamed hw₁ rfl

theorem complies_writePlace (hw : w.Obeys T) {place : Place} (hplace : w.Located place) {v : Value}
    (hv : v.Obeys T w.journal) :
    (Act.writePlace place v).Complies T w fun _ w' ↦ w'.Ready place := by
  have hkeep : ∀ {act : Act Unit}, (w.variableAt place).isSet = true → act.Plain T w →
      act.Complies T w fun _ w' ↦ w'.Ready place :=
    fun hset h ↦ h.mono fun _ _ _ honward _ ↦ honward.ready hset
  unfold Act.writePlace
  refine .worldBind ?_
  rcases hvariable : w.variableAt place with ⟨kept, u⟩ | u | name | name | _
  case plain =>
    obtain ⟨id, rfl, hid⟩ := hplace.plain hvariable
    exact complies_writePlain hw hid hv
  case readOnly => exact .raiseUnblamed hw rfl
  all_goals have hset : (w.variableAt place).isSet = true := by rw [hvariable]; rfl
  case env =>
    exact hkeep hset (.quiet hw (.bind (.ofExcept (.toText _ v)) fun value ↦ quiet_setEnv name value))
  case shared =>
    exact hkeep hset (.quiet hw (.bind (.ofExcept (.toText _ v)) fun value ↦
      .modify fun w ↦ .other w _ _ _ _ _ _ _ _ _ _ _))
  case paths =>
    refine hkeep hset ((Complies.kindOf hw hv).bind fun _ w₁ hw₁ _ _ ↦ ?_)
    exact .quiet hw₁ (.bind (.ofExcept (.pathsText v)) fun value ↦ quiet_setEnv _ value)

theorem complies_writePlaces (hw : w.Obeys T) {places : List Place} {values : List Value}
    (hlength : places.length ≤ values.length) (hplaces : ∀ place ∈ places, w.Located place)
    (hvalues : ∀ v ∈ values, v.Obeys T w.journal) :
    (Act.writePlaces places values).Complies T w fun _ w' ↦ ∀ place ∈ places, w'.Ready place := by
  induction places generalizing values w with
  | nil => exact .pure hw nofun
  | cons place places ih =>
    cases values with
    | nil => cases hlength
    | cons v values =>
      unfold Act.writePlaces
      refine (complies_writePlace hw (hplaces place List.mem_cons_self)
        (hvalues v List.mem_cons_self)).bind fun _ w₁ hw₁ h₁ hready ↦ ?_
      refine (ih hw₁ (Nat.le_of_succ_le_succ hlength)
        (fun other hother ↦ h₁.located (hplaces other (List.mem_cons_of_mem _ hother)))
        fun u hu ↦ h₁.value (hvalues u (List.mem_cons_of_mem _ hu))).mono
          fun _ w₂ _ h₂ hrest other hother ↦ ?_
      rcases List.mem_cons.mp hother with rfl | hother
      · exact h₂.ready hready
      · exact hrest other hother

/-- Values that are distributed without an error have reached every place. -/
theorem complies_distribute (hw : w.Obeys T) {fixed rest : List Place} {values : List Value}
    (hfixed : ∀ place ∈ fixed, w.Located place) (hrest : ∀ place ∈ rest, w.Located place)
    (hvalues : ∀ v ∈ values, v.Obeys T w.journal) :
    (Act.distribute fixed rest values).Complies T w fun _ w' ↦
      (∀ place ∈ fixed, w'.Ready place) ∧ ∀ place ∈ rest, w'.Ready place := by
  unfold Act.distribute
  split
  · split
    · exact .raiseUnblamed hw rfl
    · rename_i hlength
      have hle : fixed.length ≤ values.length := Nat.le_of_eq (Decidable.not_not.mp hlength)
      exact (complies_writePlaces hw hle hfixed hvalues).mono fun _ _ _ _ h ↦ ⟨h, nofun⟩
  · rename_i tail
    split
    · exact .raiseUnblamed hw rfl
    · rename_i hlength
      refine (complies_writePlaces hw (Nat.le_of_not_lt hlength) hfixed hvalues).bind
        fun _ w₁ hw₁ h₁ hready ↦ ?_
      have hleft : (Value.list (values.drop fixed.length)).Obeys T w₁.journal :=
        Value.obeys_list.mpr fun v hv ↦ h₁.value (hvalues v (List.mem_of_mem_drop hv))
      refine (complies_writePlace hw₁ (h₁.located (hrest tail List.mem_cons_self)) hleft).mono
        fun _ w₂ _ h₂ htail ↦ ⟨fun place hplace ↦ h₂.ready (hready place hplace), ?_⟩
      intro place hplace
      rw [List.mem_singleton] at hplace
      exact hplace ▸ htail
  · exact .raiseUnblamed hw rfl

end Eval

end Conduit
