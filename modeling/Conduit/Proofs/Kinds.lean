import Conduit.Proofs.Modules.Nesting
import Conduit.Proofs.Rules.Shell

/-!
# Kinds of Variables

In a shell whose host queues no absent value and no value with an absent part, every plain variable
that is bound in some scope holds a value of the kind that it is held to, and no value that is kept or
queued has an absent part at any depth.  A variable is held to the kind of the first value that it is
given and stays held to it, whatever is evaluated later and whatever errors are raised on the way.  No
evaluation asks for the kind of the absent value.

An assignment that fails may leave empty variables behind.  They are bound in no scope.
-/

namespace Conduit

open World (Onward)

/-! ## States without absent values -/

/-- Values may not be absent; texts and spans do not matter. -/
def Rules.solid : Rules where
  past := []
  fits _ _ := True
  known _ _ := True
  blames _ _ := True
  absent := False
  fits_whole _ := trivial
  known_append _ _ := trivial
  known_body _ _ _ := trivial
  blames_append _ _ := trivial
  blames_fits _ _ := trivial

theorem Value.obeys_solid {v : Value} {journal : List Event} :
    v.Obeys .solid journal ↔ v.Solid :=
  ⟨fun h ↦ h.solid.resolve_left not_false, fun h ↦ ⟨fun _ _ ↦ ⟨trivial, fun _ _ ↦ trivial⟩, .inr h⟩⟩

namespace World

/-- Bound variables hold values of their kinds, and no value that is kept or queued has an absent
part. -/
structure Typed (w : World) : Prop where
  bound : ∀ scope id, (w.scope scope).Binds id → ∃ x, w.vars.get? id = some x ∧
    ∀ kept v, x = .plain kept v → ∃ kind, kept = some kind ∧ v.kind? = some kind
  kept : ∀ id kind v, w.vars.get? id = some (.plain (some kind) v) → v.kind? = some kind ∧ v.Solid
  constants : ∀ id v, w.vars.get? id = some (.readOnly v) → v.Solid
  queued : ∀ v, w.Queued v → v.Solid

theorem Lawful.typed {w : World} (h : w.Lawful .solid) : w.Typed where
  bound scope id hid := by
    have hready := h.bound scope id hid
    obtain ⟨x, hx⟩ := hready.located
    refine ⟨x, hx, fun kept v hplain ↦ ?_⟩
    subst hplain
    cases kept with
    | none =>
      unfold Ready variableAt at hready
      dsimp only at hready
      rw [hx] at hready
      cases hready
    | some kind => exact ⟨kind, rfl, (h.vars id _ hx).1⟩
  kept id kind v hx := ⟨(h.vars id _ hx).1, Value.obeys_solid.mp (h.vars id _ hx).2⟩
  constants id v hx := Value.obeys_solid.mp (h.vars id _ hx)
  queued v hv := Value.obeys_solid.mp (h.queued v hv)

end World

/-- The kind that a plain variable is held to, if it is. -/
def Variable.kept? : Variable → Option Kind
  | .plain kept _ => kept
  | _ => none

theorem Variable.eq_plain_of_kept? {x : Variable} {kind : Kind} (h : x.kept? = some kind) :
    ∃ v, x = .plain (some kind) v := by
  cases x with
  | plain kept v => exact ⟨v, congrArg (Variable.plain · v) h⟩
  | _ => cases h

/-! ## First values -/

namespace Eval

/-- An empty variable that is written is held to the kind of what is written. -/
theorem writePlace_empty {w : World} {id : VariableId} {u v : Value} {kind : Kind}
    (hid : w.vars.get? id = some (.plain none u)) (hkind : v.kind? = some kind) :
    Act.writePlace (.bound id) v w =
      (.done (), { w with vars := w.vars.modify id fun _ ↦ .plain (some kind) v }) := by
  have hvariable : w.variableAt (.bound id) = .plain none u := by
    change (w.vars.get? id).getD default = _
    rw [hid]
    rfl
  unfold Act.writePlace
  rw [Act.world_bind, hvariable]
  simp only [Act.writePlain, Act.kindOf, hkind]
  rfl

/-- Binding parameters leaves the variables that exist as they are. -/
theorem bindParameters_get? (scope : ScopeId) (names : List Bytes) (values : List Value) {w : World}
    {id : VariableId} (hid : id < w.vars.size) :
    (bindParameters scope names values w).2.vars.get? id = w.vars.get? id := by
  induction names generalizing values w with
  | nil => rfl
  | cons name names ih =>
    cases values with
    | nil => rfl
    | cons v values =>
      unfold bindParameters Act.kindOf
      rcases v.kind? with _ | kind
      · rfl
      · let x : Variable := .plain (some kind) v
        let w₁ : World := (w.newVariable x).2.define scope name w.vars.size
        have hsize : id < w₁.vars.size := by
          change id < (w.vars.push x).size
          rw [Table.size_push]
          exact Nat.lt_succ_of_lt hid
        calc (bindParameters scope names values w₁).2.vars.get? id
            = w₁.vars.get? id := ih values hsize
          _ = w.vars.get? id := Table.get?_push_of_lt hid

/-- The variable of a parameter is held to the kind of the argument. -/
theorem bindParameters_first (scope : ScopeId) (name : Bytes) (names : List Bytes) {v : Value}
    (values : List Value) {kind : Kind} (hkind : v.kind? = some kind) (w : World) :
    (bindParameters scope (name :: names) (v :: values) w).2.vars.get? w.vars.size =
      some (.plain (some kind) v) := by
  let x : Variable := .plain (some kind) v
  let w₁ : World := (w.newVariable x).2.define scope name w.vars.size
  have hrest : bindParameters scope (name :: names) (v :: values) w =
      bindParameters scope names values w₁ := by
    rw [bindParameters]
    unfold Act.kindOf
    rw [hkind]
    rfl
  have hsize : w.vars.size < w₁.vars.size := by
    change w.vars.size < (w.vars.push x).size
    rw [Table.size_push]
    exact Nat.lt_succ_self _
  calc (bindParameters scope (name :: names) (v :: values) w).2.vars.get? w.vars.size
      = (bindParameters scope names values w₁).2.vars.get? w.vars.size := by rw [hrest]
    _ = w₁.vars.get? w.vars.size := bindParameters_get? scope names values hsize
    _ = some (.plain (some kind) v) := Table.get?_push_size _ _

end Eval

namespace Shell

open Eval (run use)

/-! ## Histories -/

/-- A host that queues no absent value and none with an absent part.  Setups and chunks may be any. -/
def solidInput : Regime := { host := Queues Value.Solid }

theorem admits_solid (setup : Setup) : Rules.solid.Admits setup := fun _ _ _ _ _ _ _ ↦ trivial

theorem solidInput_obeys : solidInput.Obeys .solid where
  host h hw := h.lawful hw fun _ hv ↦ Value.obeys_solid.mpr hv
  setup _ := admits_solid _
  chunk _ _ _ := trivial

/-- Interactive lines are part of such histories. -/
theorem Evolves.line {w w' : World} (h : Evolves solidInput w w') (setup : Setup) (fuel : Nat)
    (text : Bytes) (chunk : Script.Chunk) :
    Evolves solidInput w (Shell.evalInteractive setup fuel text chunk w').2 :=
  h.evalInteractive (fun _ _ ↦ Queues.of_handles) trivial fuel trivial

theorem Evolves.solid {w w' : World} (h : Evolves solidInput w w') (hw : w.Lawful .solid) :
    w'.Lawful .solid ∧ Onward w w' :=
  h.lawful (fun _ _ ↦ trivial) (fun _ _ ↦ trivial) solidInput_obeys hw

/-- No evaluation in a lawful state asks for the kind of the absent value. -/
theorem eval_ne_absentValue {w : World} (hw : w.Lawful .solid) (setup : Setup) (fuel : Nat)
    (name text : Bytes) (chunk : Script.Chunk) (endpoints : List (Option EndpointId)) :
    (eval setup fuel name text chunk endpoints w).1 ≠ .halted .absentValue := by
  intro heq
  have hknown : Rules.solid.known w.journal text := trivial
  have hfit : Rules.solid.Fit text chunk.spans := fun _ _ ↦ trivial
  have hends := (eval_obeys hw (admits_solid setup) fuel name hknown hfit endpoints).2.2
  rw [heq] at hends
  exact hends rfl

/-- Neither does the use of a module. -/
theorem use_ne_absentValue {w : World} (hw : w.Lawful .solid) (setup : Setup) (fuel : Nat)
    (ctx : Context) (name : Bytes) : (use (run setup fuel) ctx name w).1 ≠ .halted .absentValue := by
  intro heq
  have hrun : Eval.Runner.Complies .solid (run setup fuel) :=
    Eval.complies_run (admits_solid setup) fuel
  have hends := (Eval.complies_use hrun ⟨hw, trivial⟩ ctx name).ends
  rw [heq] at hends
  exact hends rfl

/-- In every state that a shell develops into from its start, also where an evaluation stops half-way
because its fuel is spent, bound variables hold values of their kinds and nothing that is kept or
queued has an absent part.  A variable that is held to a kind is held to it in every later state, and
the kind is that of the first value that it was given, by an assignment or as a parameter.  No
evaluation and no use of a module asks for the kind of the absent value. -/
theorem evolves_typed {w₀ w : World} (hvars : w₀.vars = .empty)
    (hqueued : ∀ v, w₀.Queued v → v.Solid) (h : Evolves solidInput (start w₀) w) :
    w.Typed ∧
    (∀ later, Evolves solidInput w later → ∀ id kind v,
      w.vars.get? id = some (.plain (some kind) v) →
        ∃ v', later.vars.get? id = some (.plain (some kind) v')) ∧
    (∀ (s : World) (v : Value) kind, v.kind? = some kind →
      (∀ id u, s.vars.get? id = some (.plain none u) →
        (Act.writePlace (.bound id) v s).2.vars.get? id = some (.plain (some kind) v)) ∧
      ∀ scope name names values,
        (Eval.bindParameters scope (name :: names) (v :: values) s).2.vars.get? s.vars.size =
          some (.plain (some kind) v)) ∧
    (∀ setup fuel name text chunk endpoints,
      (eval setup fuel name text chunk endpoints w).1 ≠ .halted .absentValue) ∧
    ∀ setup fuel ctx name, (use (run setup fuel) ctx name w).1 ≠ .halted .absentValue := by
  have hstart : (start w₀).Lawful .solid :=
    lawful_start hvars List.nil_prefix fun v hv ↦ Value.obeys_solid.mpr (hqueued v hv)
  have hlawful : w.Lawful .solid := (h.solid hstart).1
  refine ⟨hlawful.typed, fun later hlater id kind v hid ↦ ?_, fun s v kind hkind ↦
    ⟨fun id u hid ↦ ?_, fun scope name names values ↦ ?_⟩, eval_ne_absentValue hlawful,
    use_ne_absentValue hlawful⟩
  · obtain ⟨x, hx, kind', v', rfl, hkept⟩ := (hlater.solid hlawful).2.vars id _ hid
    exact ⟨v', by rw [hx, hkept rfl]⟩
  · rw [Eval.writePlace_empty hid hkind, Table.get?_modify, if_pos rfl, hid]
    rfl
  · exact Eval.bindParameters_first scope name names values hkind s

/-! ## A variable that stays held to texts -/

/-- A new shell after the line `x = 1`. -/
def textGiven : World :=
  (eval {} 1 [] (utf8 "x = 1") (assignX (.bareword ⟨4, 5⟩ (utf8 "1"))) [] (start {})).2

/-- The line `x = []` in that shell. -/
def listRefused : Outcome (Option Error) × World :=
  eval {} 1 [] (utf8 "x = []") (assignX (.list ⟨4, 6⟩ [])) [] textGiven

theorem kept?_textGiven : (textGiven.vars.get? 17).bind Variable.kept? = some .string := by
  decide +kernel

theorem lookup_textGiven : (textGiven.scope World.globals).lookup (utf8 "x") = some 17 := by
  decide +kernel

theorem kind_listRefused : listRefused.1.error?.map Error.kind = some .type := by
  decide +kernel

/-- The first line binds a variable and holds it to texts.  The second one raises an error, and the
variable is still held to texts after it. -/
theorem evolves_typed_text :
    listRefused.1.error?.map Error.kind = some .type ∧
      (textGiven.scope World.globals).Binds 17 ∧
      ∃ v v', textGiven.vars.get? 17 = some (.plain (some .string) v) ∧
        listRefused.2.vars.get? 17 = some (.plain (some .string) v') ∧
          v'.kind? = some .string ∧ v'.Solid := by
  have hqueued : ∀ v, ({} : World).Queued v → v.Solid := fun v hv ↦ absurd hv World.not_queued_new
  have hgiven : Evolves solidInput (start {}) textGiven := (Evolves.refl _).eval 1 _ _ trivial trivial
  have hrefused : Evolves solidInput textGiven listRefused.2 :=
    (Evolves.refl _).eval 1 _ _ trivial trivial
  have hlater := (evolves_typed rfl hqueued hgiven).2.1 _ hrefused
  have htyped := (evolves_typed rfl hqueued (hgiven.trans hrefused)).1
  obtain ⟨x, hx, hkept⟩ := Option.bind_eq_some_iff.mp kept?_textGiven
  obtain ⟨v, rfl⟩ := Variable.eq_plain_of_kept? hkept
  obtain ⟨v', hv'⟩ := hlater 17 .string v hx
  obtain ⟨hkind, hsolid⟩ := htyped.kept 17 .string v' hv'
  exact ⟨kind_listRefused, Scope.binds_of_lookup lookup_textGiven, v, v', hx, hv', hkind, hsolid⟩

end Shell

end Conduit
