import Conduit.Proofs.Evolution
import Conduit.Proofs.Rules.Requests

/-!
# Shells that Comply

A new shell is lawful, and an evaluation leads from a lawful state to a lawful one if its text is known
and its chunk fits the text.  The error that it yields is blamed where the rules allow it, also if the
chunk cannot be compiled.  Rules that know every text and let an error be blamed on every span are kept
by whole histories.
-/

namespace Conduit

/-- The error that an evaluation yields. -/
def Outcome.error? : Outcome (Option Error) → Option Error
  | .done e => e
  | _ => none

theorem Outcome.eq_done_of_error? {outcome : Outcome (Option Error)} {e : Error}
    (h : outcome.error? = some e) : outcome = .done (some e) := by
  cases outcome with
  | done error => exact congrArg Outcome.done h
  | _ => cases h

/-- Nothing is queued in a new state. -/
theorem World.not_queued_new {v : Value} : ¬({} : World).Queued v := by
  rintro ⟨id, line, hid, -⟩
  cases hid

namespace Shell

open Eval (run)
open World (Handles Onward)
open Act (Complies Plain)

variable {T : Rules} {w w' : World}

/-! ## Starting -/

/-- A name is bound to a new variable that holds a value. -/
theorem lawful_bind (hw : w.Lawful T) (scope : ScopeId) {entry : Bytes × Variable}
    (hset : entry.2.isSet = true) (hentry : entry.2.Obeys T w.journal) :
    (bind scope w entry).Lawful T := by
  have hready : (w.newVariable entry.2).2.Ready (.bound (w.newVariable entry.2).1) := by
    change (((w.vars.push entry.2).get? w.vars.size).getD default).isSet = true
    rw [Table.get?_push_size]
    exact hset
  exact (hw.newVariable hentry).define hready scope entry.1

theorem lawful_foldl_bind (hw : w.Lawful T) (scope : ScopeId) {entries : List (Bytes × Variable)}
    (hentries : ∀ entry ∈ entries, entry.2.isSet = true ∧ ∀ journal, entry.2.Obeys T journal) :
    (entries.foldl (bind scope) w).Lawful T := by
  induction entries generalizing w with
  | nil => exact hw
  | cons entry rest ih =>
    obtain ⟨hset, hentry⟩ := hentries entry List.mem_cons_self
    exact ih (lawful_bind hw scope hset (hentry _)) fun other hother ↦
      hentries other (List.mem_cons_of_mem _ hother)

theorem builtinVariables_obey (hasStub : Bool) :
    ∀ entry ∈ builtinVariables hasStub, entry.2.isSet = true ∧ ∀ journal, entry.2.Obeys T journal := by
  intro entry hentry
  rcases List.mem_cons.mp hentry with rfl | hentry
  · exact ⟨rfl, fun _ ↦ trivial⟩
  · obtain ⟨b, -, rfl⟩ := List.mem_map.mp hentry
    exact ⟨rfl, fun _ ↦ Value.obeys_builtin b⟩

/-- A shell that starts without variables is lawful if what is queued obeys the rules. -/
theorem lawful_start (hvars : w.vars = .empty) (hpast : T.past <+: w.journal)
    (hqueued : ∀ v, w.Queued v → v.Obeys T w.journal) : (start w).Lawful T := by
  have hbare : { w with scopes := ⟨[{}, {}]⟩ }.Lawful T := by
    refine ⟨hpast, fun id x hx ↦ ?_, fun scope id hid ↦ ?_, hqueued⟩
    · change w.vars.get? id = some x at hx
      rw [hvars] at hx
      cases hx
    · obtain ⟨name, hmem⟩ := hid
      rcases scope with _ | _ | scope <;> cases hmem
  have hbuiltins := lawful_foldl_bind hbare World.builtins (builtinVariables_obey w.stub.isSome)
  exact hbuiltins.handles (.other _ _ _ _ _ _ _ _ _ _ _ _)

/-! ## Evaluations -/

/-- An evaluation leads from lawful states to lawful ones, and yields an error that is blamed where
the rules allow it. -/
theorem eval_obeys (hw : w.Lawful T) {setup : Setup} (hsetup : T.Admits setup) (fuel : Nat)
    (name : Bytes) {text : Bytes} (htext : T.known w.journal text) {chunk : Script.Chunk}
    (hchunk : T.Fit text chunk.spans) (endpoints : List (Option EndpointId)) :
    (eval setup fuel name text chunk endpoints w).2.Lawful T ∧
      Onward w (eval setup fuel name text chunk endpoints w).2 ∧
        (eval setup fuel name text chunk endpoints w).1.Obeys T
          (eval setup fuel name text chunk endpoints w).2
            fun error w' ↦ ∀ e ∈ error, ∃ span ∈ e.span, T.blames w'.journal span := by
  have hcompile : Code.Confined chunk.spans Code.Block.spans (compile w chunk) :=
    Code.compileChunk_confined _ chunk
  unfold eval
  rw [Act.world_bind]
  rcases hcode : compile w chunk with e | code <;> rw [hcode] at hcompile
  · obtain ⟨span, hspan, he⟩ := hcompile
    refine ⟨hw, .refl w, fun e' he' ↦ ?_⟩
    cases he'
    exact ⟨span, he, T.blames_fits htext (hchunk span hspan)⟩
  · let ctx : Context :=
      { name, text, label := utf8 "top", scope := World.globals, outer := w.scopes.size, endpoints,
        chunk }
    let inner : World := { (w.newScope {}).2 with here := wholeSpan text }
    have hempty : ∀ id, ({} : Scope).Binds id → w.Ready (.bound id) :=
      fun id hid ↦ absurd hid (Scope.not_binds_empty id)
    have hinner : inner.Obeys T :=
      .move (hw.newScope hempty) (T.blames_fits htext (T.fits_whole text))
    have hblock : (Eval.evalBlock (run setup fuel) ctx code).Plain T inner :=
      have hknown : T.known inner.journal ctx.text := htext
      have hcode : T.Fit ctx.text code.spans := hchunk.of_subset hcompile
      Eval.complies_evalBlock (Eval.complies_run hsetup fuel) hinner hknown hcode
    obtain ⟨hobeys, honward, hends⟩ := Complies.attempt hblock
    have hlawful := hobeys.toLawful
    refine ⟨⟨hlawful.past, hlawful.vars, hlawful.bound, hlawful.queued⟩,
      ⟨honward.journal, honward.vars⟩, ?_⟩
    change (Act.attempt (Eval.evalBlock (run setup fuel) ctx code) inner).1.Obeys T
      { (Act.attempt _ inner).2 with here := w.here } _
    rcases hact : Act.attempt (Eval.evalBlock (run setup fuel) ctx code) inner with
      ⟨_ | _ | _ | _, w'⟩ <;> rw [hact] at hends <;> exact hends

/-! ## Histories -/

/-- Variables, scopes and the journal are the same, and a value that is queued was queued before or
is allowed to be. -/
structure Queues (allowed : Value → Prop) (w w' : World) : Prop where
  vars : w'.vars = w.vars
  scopes : w'.scopes = w.scopes
  journal : w'.journal = w.journal
  queued : ∀ v, w'.Queued v → w.Queued v ∨ allowed v

/-- Nothing new is queued where endpoints are handled. -/
theorem Queues.of_handles {allowed : Value → Prop} (h : Handles w w') : Queues allowed w w' :=
  ⟨h.vars, h.scopes, h.journal, fun v hv ↦ .inl (h.queued v hv)⟩

theorem Queues.lawful {allowed : Value → Prop} (h : Queues allowed w w') (hw : w.Lawful T)
    (hallowed : ∀ v, allowed v → v.Obeys T w'.journal) : w'.Lawful T ∧ Onward w w' :=
  have hprefix : w.journal <+: w'.journal := h.journal ▸ List.prefix_rfl
  ⟨hw.of_vars hprefix h.vars h.scopes fun v hv ↦ (h.queued v hv).imp_right (hallowed v),
    .of_vars hprefix h.vars⟩

/-- What the host does, how the shell is set up and what it is given keep to the rules. -/
structure Regime.Obeys (T : Rules) (regime : Regime) : Prop where
  host : ∀ {w w' : World}, regime.host w w' → w.Lawful T → w'.Lawful T ∧ Onward w w'
  setup : ∀ {setup : Setup}, regime.setup setup → T.Admits setup
  chunk : ∀ {text : Bytes} {chunk : Script.Chunk}, regime.chunk text chunk → T.Fit text chunk.spans

/-- A whole history leads from lawful states to lawful ones. -/
theorem Evolves.lawful (hknown : ∀ journal text, T.known journal text)
    (hblames : ∀ journal span, T.blames journal span) {regime : Regime} (hregime : regime.Obeys T)
    (h : Evolves regime w w') (hw : w.Lawful T) : w'.Lawful T ∧ Onward w w' := by
  induction h with
  | refl => exact ⟨hw, .refl w⟩
  | host _ hstep ih =>
    obtain ⟨hlawful, honward⟩ := hregime.host hstep ih.1
    exact ⟨hlawful, ih.2.trans honward⟩
  | eval fuel name endpoints _ hsetup hchunk ih =>
    obtain ⟨hlawful, honward, -⟩ := eval_obeys ih.1 (hregime.setup hsetup) fuel name (hknown _ _)
      (hregime.chunk hchunk) endpoints
    exact ⟨hlawful, ih.2.trans honward⟩
  | use fuel ctx name _ hsetup ih =>
    obtain ⟨hobeys, honward, -⟩ := Eval.complies_use (Eval.complies_run (hregime.setup hsetup) fuel)
      ⟨ih.1, hblames _ _⟩ ctx name
    exact ⟨hobeys.toLawful, ih.2.trans honward⟩

end Shell

end Conduit
