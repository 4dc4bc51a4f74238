import Conduit.Proofs.Interruption.Requests
import Conduit.Proofs.Splitting

/-!
# Interrupted Evaluations

In a chunk whose pipelines have one form each, where the closures at hand and the modules that are
loaded are like it, the interrupt flag cuts an evaluation off: no form begins any more, whatever errors
are caught.  The flag is not looked at between the stages of one pipeline, so a function that was
defined with stages before goes on to begin them.
-/

namespace Conduit.Shell

open Act (Heeds Stops)
open Eval (run)

variable {setup : Setup} {fuel : Nat} {name text : Bytes} {chunk : Script.Chunk}
  {endpoints : List (Option EndpointId)} {w : World}

/-- A shell starts with no closures but those that were stored before. -/
theorem unpiped_start (h : w.Unpiped) : (start w).Unpiped := fun c hc ↦ h c (start_stores hc)

/-- A chunk without stages is evaluated with an eye to the flag. -/
theorem heeds_eval (setup : Setup) (fuel : Nat) (name text : Bytes) (chunk : Script.Chunk)
    (endpoints : List (Option EndpointId)) (w : World) :
    (eval setup fuel name text chunk endpoints).Stops setup chunk.Unpiped w := by
  unfold eval
  refine .worldBind ?_
  rcases hcode : compile w chunk with e | code
  · exact .pure fun _ ↦ trivial
  · have hcontext : (topContext name text chunk endpoints).Stops setup chunk.Unpiped w :=
      .unnoted rfl (.of_eq rfl) fun _ hw ↦ ⟨hw, fun _ _ ↦ trivial⟩
    refine hcontext.bind fun ctx w₁ ↦ .within (.attempt ?_)
    exact (Eval.heeds_evalBlock (Eval.heeds_run setup fuel) ctx code _).assuming
      fun h ↦ Code.compileChunk_unpiped h.1 hcode

/-- If the flag is set when the pipelines so far return, with an error or without one, and more of them
were to come, then the evaluation ends with that error, or else as interrupted. -/
theorem eval_of_interrupted {code : Code.Block} {before after : List (List Code.Form)}
    {result : Option Error} {v : World} (hcode : compile w chunk = .ok code)
    (hpipelines : code.pipelines = before ++ after) (hafter : after ≠ [])
    (hbefore : Act.attempt (Eval.evalPipelines (run setup fuel)
      (contextOver w.scopes.size name text chunk endpoints) before) (entered text w) =
        (.done result, v))
    (hflag : v.interrupted = true) :
    (eval setup fuel name text chunk endpoints w).1 =
      .done (some (result.getD (Error.interrupted.orSpan v.here))) := by
  obtain ⟨forms, rest, rfl⟩ := List.exists_cons_of_ne_nil hafter
  rw [eval_eq_movedTo hcode, hpipelines, Eval.evalPipelines_append]
  unfold Act.attempt at hbefore ⊢
  rw [Act.bind_apply]
  rcases hrun : Eval.evalPipelines (run setup fuel)
      (contextOver w.scopes.size name text chunk endpoints) before (entered text w) with
    ⟨_ | e | what | reason, w'⟩ <;> rw [hrun] at hbefore <;> cases hbefore
  case done =>
    dsimp only
    rw [Eval.evalPipelines_interrupted _ _ forms rest hflag]
    rfl
  case raised => rfl

/-- **Interruption is a cut-off.**  The evaluation of a chunk without stages, in a state where the
stored closures have none, adds events to the journal.  If the modules whose bodies begin have no
stages either, then wherever one of the events is the beginning of a form, the flag is not set, was not
set before and has not been set by an event before it; and if it is ever set, it is so at the end.
Where the flag is set and a pipeline of the chunk is still to come, the evaluation yields an error. -/
theorem eval_cutOff (setup : Setup) (fuel : Nat) (name text : Bytes)
    (endpoints : List (Option EndpointId)) (hchunk : chunk.Unpiped) (hw : w.Unpiped) :
    (∃ events, (eval setup fuel name text chunk endpoints w).2.journal = w.journal ++ events ∧
      (setup.LoadsUnpiped events →
        (∀ before span now after, events = before ++ .form span now :: after →
          now = false ∧ w.interrupted = false ∧ .interrupted ∉ before) ∧
        (w.interrupted = true ∨ .interrupted ∈ events →
          (eval setup fuel name text chunk endpoints w).2.interrupted = true))) ∧
      ∀ code before after result v, compile w chunk = .ok code →
        code.pipelines = before ++ after → after ≠ [] →
          Act.attempt (Eval.evalPipelines (run setup fuel)
            (contextOver w.scopes.size name text chunk endpoints) before) (entered text w) =
              (.done result, v) →
            v.interrupted = true →
              (eval setup fuel name text chunk endpoints w).1 =
                .done (some (result.getD (Error.interrupted.orSpan v.here))) := by
  constructor
  · obtain ⟨events, hjournal, hheeds⟩ := heeds_eval setup fuel name text chunk endpoints w
    refine ⟨events, hjournal, fun hloads ↦ ?_⟩
    obtain ⟨hstate, -⟩ := hheeds hchunk hw hloads
    exact ⟨hstate.cutOff, hstate.flag⟩
  · intro code before after result v hcode hpipelines hafter hbefore hflag
    exact eval_of_interrupted hcode hpipelines hafter hbefore hflag

/-- A form that calls a function without arguments, where its name stands. -/
def callAt (start : Nat) (name : Bytes) : Script.Form :=
  let span : Span := ⟨start, start + name.length⟩
  .mk span [] (.bareword span name) [] []

theorem callAt_unpiped (start : Nat) (name : Bytes) : (callAt start name).Unpiped :=
  ⟨trivial, trivial, trivial, trivial⟩

/-- Without a parser no module is loaded. -/
theorem loadsUnpiped_of_none (h : setup.parser = none) (events : List Event) :
    setup.LoadsUnpiped events := by
  intro name text _ parser hparser
  rw [h] at hparser
  cases hparser

/-- A chunk that interrupts its own evaluation before its last pipeline. -/
def tripThenNop : Script.Chunk :=
  .mk ⟨0, 9⟩ [.mk ⟨0, 4⟩ [callAt 0 (utf8 "trip")], .mk ⟨6, 9⟩ [callAt 6 (utf8 "nop")]]

/-- After the interruption the second pipeline does not begin, and there is an error. -/
theorem eval_cutOff_tripThenNop :
    tripThenNop.Unpiped ∧ (start {}).Unpiped ∧
      (∃ events, (eval {} 1 [] [] tripThenNop [] (start {})).2.journal = events ∧
        events = [.form ⟨0, 4⟩ false, .interrupted] ∧ ({} : Setup).LoadsUnpiped events ∧
        (∀ before span now after, events = before ++ .form span now :: after →
          now = false ∧ (start {}).interrupted = false ∧ .interrupted ∉ before) ∧
        (eval {} 1 [] [] tripThenNop [] (start {})).2.interrupted = true) ∧
      (eval {} 1 [] [] tripThenNop [] (start {})).1 =
        .done (some ⟨.interrupted, utf8 "interrupted", some ⟨0, 4⟩⟩) := by
  have hchunk : tripThenNop.Unpiped :=
    ⟨⟨rfl, callAt_unpiped _ _, trivial⟩, ⟨rfl, callAt_unpiped _ _, trivial⟩, trivial⟩
  have hw : (start {}).Unpiped :=
    unpiped_start (by rintro c (⟨_, _, hx, -⟩ | ⟨_, _, hline, -⟩) <;> contradiction)
  have hnoted : (eval {} 1 [] [] tripThenNop [] (start {})).2.journal =
      [.form ⟨0, 4⟩ false, .interrupted] := rfl
  obtain ⟨⟨events, hjournal, hcut⟩, herror⟩ := eval_cutOff {} 1 [] [] [] hchunk hw
  obtain ⟨hforms, hflag⟩ := hcut (loadsUnpiped_of_none rfl events)
  have hevents : events = [.form ⟨0, 4⟩ false, .interrupted] := hjournal.symm.trans hnoted
  refine ⟨hchunk, hw, ⟨events, hjournal, hevents, loadsUnpiped_of_none rfl events, hforms, ?_⟩, ?_⟩
  · exact hflag (.inr (by rw [hevents]; exact List.mem_cons_of_mem _ List.mem_cons_self))
  · exact herror _ [_] [_] none _ rfl rfl (List.cons_ne_nil _ _) rfl rfl

/-- A chunk that defines a function, whose body is a pipeline of two stages. -/
def definePiped : Script.Chunk :=
  .mk ⟨0, 19⟩ [.mk ⟨0, 19⟩ [.mk ⟨0, 19⟩ [.variable ⟨0, 2⟩ (utf8 "&f")] (.bareword ⟨3, 3⟩ [])
    [.lambda ⟨5, 19⟩ [] (some (.mk ⟨7, 17⟩ [.mk ⟨7, 17⟩
      [callAt 7 (utf8 "trip"), callAt 14 (utf8 "nop")]]))] []]]

/-- A chunk that calls it. -/
def callPiped : Script.Chunk := .mk ⟨0, 1⟩ [.mk ⟨0, 1⟩ [callAt 0 (utf8 "f")]]

/-- A new shell in which the function has been defined. -/
def pipedDefined : World := (eval {} 1 [] [] definePiped [] (start {})).2

/-- Whether an event is the beginning of a form while the interrupt flag is set. -/
def isLate : Event → Bool
  | .form _ now => now
  | _ => false

/-- The second stage of a function that was defined before begins after the first one has set the
flag. -/
theorem eval_stage_of_interrupted :
    ¬∀ (setup : Setup) (fuel : Nat) (name text : Bytes) (chunk : Script.Chunk)
      (endpoints : List (Option EndpointId)) (w : World), chunk.Unpiped → ∀ events,
        (eval setup fuel name text chunk endpoints w).2.journal = w.journal ++ events →
          setup.LoadsUnpiped events →
            ∀ before span now after, events = before ++ .form span now :: after →
              now = false ∧ w.interrupted = false ∧ .interrupted ∉ before := by
  intro h
  have hchunk : callPiped.Unpiped := ⟨⟨rfl, callAt_unpiped _ _, trivial⟩, trivial⟩
  have hlate : ((eval {} 2 [] [] callPiped [] pipedDefined).2.journal.drop
      pipedDefined.journal.length).any isLate = true := by decide +kernel
  obtain ⟨events, hjournal, -⟩ := heeds_eval {} 2 [] [] callPiped [] pipedDefined
  rw [hjournal, List.drop_left] at hlate
  obtain ⟨event, hmem, hevent⟩ := List.any_eq_true.mp hlate
  cases event with
  | form span now =>
    obtain ⟨before, after, hsplit⟩ := List.append_of_mem hmem
    obtain ⟨hnow, -⟩ := h {} 2 [] [] callPiped [] pipedDefined hchunk events hjournal
      (loadsUnpiped_of_none rfl events) before span now after hsplit
    rw [hnow] at hevent
    cases hevent
  | _ => cases hevent

end Conduit.Shell
