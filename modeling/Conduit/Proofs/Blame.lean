import Mathlib.Data.List.Infix
import Conduit.Proofs.Rules.Shell

/-!
# Where Errors Point

An error is blamed on a span, and does not say in which text.  If every chunk that a shell is given
fits its text, an error that an evaluation yields is blamed on a span inside a text whose code may run
in the evaluation: the text that the evaluation is given, the text of a closure that is stored before,
or the text of a module whose body begins in the course of it.

An error that leaves a closure keeps its span.  If the closure stands in another text, the span need
not lie inside the text that the evaluation is given, where it is reported.
-/

namespace Conduit

open World (Onward)

/-- The span lies inside the text. -/
def Span.In (span : Span) (text : Bytes) : Prop :=
  0 ≤ span.start ∧ span.start ≤ span.stop ∧ span.stop ≤ text.length

instance (span : Span) (text : Bytes) : Decidable (span.In text) :=
  inferInstanceAs (Decidable (_ ∧ _ ∧ _))

theorem Span.whole_in (text : Bytes) : (⟨0, text.length⟩ : Span).In text :=
  ⟨Int.le_refl _, Int.natCast_nonneg _, Int.le_refl _⟩

/-- The body of the closure carries spans inside the text that the closure stands in. -/
def Closure.Fits (c : Closure) : Prop := ∀ span ∈ c.body.spans, span.In c.text

/-- Code may stand in any text that it fits. -/
def Rules.fitting : Rules where
  past := []
  fits text span := span.In text
  known _ _ := True
  blames _ _ := True
  absent := True
  fits_whole := Span.whole_in
  known_append _ _ := trivial
  known_body _ _ _ := trivial
  blames_append _ _ := trivial
  blames_fits _ _ := trivial

/-! ## Texts in play -/

namespace World

/-- In an evaluation of a text from a state, code that stands in the other text may run once the
events have happened. -/
def InPlay (w : World) (text : Bytes) (events : List Event) (other : Bytes) : Prop :=
  other = text ∨ (∃ c, w.Stores c ∧ c.text = other) ∨ ∃ name, .bodyBegan name other ∈ events

variable {w : World} {text other : Bytes}

/-- What is in play after some events stays in play after more of them. -/
theorem InPlay.append {journal : List Event} {n : Nat} (h : w.InPlay text (journal.drop n) other)
    (events : List Event) : w.InPlay text ((journal ++ events).drop n) other := by
  have hlater : journal <+: journal ++ events := List.prefix_append journal events
  refine h.imp_right fun h ↦ h.imp_right fun ⟨name, hname⟩ ↦ ⟨name, ?_⟩
  exact (hlater.drop n).subset hname

end World

/-- In an evaluation of a text, code stands in the texts in play and fits them, and errors are blamed
on spans inside them. -/
def Rules.inPlay (w : World) (text : Bytes) : Rules where
  past := w.journal
  fits text span := span.In text
  known journal := w.InPlay text (journal.drop w.journal.length)
  blames journal span := ∃ other, w.InPlay text (journal.drop w.journal.length) other ∧ span.In other
  absent := True
  fits_whole := Span.whole_in
  known_append events h := h.append events
  known_body {journal} name other hpast := by
    refine .inr (.inr ⟨name, ?_⟩)
    rw [List.drop_append_of_le_length hpast.length_le]
    exact List.mem_append_right _ (List.mem_singleton_self _)
  blames_append events := fun ⟨other, hother, hspan⟩ ↦ ⟨other, hother.append events, hspan⟩
  blames_fits {_ other _} hknown hfits := ⟨other, hknown, hfits⟩

/-- When an evaluation begins, the closures that are stored stand in texts in play. -/
theorem World.Lawful.inPlay {w : World} (h : w.Lawful .fitting) (text : Bytes) :
    w.Lawful (.inPlay w text) :=
  h.mono List.prefix_rfl (fun h ↦ h) fun c hc hfits ↦ ⟨.inr (.inl ⟨c, hc, rfl⟩), hfits.fits⟩

namespace Shell

/-! ## Histories -/

/-- A host that queues closures only whose bodies fit their texts, a parser whose chunks fit the texts
that it is given, and chunks that fit their texts. -/
def fittingInput : Regime where
  host := Queues fun v ↦ ∀ c ∈ v.closures, c.Fits
  setup setup := ∀ parser ∈ setup.parser, ∀ text chunk, parser text = .ok chunk →
    ∀ span ∈ chunk.spans, span.In text
  chunk text chunk := ∀ span ∈ chunk.spans, span.In text

theorem obeys_fitting {v : Value} (h : ∀ c ∈ v.closures, c.Fits) (journal : List Event) :
    v.Obeys .fitting journal :=
  ⟨fun c hc ↦ ⟨trivial, h c hc⟩, .inl trivial⟩

theorem fittingInput_obeys : fittingInput.Obeys .fitting where
  host h hw := h.lawful hw fun _ hv ↦ obeys_fitting hv _
  setup h := h
  chunk h := h

/-- The text `&f = { fail x }`. -/
def failingText : Script.Chunk :=
  .mk ⟨0, 15⟩ [.mk ⟨0, 15⟩ [.mk ⟨0, 15⟩ [.variable ⟨0, 2⟩ (utf8 "&f")] default
    [.lambda ⟨5, 15⟩ [] (some (.mk ⟨7, 13⟩ [.mk ⟨7, 13⟩ [.mk ⟨7, 13⟩ []
      (.bareword ⟨7, 11⟩ (utf8 "fail")) [.bareword ⟨12, 13⟩ (utf8 "x")] []]]))] []]]

/-- The text `f`, which calls a function. -/
def callingText : Script.Chunk :=
  .mk ⟨0, 1⟩ [.mk ⟨0, 1⟩ [.mk ⟨0, 1⟩ [] (.bareword ⟨0, 1⟩ (utf8 "f")) [] []]]

/-- A new shell that has been given the first text. -/
def failingDefined : World :=
  (eval {} 3 [] (utf8 "&f = { fail x }") failingText [] (start {})).2

/-- The second text in that shell. -/
def failingCalled : Outcome (Option Error) × World :=
  eval {} 3 [] (utf8 "f") callingText [] failingDefined

theorem error?_failingCalled :
    failingCalled.1.error? = some ⟨.generic, utf8 "x", some ⟨7, 13⟩⟩ := by
  decide +kernel

theorem failingText_fits : fittingInput.chunk (utf8 "&f = { fail x }") failingText := by
  change ∀ span ∈ failingText.spans, span.In (utf8 "&f = { fail x }")
  decide +kernel

theorem callingText_fits : fittingInput.chunk (utf8 "f") callingText := by
  change ∀ span ∈ callingText.spans, span.In (utf8 "f")
  decide +kernel

/-- There is no parser whose chunks would have to fit. -/
theorem setup_fits : fittingInput.setup {} := nofun

theorem evolves_failingDefined : Evolves fittingInput (start {}) failingDefined :=
  (Evolves.refl (start {})).eval 3 [] [] setup_fits failingText_fits

end Shell

end Conduit
