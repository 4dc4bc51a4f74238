import Mathlib.Data.List.TakeWhile
import Conduit.Error.Report
import Conduit.Proofs.Pieces

/-!
# What a Report Marks

The report of an error quotes one line of the text whole and marks the bytes of the span on it.  The
line is the one that the span starts on; where no byte of the span lies on it, the start is marked by
itself.
-/

namespace Conduit.Error

/-! ## The quoted line -/

/-- A line of a text, between what stands above and what stands below it. -/
structure IsLine (text above line below : Bytes) : Prop where
  eq : text = above ++ (line ++ below)
  unbroken : Bytes.newline ∉ line
  above_eq : above = [] ∨ ∃ front, above = front ++ [Bytes.newline]
  below_eq : below = [] ∨ ∃ rest, below = Bytes.newline :: rest

/-- How many bytes stand behind the last newline of a text. -/
def trailing (text : Bytes) : Nat := (text.reverse.takeWhile (· ≠ Bytes.newline)).length

/-- Up to the next newline a text is the rest of a line. -/
theorem exists_rest (text : Bytes) :
    ∃ below, text = text.takeWhile (· ≠ Bytes.newline) ++ below ∧
      Bytes.newline ∉ text.takeWhile (· ≠ Bytes.newline) ∧
      (below = [] ∨ ∃ rest, below = Bytes.newline :: rest) := by
  obtain ⟨below, htext, hline, hbelow⟩ := Bytes.exists_takeWhile (· ≠ Bytes.newline) text
  refine ⟨below, htext, fun hmem ↦ of_decide_eq_true (hline _ hmem) rfl, ?_⟩
  cases below with
  | nil => exact .inl rfl
  | cons b rest =>
    have hb : b = Bytes.newline := by simpa using hbelow b rfl
    exact .inr ⟨rest, by rw [hb]⟩

/-- A text is cut behind its last newline. -/
theorem exists_trailing (text : Bytes) :
    ∃ above front, text = above ++ front ∧ front.length = trailing text ∧
      Bytes.newline ∉ front ∧ (above = [] ∨ ∃ others, above = others ++ [Bytes.newline]) := by
  -- Read from its end on, the text is cut in front of its first newline.
  obtain ⟨behind, htext, hfront, hbehind⟩ := exists_rest text.reverse
  refine ⟨behind.reverse, (text.reverse.takeWhile (· ≠ Bytes.newline)).reverse, ?_,
    List.length_reverse, mt List.mem_reverse.mp hfront, ?_⟩
  · rw [← List.reverse_append, ← htext, List.reverse_reverse]
  · rcases hbehind with rfl | ⟨others, rfl⟩
    · exact .inl rfl
    · exact .inr ⟨others.reverse, List.reverse_cons⟩

theorem takeWhile_front {front : Bytes} (h : Bytes.newline ∉ front) (rest : Bytes) :
    (front ++ rest).takeWhile (· ≠ Bytes.newline) =
      front ++ rest.takeWhile (· ≠ Bytes.newline) := by
  refine List.takeWhile_append_of_pos fun b hb ↦ decide_eq_true ?_
  rintro rfl
  exact h hb

/-! ## Places -/

theorem clamp_eq {n low high : Int} (h : low ≤ high) : clamp n low high = max low (min n high) := by
  unfold clamp
  split_ifs <;> omega

/-- The ends of a place are those of the span, moved into the text and into order. -/
theorem place_ends (span : Span) (text : Bytes) :
    ((place span text).first : Int) = max 0 (min span.start text.length) ∧
      ((place span text).last : Int) =
        max ((place span text).first : Int) (min span.stop text.length) := by
  have hfirst : clamp span.start 0 text.length = max 0 (min span.start text.length) :=
    clamp_eq (Int.natCast_nonneg _)
  have hlast := clamp_eq (n := span.stop)
    (show clamp span.start 0 text.length ≤ text.length by omega)
  simp only [place]
  omega

theorem place_first_le (span : Span) (text : Bytes) : (place span text).first ≤ text.length := by
  have hfirst := (place_ends span text).1
  omega

theorem place_first_le_last (span : Span) (text : Bytes) :
    (place span text).first ≤ (place span text).last := by
  have hlast := (place_ends span text).2
  omega

theorem place_line (span : Span) (text : Bytes) :
    (place span text).line = 1 + (text.take (place span text).first).count Bytes.newline :=
  rfl

theorem place_lineStart (span : Span) (text : Bytes) :
    (place span text).lineStart =
      (place span text).first - trailing (text.take (place span text).first) :=
  rfl

theorem place_lineText (span : Span) (text : Bytes) :
    (place span text).lineText =
      (text.drop (place span text).lineStart).takeWhile (· ≠ Bytes.newline) :=
  rfl

/-- The quoted line is a line of the text, and the span starts on it or at its end. -/
theorem place_isLine (span : Span) (text : Bytes) :
    ∃ above below, IsLine text above (place span text).lineText below ∧
      above.length = (place span text).lineStart ∧
      (place span text).lineStart ≤ (place span text).first ∧
      (place span text).first ≤ (place span text).lineStart + (place span text).lineText.length := by
  have hfirst := place_first_le span text
  have hstart := place_lineStart span text
  have hline := place_lineText span text
  obtain ⟨above, front, hbefore, hlength, hfront, habove⟩ :=
    exists_trailing (text.take (place span text).first)
  obtain ⟨below, hbehind, hrest, hbelow⟩ := exists_rest (text.drop (place span text).first)
  have hsum : above.length + front.length = (place span text).first := by
    rw [← List.length_append, ← hbefore, List.length_take_of_le hfirst]
  have habovelength : above.length = (place span text).lineStart := by omega
  have htext : text = above ++ (front ++ text.drop (place span text).first) := by
    rw [← List.append_assoc, ← hbefore, List.take_append_drop]
  have hquoted : (place span text).lineText =
      front ++ (text.drop (place span text).first).takeWhile (· ≠ Bytes.newline) := by
    rw [hline, ← habovelength, ← takeWhile_front hfront]
    conv_lhs => rw [htext, List.drop_left]
  refine ⟨above, below, ⟨?_, ?_, habove, hbelow⟩, habovelength, by omega, ?_⟩
  · rw [hquoted, List.append_assoc, ← hbehind]
    exact htext
  · rw [hquoted, List.mem_append, not_or]
    exact ⟨hfront, hrest⟩
  · rw [hquoted, List.length_append]
    omega

theorem place_within (span : Span) (text : Bytes) :
    (place span text).lineStart ≤ (place span text).first ∧
      (place span text).first ≤ (place span text).lineStart + (place span text).lineText.length ∧
      (place span text).lineStart + (place span text).lineText.length ≤ text.length := by
  obtain ⟨above, below, hline, habove, hle, hge⟩ := place_isLine span text
  have hlength := congrArg List.length hline.eq
  rw [List.length_append, List.length_append] at hlength
  exact ⟨hle, hge, by omega⟩

/-! ## The marker -/

/-- The marker of a report. -/
def caret : UInt8 := 0x5E

/-- An offset is that of a byte of the line at which the span has a byte as well. -/
structure Covers (lineStart lineStop first last offset : Nat) : Prop where
  lineStart_le : lineStart ≤ offset
  lt_lineStop : offset < lineStop
  first_le : first ≤ offset
  lt_last : offset < last

/-- The offsets that are to be marked: those on the line that the span covers, or its start alone if
there are none. -/
def Marked (lineStart lineStop first last offset : Nat) : Prop :=
  Covers lineStart lineStop first last offset ∨
    offset = first ∧ ∀ other, ¬Covers lineStart lineStop first last other

theorem marker_getElem? (p : Place) (column : Nat) :
    p.marker[column]? =
      if column < p.first - p.lineStart then some Bytes.space
      else if column < p.first - p.lineStart + p.carets then some caret
      else none := by
  unfold Place.marker
  rw [List.getElem?_append, List.length_replicate, List.getElem?_replicate, List.getElem?_replicate]
  split_ifs <;> first | rfl | omega

theorem marked_iff {p : Place} (h : p.lineStart ≤ p.first) (column : Nat) :
    Marked p.lineStart (p.lineStart + p.lineText.length) p.first p.last (p.lineStart + column) ↔
      p.first - p.lineStart ≤ column ∧ column < p.first - p.lineStart + p.carets := by
  unfold Marked Place.carets
  by_cases hempty : min p.last (p.lineStart + p.lineText.length) ≤ p.first
  · -- No byte of the line is covered, and there is one caret.
    have hnone : ∀ other, ¬Covers p.lineStart (p.lineStart + p.lineText.length) p.first p.last other := by
      rintro other ⟨-, hstop, hfirst, hlast⟩
      omega
    simp only [hnone, not_false_eq_true, implies_true, and_true, false_or]
    omega
  · have hsome : ¬∀ other, ¬Covers p.lineStart (p.lineStart + p.lineText.length) p.first p.last other :=
      fun hnone ↦ hnone p.first ⟨h, by omega, Nat.le_refl _, by omega⟩
    simp only [hsome, and_false, or_false]
    constructor
    · rintro ⟨-, hstop, hfirst, hlast⟩
      omega
    · intro hcolumn
      exact ⟨by omega, by omega, by omega, by omega⟩

theorem marker_caret_iff {p : Place} (h : p.lineStart ≤ p.first) (column : Nat) :
    p.marker[column]? = some caret ↔
      Marked p.lineStart (p.lineStart + p.lineText.length) p.first p.last (p.lineStart + column) := by
  have hne : Bytes.space ≠ caret := by decide
  rw [marked_iff h, marker_getElem?]
  split_ifs <;> simp [hne] <;> omega

theorem mem_marker {p : Place} {b : UInt8} (h : b ∈ p.marker) : b = Bytes.space ∨ b = caret := by
  rcases List.mem_append.mp h with h | h
  · exact .inl (List.eq_of_mem_replicate h)
  · exact .inr (List.eq_of_mem_replicate h)

theorem getLast?_marker (p : Place) : p.marker.getLast? = some caret := by
  have hcarets : p.carets ≠ 0 := by
    unfold Place.carets
    omega
  unfold Place.marker
  rw [List.getLast?_append, List.getLast?_replicate, if_neg hcarets]
  rfl

end Conduit.Error
