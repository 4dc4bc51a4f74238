import Mathlib.Data.List.Basic
import Mathlib.Data.List.TakeWhile
import Mathlib.Tactic.Common
import Conduit.Bytes

/-!
# Pieces between Marks

A text that is cut at every occurrence of a mark falls into pieces.  Cutting a text and what comes
behind one more mark gives the pieces of both, so texts can be cut by recursion at the first mark.
The nonempty pieces, in order, are the segments of the text: the nonempty stretches without a mark that
cannot be made longer on either side.
-/

namespace Conduit.Bytes

variable {mark : UInt8}

/-! ## Cutting -/

theorem pieces_ne_nil (mark : UInt8) (text : Bytes) : pieces mark text ≠ [] := by
  cases text with
  | nil => exact List.cons_ne_nil _ _
  | cons b rest =>
    rw [pieces]
    split
    · exact List.cons_ne_nil _ _
    · split <;> exact List.cons_ne_nil _ _

theorem pieces_append (mark : UInt8) (text rest : Bytes) :
    pieces mark (text ++ mark :: rest) = pieces mark text ++ pieces mark rest := by
  induction text with
  | nil => exact if_pos rfl
  | cons b text ih =>
    rw [List.cons_append, pieces, pieces, ih]
    split
    · rfl
    · rcases hpieces : pieces mark text with _ | ⟨piece, others⟩
      · exact absurd hpieces (pieces_ne_nil mark text)
      · rfl

theorem pieces_of_notMem {text : Bytes} (h : mark ∉ text) : pieces mark text = [text] := by
  induction text with
  | nil => rfl
  | cons b rest ih =>
    obtain ⟨hb, hrest⟩ := not_or.mp (mt List.mem_cons.mpr h)
    rw [pieces, if_neg (Ne.symm hb), ih hrest]

theorem pieces_flatMap {parts : List Bytes} (hparts : ∀ part ∈ parts, mark ∉ part)
    {last : Bytes} (hlast : mark ∉ last) :
    pieces mark (parts.flatMap (· ++ [mark]) ++ last) = parts ++ [last] := by
  induction parts with
  | nil => exact pieces_of_notMem hlast
  | cons part parts ih =>
    have hrest := ih fun other hother ↦ hparts other (List.mem_cons_of_mem _ hother)
    rw [List.flatMap_cons, List.append_assoc, List.append_assoc, List.singleton_append,
      pieces_append, pieces_of_notMem (hparts part List.mem_cons_self), hrest,
      List.singleton_append, List.cons_append]

/-- Lines that are ended by newlines are the lines of the whole, and so is what stands behind the
last newline, unless it is nothing. -/
theorem lines_flatMap {parts : List Bytes} (hparts : ∀ part ∈ parts, newline ∉ part)
    {last : Bytes} (hlast : newline ∉ last) :
    lines (parts.flatMap (· ++ [newline]) ++ last) =
      parts ++ if last = [] then [] else [last] := by
  rw [lines, pieces_flatMap hparts hlast, List.reverse_append, List.reverse_singleton,
    List.singleton_append]
  cases last with
  | nil => simp
  | cons b last => simp

/-- What holds of a text without a mark, and of a text that is cut at its first mark if it holds of
the rest, holds of every text. -/
theorem cut_induction {motive : Bytes → Prop} (mark : UInt8)
    (whole : ∀ text, mark ∉ text → motive text)
    (cut : ∀ text rest, mark ∉ text → motive rest → motive (text ++ mark :: rest))
    (text : Bytes) : motive text := by
  by_cases hmark : mark ∈ text
  · obtain ⟨front, rest, htext, hfront⟩ := List.eq_append_cons_of_mem hmark
    have hshort : rest.length < text.length := by
      rw [htext, List.length_append, List.length_cons]
      omega
    rw [htext]
    exact cut front rest hfront (cut_induction mark whole cut rest)
  · exact whole text hmark
termination_by text.length
decreasing_by exact hshort

/-- A text is cut in front of the first byte that a test refuses. -/
theorem exists_takeWhile (test : UInt8 → Bool) (text : Bytes) :
    ∃ rest, text = text.takeWhile test ++ rest ∧ (∀ b ∈ text.takeWhile test, test b) ∧
      ∀ b ∈ rest.head?, ¬test b := by
  refine ⟨text.dropWhile test, List.takeWhile_append_dropWhile.symm,
    fun b hb ↦ List.mem_takeWhile_imp hb, fun b hb ↦ ?_⟩
  have hhead := List.head?_dropWhile_not test text
  rw [Option.mem_def.mp hb] at hhead
  simpa using hhead

/-- Up to its first mark a text can be read in one way only. -/
theorem cut_of_append_eq {text rest front tail : Bytes} (h : mark ∉ text)
    (heq : text ++ mark :: rest = front ++ mark :: tail) :
    front = text ∧ tail = rest ∨ ∃ more, front = text ++ mark :: more ∧ rest = more ++ mark :: tail := by
  rcases List.append_eq_append_iff.mp heq with ⟨more, rfl, hmore⟩ | ⟨more, rfl, hmore⟩
  · cases more with
    | nil =>
      obtain ⟨-, rfl⟩ := List.cons.inj hmore
      exact .inl ⟨List.append_nil _, rfl⟩
    | cons b more =>
      obtain ⟨rfl, rfl⟩ := List.cons.inj hmore
      exact .inr ⟨more, rfl, rfl⟩
  · cases more with
    | nil =>
      obtain ⟨-, rfl⟩ := List.cons.inj hmore
      exact .inl ⟨(List.append_nil _).symm, rfl⟩
    | cons b more =>
      obtain ⟨rfl, -⟩ := List.cons.inj hmore
      exact absurd (List.mem_append_right _ List.mem_cons_self) h

theorem cut?_append {front : Bytes} (h : mark ∉ front) (rest : Bytes) :
    cut? mark (front ++ mark :: rest) = some (front, rest) := by
  induction front with
  | nil => exact if_pos rfl
  | cons b front ih =>
    obtain ⟨hb, hfront⟩ := not_or.mp (mt List.mem_cons.mpr h)
    rw [List.cons_append, cut?, if_neg (Ne.symm hb), ih hfront]
    rfl

theorem cut?_of_notMem {text : Bytes} (h : mark ∉ text) : cut? mark text = none := by
  induction text with
  | nil => rfl
  | cons b text ih =>
    obtain ⟨hb, htext⟩ := not_or.mp (mt List.mem_cons.mpr h)
    rw [cut?, if_neg (Ne.symm hb), ih htext]
    rfl

theorem eq_append_of_cut? {text front rest : Bytes} (h : cut? mark text = some (front, rest)) :
    text = front ++ mark :: rest ∧ mark ∉ front := by
  by_cases hmark : mark ∈ text
  · obtain ⟨before, after, rfl, hbefore⟩ := List.eq_append_cons_of_mem hmark
    rw [cut?_append hbefore] at h
    cases h
    exact ⟨rfl, hbefore⟩
  · rw [cut?_of_notMem hmark] at h
    cases h

/-! ## Lines -/

/-- The lines of a text: those that a newline ends, and what stands behind the last newline unless it
is nothing. -/
def IsLines (text : Bytes) (lines : List Bytes) : Prop :=
  ∃ ended last, (∀ line ∈ ended, newline ∉ line) ∧ newline ∉ last ∧
    text = ended.flatMap (· ++ [newline]) ++ last ∧
    lines = ended ++ if last = [] then [] else [last]

theorem isLines_iff (text : Bytes) (parts : List Bytes) :
    IsLines text parts ↔ parts = lines text := by
  constructor
  · rintro ⟨ended, last, hended, hlast, rfl, rfl⟩
    exact (lines_flatMap hended hlast).symm
  · rintro rfl
    induction text using cut_induction newline with
    | whole text h =>
      have hlines := lines_flatMap (List.forall_mem_nil _) h
      exact ⟨[], text, List.forall_mem_nil _, h, rfl, by simpa using hlines⟩
    | cut text rest h ih =>
      obtain ⟨ended, last, hended, hlast, hrest, -⟩ := ih
      have hparts : ∀ line ∈ text :: ended, newline ∉ line := List.forall_mem_cons.mpr ⟨h, hended⟩
      have htext : text ++ newline :: rest =
          (text :: ended).flatMap (· ++ [newline]) ++ last := by
        rw [hrest, List.flatMap_cons, List.append_assoc, List.append_assoc, List.singleton_append]
      exact ⟨text :: ended, last, hparts, hlast, htext, by rw [htext, lines_flatMap hparts hlast]⟩

/-! ## Segments -/

/-- Between what comes before it and what comes after it a piece is a nonempty stretch without a mark
that cannot be made longer. -/
structure IsSegment (mark : UInt8) (before piece after : Bytes) : Prop where
  nonempty : piece ≠ []
  unmarked : mark ∉ piece
  before_eq : before = [] ∨ ∃ front, before = front ++ [mark]
  after_eq : after = [] ∨ ∃ rest, after = mark :: rest

/-- At an offset of a text there is a segment. -/
def SegmentAt (mark : UInt8) (text : Bytes) (offset : Nat) (piece : Bytes) : Prop :=
  ∃ before after, text = before ++ piece ++ after ∧ before.length = offset ∧
    IsSegment mark before piece after

/-- The segments of a text, in order. -/
def Segments (mark : UInt8) (text : Bytes) (segments : List Bytes) : Prop :=
  ∃ located : List (Nat × Bytes), located.map Prod.snd = segments ∧
    located.Pairwise (fun first second ↦ first.1 < second.1) ∧
    ∀ offset piece, (offset, piece) ∈ located ↔ SegmentAt mark text offset piece

/-- A text has its segments in one order only. -/
theorem Segments.unique {text : Bytes} {segments others : List Bytes}
    (h : Segments mark text segments) (h' : Segments mark text others) : segments = others := by
  obtain ⟨located, rfl, hsorted, hmem⟩ := h
  obtain ⟨located', rfl, hsorted', hmem'⟩ := h'
  have hperm : located.Perm located' := by
    refine (List.perm_ext_iff_of_nodup (hsorted.imp ?_) (hsorted'.imp ?_)).mpr ?_
    · rintro first _ hlt rfl
      exact absurd hlt (Nat.lt_irrefl _)
    · rintro first _ hlt rfl
      exact absurd hlt (Nat.lt_irrefl _)
    · rintro ⟨offset, piece⟩
      rw [hmem, hmem']
  have heq : located = located' :=
    hperm.eq_of_pairwise (fun _ _ _ _ hlt hlt' ↦ absurd hlt' (Nat.lt_asymm hlt)) hsorted hsorted'
  rw [heq]

/-- A segment of a text without a mark is the whole text. -/
theorem segmentAt_of_notMem {text : Bytes} (h : mark ∉ text) (offset : Nat) (piece : Bytes) :
    SegmentAt mark text offset piece ↔ text ≠ [] ∧ offset = 0 ∧ piece = text := by
  constructor
  · rintro ⟨before, after, rfl, rfl, hpiece⟩
    simp only [List.mem_append, not_or] at h
    have hbefore : before = [] := by
      rcases hpiece.before_eq with hnil | ⟨front, rfl⟩
      · exact hnil
      · exact absurd (List.mem_append_right _ List.mem_cons_self) h.1.1
    have hafter : after = [] := by
      rcases hpiece.after_eq with hnil | ⟨rest, rfl⟩
      · exact hnil
      · exact absurd List.mem_cons_self h.2
    rw [hbefore, hafter, List.append_nil, List.nil_append]
    exact ⟨hpiece.nonempty, rfl, rfl⟩
  · rintro ⟨hne, rfl, rfl⟩
    exact ⟨[], [], by rw [List.append_nil, List.nil_append], rfl, hne, h, .inl rfl, .inl rfl⟩

/-- What stands before the first mark is a segment. -/
theorem segmentAt_front {text : Bytes} (h : mark ∉ text) (hne : text ≠ []) (rest : Bytes) :
    SegmentAt mark (text ++ mark :: rest) 0 text :=
  ⟨[], mark :: rest, rfl, rfl, hne, h, .inl rfl, .inr ⟨rest, rfl⟩⟩

/-- A segment of what stands behind a mark is one of the whole. -/
theorem SegmentAt.behind {rest : Bytes} {offset : Nat} {piece : Bytes}
    (h : SegmentAt mark rest offset piece) (text : Bytes) :
    SegmentAt mark (text ++ mark :: rest) (text.length + 1 + offset) piece := by
  obtain ⟨before, after, rfl, rfl, hpiece⟩ := h
  refine ⟨text ++ mark :: before, after, ?_, ?_, hpiece.nonempty, hpiece.unmarked, .inr ?_,
    hpiece.after_eq⟩
  · rw [List.append_assoc, List.append_assoc, List.append_assoc, List.cons_append]
  · rw [List.length_append, List.length_cons]
    omega
  · rcases hpiece.before_eq with rfl | ⟨front, rfl⟩
    · exact ⟨text, rfl⟩
    · exact ⟨text ++ mark :: front, by rw [List.append_assoc, List.cons_append]⟩

/-- Where a text is cut at its first mark, a segment of it is what stands before the mark or a segment
of the rest. -/
theorem segmentAt_append {text : Bytes} (h : mark ∉ text) (rest : Bytes) (offset : Nat)
    (piece : Bytes) :
    SegmentAt mark (text ++ mark :: rest) offset piece ↔
      text ≠ [] ∧ offset = 0 ∧ piece = text ∨
        ∃ n, offset = text.length + 1 + n ∧ SegmentAt mark rest n piece := by
  constructor
  · rintro ⟨before, after, heq, rfl, hpiece⟩
    rcases hpiece.before_eq with rfl | ⟨front, rfl⟩
    · left
      rcases hpiece.after_eq with rfl | ⟨others, rfl⟩
      · rw [List.append_nil, List.nil_append] at heq
        exact absurd (heq ▸ List.mem_append_right _ List.mem_cons_self) hpiece.unmarked
      · rcases cut_of_append_eq h heq with ⟨rfl, -⟩ | ⟨more, hmore, -⟩
        · exact ⟨hpiece.nonempty, rfl, rfl⟩
        · have hmarked : mark ∈ piece := by
            change piece = _ at hmore
            rw [hmore]
            exact List.mem_append_right _ List.mem_cons_self
          exact absurd hmarked hpiece.unmarked
    · right
      rw [List.append_assoc, List.append_assoc, List.singleton_append] at heq
      rcases cut_of_append_eq h heq with ⟨rfl, rfl⟩ | ⟨more, rfl, rfl⟩
      · exact ⟨0, List.length_append, [], after, rfl, rfl, hpiece.nonempty, hpiece.unmarked,
          .inl rfl, hpiece.after_eq⟩
      · refine ⟨more.length + 1, ?_, more ++ [mark], after, ?_, List.length_append,
          hpiece.nonempty, hpiece.unmarked, .inr ⟨more, rfl⟩, hpiece.after_eq⟩
        · simp only [List.length_append, List.length_cons, List.length_nil]
          omega
        · rw [List.append_assoc, List.append_assoc, List.singleton_append]
  · rintro (⟨hne, rfl, rfl⟩ | ⟨n, rfl, hpiece⟩)
    · exact segmentAt_front h hne rest
    · exact hpiece.behind text

/-- A text without a mark as a segment at the start, unless it is empty. -/
def locateWhole (text : Bytes) : List (Nat × Bytes) := if text.isEmpty then [] else [(0, text)]

theorem mem_locateWhole (text : Bytes) (offset : Nat) (piece : Bytes) :
    (offset, piece) ∈ locateWhole text ↔ text ≠ [] ∧ offset = 0 ∧ piece = text := by
  cases text with
  | nil => simp [locateWhole]
  | cons b text => simp [locateWhole]

theorem map_locateWhole (text : Bytes) :
    (locateWhole text).map Prod.snd = [text].filter fun piece ↦ !piece.isEmpty := by
  cases text <;> rfl

theorem pairwise_locateWhole (text : Bytes) :
    (locateWhole text).Pairwise fun first second ↦ first.1 < second.1 := by
  cases text with
  | nil => exact .nil
  | cons b text => exact List.pairwise_singleton _ _

/-- The nonempty pieces of a text are its segments. -/
theorem segments_pieces (mark : UInt8) (text : Bytes) :
    Segments mark text ((pieces mark text).filter fun piece ↦ !piece.isEmpty) := by
  induction text using cut_induction mark with
  | whole text h =>
    rw [pieces_of_notMem h]
    refine ⟨locateWhole text, map_locateWhole text, pairwise_locateWhole text, fun offset piece ↦ ?_⟩
    rw [segmentAt_of_notMem h, mem_locateWhole]
  | cut text rest h ih =>
    obtain ⟨located, hlocated, hsorted, hmem⟩ := ih
    let later := located.map fun entry ↦ (text.length + 1 + entry.1, entry.2)
    have hlater : later.map Prod.snd = located.map Prod.snd := by
      rw [List.map_map]
      rfl
    refine ⟨locateWhole text ++ later, ?_, ?_, fun offset piece ↦ ?_⟩
    · rw [List.map_append, map_locateWhole, hlater, hlocated, pieces_append, pieces_of_notMem h,
        List.filter_append]
    · refine List.pairwise_append.mpr ⟨pairwise_locateWhole text, ?_, ?_⟩
      · exact List.pairwise_map.mpr (hsorted.imp fun hlt ↦ Nat.add_lt_add_left hlt _)
      · rintro ⟨start, piece⟩ hstart entry hentry
        obtain ⟨-, rfl, -⟩ := (mem_locateWhole _ _ _).mp hstart
        obtain ⟨⟨n, other⟩, -, rfl⟩ := List.mem_map.mp hentry
        exact Nat.lt_of_lt_of_le (Nat.succ_pos _) (Nat.le_add_right _ _)
    · rw [segmentAt_append h, List.mem_append, mem_locateWhole, List.mem_map]
      refine or_congr Iff.rfl ⟨?_, ?_⟩
      · rintro ⟨⟨n, other⟩, hentry, heq⟩
        obtain ⟨rfl, rfl⟩ := Prod.mk.inj heq
        exact ⟨n, rfl, (hmem n other).mp hentry⟩
      · rintro ⟨n, rfl, hpiece⟩
        exact ⟨(n, piece), (hmem n piece).mpr hpiece, rfl⟩

end Conduit.Bytes
