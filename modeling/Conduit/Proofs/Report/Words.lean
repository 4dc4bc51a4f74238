import Mathlib.Algebra.Group.Nat.Defs
import Mathlib.Data.List.Induction
import Conduit.Error.Words
import Conduit.Proofs.Report

/-!
# Reports Fit Their Words

In a text shorter than 2^31 bytes the lengths of a report fit into the machine words they are reckoned
in: no difference is negative and nothing wraps around.  The search for newlines is followed byte by
byte; at each offset it knows the number of the line and where the line starts.  The line and the
column fit as well, unless the span starts at the very end of a text of the greatest length.
-/

namespace Conduit.Error

/-! ## Words -/

theorem toInt_narrow {n : UInt64} (h : n.toNat < 2 ^ 31) : (narrow n).toInt = n.toNat :=
  Int32.toInt_ofInt_of_le (by omega) (by omega)

theorem toNat_widen {n : Int32} (h : 0 ≤ n.toInt) : ((widen n).toNat : Int) = n.toInt := by
  have hlt := n.toInt_lt
  unfold widen UInt64.ofInt
  rw [UInt64.toNat_ofNat']
  omega

theorem toInt_sub_of_le {a b : Int32} (hb : 0 ≤ b.toInt) (h : b.toInt ≤ a.toInt) :
    (a - b).toInt = a.toInt - b.toInt := by
  have hlt := a.toInt_lt
  rw [Int32.toInt_sub]
  exact Int.bmod_eq_of_le_mul_two (by omega) (by omega)

theorem toInt_clampWord (n low high : Int32) :
    (clampWord n low high).toInt = clamp n.toInt low.toInt high.toInt := by
  unfold clampWord clamp
  simp only [Int32.lt_iff_toInt_lt]
  split_ifs <;> rfl

theorem trailing_snoc (text : Bytes) (b : UInt8) :
    trailing (text ++ [b]) = if b = Bytes.newline then 0 else trailing text + 1 := by
  unfold trailing
  rw [List.reverse_append, List.reverse_singleton, List.singleton_append, List.takeWhile_cons]
  by_cases hb : b = Bytes.newline
  · simp [hb]
  · simp [hb]

theorem trailing_le (text : Bytes) : trailing text ≤ text.length := by
  obtain ⟨above, front, htext, hlength, -, -⟩ := exists_trailing text
  rw [← hlength, htext, List.length_append]
  omega

/-- What a search has found out about the text that it has gone through. -/
structure Scan.Found (s : Scan) (text : Bytes) : Prop where
  offset : s.offset = Int32.ofInt text.length
  line : s.line = Int32.ofInt (1 + text.count Bytes.newline)
  lineStart : s.lineStart.toNat = text.length - trailing text

theorem Scan.Found.next {s : Scan} {text : Bytes} (h : s.Found text) {b : UInt8}
    (hsize : text.length + 1 < 2 ^ 31) : (s.next b).Found (text ++ [b]) := by
  have hoffset : s.offset + 1 = Int32.ofInt (text.length + 1) := by
    rw [h.offset, Int32.ofInt_add]
    rfl
  have htoInt : (s.offset + 1).toInt = text.length + 1 := by
    rw [hoffset, Int32.toInt_ofInt_of_le (by omega) (by omega)]
  have hle := trailing_le text
  unfold Scan.next
  by_cases hb : b = Bytes.newline
  · rw [if_pos hb]
    refine ⟨by simpa using hoffset, ?_, ?_⟩
    · change s.line + 1 = _
      rw [h.line, hb, List.count_append, List.count_singleton_self]
      push_cast
      rw [← Int.add_assoc, Int32.ofInt_add _ 1]
      rfl
    · have hwiden := toNat_widen (n := s.offset + 1) (by omega)
      rw [trailing_snoc, if_pos hb, List.length_append, List.length_singleton]
      change (widen (s.offset + 1)).toNat = _
      omega
  · rw [if_neg hb]
    refine ⟨by simpa using hoffset, ?_, ?_⟩
    · change s.line = _
      rw [h.line, List.count_append, List.count_singleton, if_neg (by simpa using hb), Nat.add_zero]
    · change s.lineStart.toNat = _
      rw [h.lineStart, trailing_snoc, if_neg hb, List.length_append, List.length_singleton]
      omega

theorem found_foldl_next {text : Bytes} (h : text.length < 2 ^ 31) :
    (text.foldl Scan.next {}).Found text := by
  induction text using List.reverseRecOn with
  | nil => exact ⟨rfl, rfl, rfl⟩
  | append_singleton text b ih =>
    rw [List.length_append, List.length_singleton] at h
    rw [List.foldl_append]
    exact (ih (by omega)).next h

/-- The words are the numbers that they are meant to be: no difference is negative, and nothing has
wrapped around. -/
structure Reckoning.Exact (r : Reckoning) (first last lineStart lineLength : Nat) : Prop where
  first_eq : r.first.toInt = first
  last_eq : r.last.toInt = last
  lineStart_eq : r.lineStart.toNat = lineStart
  lineStop_eq : r.lineStop.toNat = lineStart + lineLength
  lineLength_eq : r.lineLength.toNat = lineLength
  indent_eq : (r.indent.toNat : Int) = first - lineStart
  room_eq : r.room.toInt = min last (lineStart + lineLength) - first
  room_nonneg : 0 ≤ r.room.toInt
  carets_eq : r.carets.toInt = max 1 r.room.toInt

theorem Reckoning.Exact.of_reckonOn {first last : Int32} {scan : Scan} {lineStop : UInt64}
    {first' last' lineStart lineLength : Nat} (hfirst : first.toInt = first')
    (hlast : last.toInt = last') (hlineStart : scan.lineStart.toNat = lineStart)
    (hlineStop : lineStop.toNat = lineStart + lineLength) (hordered : first' ≤ last')
    (hle : lineStart ≤ first') (hge : first' ≤ lineStart + lineLength)
    (hsize : lineStart + lineLength < 2 ^ 31) :
    (reckonOn first last scan lineStop).Exact first' last' lineStart lineLength := by
  have hwiden := toNat_widen (n := first) (by omega)
  have hnarrow := toInt_narrow (n := lineStop) (by omega)
  have hroom : (reckonOn first last scan lineStop).room.toInt =
      min (last' : Int) (lineStart + lineLength) - first' := by
    unfold reckonOn
    simp only [Int32.lt_iff_toInt_lt]
    split_ifs with hless
    · rw [toInt_sub_of_le (by omega) (by omega)]
      omega
    · rw [toInt_sub_of_le (by omega) (by omega)]
      omega
  refine ⟨hfirst, hlast, hlineStart, hlineStop, ?_, ?_, by rw [hroom]; omega, by omega, ?_⟩
  · change (lineStop - scan.lineStart).toNat = _
    rw [UInt64.toNat_sub_of_le _ _ (UInt64.le_iff_toNat_le.mpr (by omega))]
    omega
  · change ((widen first - scan.lineStart).toNat : Int) = _
    rw [UInt64.toNat_sub_of_le _ _ (UInt64.le_iff_toNat_le.mpr (by omega))]
    omega
  · change (if 1 < (reckonOn first last scan lineStop).room then
      (reckonOn first last scan lineStop).room else 1).toInt = _
    have hone : (1 : Int32).toInt = 1 := rfl
    split_ifs with hless
    · rw [Int32.lt_iff_toInt_lt] at hless
      omega
    · rw [Int32.lt_iff_toInt_lt] at hless
      omega

theorem toInt_narrow_length {text : Bytes} (hsize : text.length < 2 ^ 31) :
    (narrow (UInt64.ofNat text.length)).toInt = text.length := by
  have hword : (UInt64.ofNat text.length).toNat = text.length :=
    UInt64.toNat_ofNat_of_lt' (Nat.lt_trans hsize (by decide))
  rw [toInt_narrow (by omega), hword]

/-- The ends of a span are moved into the text in words as they are in numbers. -/
theorem toInt_reckon_ends (start stop : Int32) {text : Bytes} (hsize : text.length < 2 ^ 31) :
    (reckon start stop text).first.toInt = (place ⟨start.toInt, stop.toInt⟩ text).first ∧
      (reckon start stop text).last.toInt = (place ⟨start.toInt, stop.toInt⟩ text).last := by
  let p := place ⟨start.toInt, stop.toInt⟩ text
  obtain ⟨hends, hends'⟩ := place_ends ⟨start.toInt, stop.toInt⟩ text
  have hle : p.first ≤ text.length := place_first_le _ text
  have hsizeWord := toInt_narrow_length hsize
  have hfirst : (reckon start stop text).first.toInt = p.first := by
    calc _ = clamp start.toInt 0 text.length := by
          rw [← hsizeWord]
          exact toInt_clampWord start 0 _
      _ = max 0 (min start.toInt text.length) := clamp_eq (Int.natCast_nonneg _)
      _ = p.first := hends.symm
  have hlast : (reckon start stop text).last.toInt = p.last := by
    calc _ = clamp stop.toInt p.first text.length := by
          rw [← hfirst, ← hsizeWord]
          exact toInt_clampWord stop _ _
      _ = max (p.first : Int) (min stop.toInt text.length) := clamp_eq (by omega)
      _ = p.last := hends'.symm
  exact ⟨hfirst, hlast⟩

theorem toNat_lineStopAfter (span : Span) {text : Bytes} (hsize : text.length < 2 ^ 31)
    {lineStart : UInt64} (hlineStart : lineStart.toNat = (place span text).lineStart) :
    (lineStopAfter text lineStart).toNat =
      (place span text).lineStart + (place span text).lineText.length := by
  obtain ⟨-, -, hstop⟩ := place_within span text
  have hword : (UInt64.ofNat (place span text).lineText.length).toNat =
      (place span text).lineText.length :=
    UInt64.toNat_ofNat_of_lt' (Nat.lt_of_le_of_lt (by omega) (show 2 ^ 31 < UInt64.size by decide))
  unfold lineStopAfter
  rw [UInt64.toNat_add, hlineStart, ← place_lineText, hword]
  omega

/-- What the search for newlines knows at the start of the span. -/
theorem found_reckon (start stop : Int32) {text : Bytes} (hsize : text.length < 2 ^ 31) :
    ((text.take (reckon start stop text).first.toInt.toNat).foldl Scan.next {}).Found
      (text.take (place ⟨start.toInt, stop.toInt⟩ text).first) := by
  rw [(toInt_reckon_ends start stop hsize).1, Int.toNat_natCast]
  refine found_foldl_next ?_
  rw [List.length_take]
  omega

/-- In a text shorter than 2^31 bytes the lengths of a report are those they are meant to be, and so
are its line and its column up to a multiple of 2^32. -/
theorem exact_reckon (start stop : Int32) {text : Bytes} (hsize : text.length < 2 ^ 31) :
    let p := place ⟨start.toInt, stop.toInt⟩ text
    (reckon start stop text).Exact p.first p.last p.lineStart p.lineText.length ∧
      (reckon start stop text).line = Int32.ofInt p.line ∧
      (reckon start stop text).column = Int32.ofInt p.column := by
  intro p
  obtain ⟨hfirst, hlast⟩ := toInt_reckon_ends start stop hsize
  obtain ⟨hle, hge, hstop⟩ : p.lineStart ≤ p.first ∧ p.first ≤ p.lineStart + p.lineText.length ∧
      p.lineStart + p.lineText.length ≤ text.length := place_within _ text
  have hordered : p.first ≤ p.last := place_first_le_last _ text
  have hfound := found_reckon start stop hsize
  have hlineStart : (reckon start stop text).lineStart.toNat = p.lineStart := by
    have h := hfound.lineStart
    rwa [List.length_take_of_le (place_first_le _ text)] at h
  have hlineStop : (reckon start stop text).lineStop.toNat = p.lineStart + p.lineText.length :=
    toNat_lineStopAfter _ hsize hlineStart
  have hcolumn : (reckon start stop text).column = Int32.ofInt p.column := by
    calc (reckon start stop text).column
        = (reckon start stop text).first - Int32.ofInt p.lineStart + 1 := by
          rw [← hlineStart]
          rfl
      _ = Int32.ofInt (p.first - p.lineStart) + 1 := by
          rw [Int32.ofInt_sub, ← hfirst, Int32.ofInt_toInt]
      _ = Int32.ofInt (p.first - p.lineStart + 1) := by
          rw [Int32.ofInt_add _ 1]
          rfl
      _ = Int32.ofInt p.column := by
          congr 1
          unfold Place.column
          omega
  exact ⟨.of_reckonOn hfirst hlast hlineStart hlineStop hordered hle hge (by omega), hfound.line,
    hcolumn⟩

theorem lineText_eq_take (span : Span) (text : Bytes) :
    (place span text).lineText =
      (text.drop (place span text).lineStart).take (place span text).lineText.length := by
  rw [place_lineText]
  exact List.prefix_iff_eq_take.mp (List.takeWhile_prefix _)

theorem line_le (span : Span) (text : Bytes) :
    (place span text).line ≤ 1 + (place span text).first := by
  have hcount := List.count_le_length (a := Bytes.newline)
    (l := text.take (place span text).first)
  have hfirst := place_first_le span text
  rw [List.length_take_of_le hfirst] at hcount
  rw [place_line]
  omega

/-- Unless the span starts at the very end of a text of the greatest length, the report is written
with reckoned numbers. -/
theorem write_reckon (kind : ErrorKind) (message name : Bytes) (start stop : Int32) {text : Bytes}
    (hsize : text.length < 2 ^ 31)
    (hfirst : (place ⟨start.toInt, stop.toInt⟩ text).first + 1 < 2 ^ 31) :
    (reckon start stop text).write message name text =
      report ⟨kind, message, some ⟨start.toInt, stop.toInt⟩⟩ name text := by
  let p := place ⟨start.toInt, stop.toInt⟩ text
  obtain ⟨hexact, hline, hcolumn⟩ :
      (reckon start stop text).Exact p.first p.last p.lineStart p.lineText.length ∧
        (reckon start stop text).line = Int32.ofInt p.line ∧
        (reckon start stop text).column = Int32.ofInt p.column := exact_reckon start stop hsize
  obtain ⟨hle, hge, hstop⟩ : p.lineStart ≤ p.first ∧ p.first ≤ p.lineStart + p.lineText.length ∧
      p.lineStart + p.lineText.length ≤ text.length := place_within _ text
  have hlinele : p.line ≤ 1 + p.first := line_le _ text
  have hfirst' : p.first + 1 < 2 ^ 31 := hfirst
  have hcolumnle : p.column ≤ p.first + 1 := by
    unfold Place.column
    omega
  have hlineWord : (reckon start stop text).line.toInt = p.line := by
    rw [hline, Int32.toInt_ofInt_of_le (by omega) (by omega)]
  have hcolumnWord : (reckon start stop text).column.toInt = p.column := by
    rw [hcolumn, Int32.toInt_ofInt_of_le (by omega) (by omega)]
  have hindent : (reckon start stop text).indent.toNat = p.first - p.lineStart := by
    have h := hexact.indent_eq
    omega
  have hcarets : (widen (reckon start stop text).carets).toNat = p.carets := by
    have hcaretsWord := hexact.carets_eq
    have hroom := hexact.room_eq
    have hwiden := toNat_widen (n := (reckon start stop text).carets) (by omega)
    unfold Place.carets
    omega
  unfold Reckoning.write
  rw [hlineWord, hcolumnWord, hexact.lineStart_eq, hexact.lineLength_eq, hindent, hcarets]
  change _ ++ (text.drop p.lineStart).take p.lineText.length ++ _ ++ _ = _
  rw [← lineText_eq_take]
  rfl

/-! ## The report -/

end Conduit.Error
