import Conduit.Proofs.Unicode

/-!
# Titles

A title is cut off behind the last whole character that fits.  Where characters end is read off
their first bytes alone, which is right for a text that the validator accepts: the first byte of an
encoded character announces the length of the encoding.  Of other texts a title is a prefix all the
same, and is as short as it has to be.
-/

namespace Conduit.Text.Unicode

/-! ## Any text -/

theorem width_pos (b : UInt8) : 0 < width b := by
  rw [width, announced?_eq]
  split_ifs <;> decide

theorem wholeCharacters_isPrefix (room : Nat) (text : Bytes) :
    wholeCharacters room text <+: text := by
  fun_induction wholeCharacters room text with
  | case1 => exact List.prefix_rfl
  | case2 room b rest h ih =>
    obtain ⟨others, hothers⟩ := ih
    refine ⟨others, ?_⟩
    rw [List.append_assoc, hothers, List.cons_append, List.take_append_drop]
  | case3 => exact List.nil_prefix

theorem length_wholeCharacters_le (room : Nat) (text : Bytes) :
    (wholeCharacters room text).length ≤ room := by
  fun_induction wholeCharacters room text with
  | case1 => exact Nat.zero_le _
  | case2 room b rest h ih =>
    have hpos := width_pos b
    have htake : (rest.take (width b - 1)).length ≤ width b - 1 := List.length_take_le _ _
    rw [List.length_append, List.length_cons]
    omega
  | case3 => exact Nat.zero_le _

theorem title_isPrefix (text : Bytes) : title text <+: text := by
  unfold title
  split
  · exact List.prefix_rfl
  · exact wholeCharacters_isPrefix _ text

theorem length_title_lt (text : Bytes) : (title text).length < titleLimit := by
  unfold title
  split
  · assumption
  · exact Nat.lt_of_le_of_lt (length_wholeCharacters_le _ text) (by decide)

/-! ## Texts that are accepted -/

/-- The first byte of an encoded character announces how long the encoding is. -/
theorem wholeCharacters_utf8EncodeChar_append (room : Nat) (c : Char) (rest : Bytes) :
    wholeCharacters room (String.utf8EncodeChar c ++ rest) =
      if c.utf8Size ≤ room then
        String.utf8EncodeChar c ++ wholeCharacters (room - c.utf8Size) rest
      else [] := by
  have hcapacity := ((utf8Size_eq_iff c _).mp rfl).2
  have hwidth : width (lead c.utf8Size c.toNat) = c.utf8Size := by
    rw [width, announced?_lead hcapacity, Option.getD_some]
  have hlength : (continuations (c.utf8Size - 1) c.toNat).length = c.utf8Size - 1 :=
    length_continuations _ _
  rw [utf8EncodeChar_eq, sequence, List.cons_append, wholeCharacters, hwidth,
    List.take_left' hlength, List.drop_left' hlength]

theorem isValid_wholeCharacters (room : Nat) (characters : List Char) :
    isValid (wholeCharacters room (characters.flatMap String.utf8EncodeChar)) = true := by
  induction characters generalizing room with
  | nil =>
    rw [List.flatMap_nil, wholeCharacters]
    rfl
  | cons c characters ih =>
    rw [List.flatMap_cons, wholeCharacters_utf8EncodeChar_append]
    split
    · rw [isValid_utf8EncodeChar_append, ih]
    · rfl

/-- The characters in front are taken if all of them fit. -/
theorem wholeCharacters_flatMap_append {room : Nat} {characters : List Char}
    (h : (characters.flatMap String.utf8EncodeChar).length ≤ room) (rest : Bytes) :
    wholeCharacters room (characters.flatMap String.utf8EncodeChar ++ rest) =
      characters.flatMap String.utf8EncodeChar ++
        wholeCharacters (room - (characters.flatMap String.utf8EncodeChar).length) rest := by
  induction characters generalizing room with
  | nil => rfl
  | cons c characters ih =>
    rw [List.flatMap_cons, List.length_append, String.length_utf8EncodeChar] at h
    rw [List.flatMap_cons, List.append_assoc, wholeCharacters_utf8EncodeChar_append,
      if_pos (by omega), ih (by omega), List.append_assoc, List.length_append,
      String.length_utf8EncodeChar, Nat.sub_sub]

/-- An accepted prefix of an accepted text ends where one of its characters ends. -/
theorem exists_characters_of_isPrefix {front : Bytes} {characters : List Char}
    (h : front <+: characters.flatMap String.utf8EncodeChar) (hfront : isValid front = true) :
    ∃ before after, characters = before ++ after ∧
      before.flatMap String.utf8EncodeChar = front := by
  obtain ⟨before, rfl⟩ := (isValid_iff_exists front).mp hfront
  obtain ⟨rest, hrest⟩ := h
  have hencode : before.utf8Encode ++ rest.toByteArray = characters.utf8Encode := by
    rw [List.utf8Encode, List.utf8Encode, ← hrest, List.toByteArray_append]
  obtain ⟨after, rfl⟩ := List.isPrefix_of_utf8Encode_append_eq_utf8Encode _ hencode
  exact ⟨before, after, rfl, rfl⟩

/-- A prefix that is accepted and fits is part of what is taken. -/
theorem isPrefix_wholeCharacters {room : Nat} {front : Bytes} {characters : List Char}
    (h : front <+: characters.flatMap String.utf8EncodeChar) (hfront : isValid front = true)
    (hroom : front.length ≤ room) :
    front <+: wholeCharacters room (characters.flatMap String.utf8EncodeChar) := by
  obtain ⟨before, after, rfl, rfl⟩ := exists_characters_of_isPrefix h hfront
  rw [List.flatMap_append, wholeCharacters_flatMap_append hroom]
  exact List.prefix_append _ _

/-- A title is a prefix of at most 31 bytes, and the whole text if that is shorter than 32 bytes.
The title of a longer text that the validator accepts is the longest prefix below 32 bytes that it
accepts, so that the next character would not have fitted. -/
theorem title_cuts (text : Bytes) :
    title text <+: text ∧ (title text).length ≤ 31 ∧ (text.length < 32 → title text = text) ∧
    (32 ≤ text.length → isValid text = true →
      isValid (title text) = true ∧
      (∀ front, front <+: text → front.length < 32 → isValid front = true →
        front <+: title text) ∧
      ∀ c : Char, title text ++ String.utf8EncodeChar c <+: text →
        32 ≤ (title text ++ String.utf8EncodeChar c).length) := by
  refine ⟨title_isPrefix text, Nat.le_of_lt_succ (length_title_lt text), fun h ↦ if_pos h,
    fun hlong htext ↦ ?_⟩
  have htitle : title text = wholeCharacters 31 text := if_neg (Nat.not_lt.mpr hlong)
  obtain ⟨characters, rfl⟩ := (isValid_iff_exists text).mp htext
  have hvalid := isValid_wholeCharacters 31 characters
  rw [htitle]
  refine ⟨hvalid, fun front hfront hshort haccepted ↦
    isPrefix_wholeCharacters hfront haccepted (Nat.le_of_lt_succ hshort), fun c hc ↦ ?_⟩
  by_contra hshort
  have haccepted : isValid (wholeCharacters 31 (characters.flatMap String.utf8EncodeChar) ++
      String.utf8EncodeChar c) = true := by
    rw [isValid_append hvalid, ← List.append_nil (String.utf8EncodeChar c),
      isValid_utf8EncodeChar_append]
    rfl
  have hlength := (isPrefix_wholeCharacters hc haccepted
    (Nat.le_of_lt_succ (Nat.lt_of_not_le hshort))).length_le
  rw [List.length_append, String.length_utf8EncodeChar] at hlength
  have hpos := c.utf8Size_pos
  omega

/-- Thirty letters a, the character U+20AC in three bytes, and a letter b. -/
def priced : Bytes := List.replicate 30 0x61 ++ [0xE2, 0x82, 0xAC, 0x62]

/-- The character would end with the byte 33, so the title ends in front of it. -/
theorem title_cuts_priced :
    32 ≤ priced.length ∧ isValid priced = true ∧ title priced = List.replicate 30 0x61 := by
  have hlong : 32 ≤ priced.length := by decide
  have hvalid : isValid priced = true := by decide +kernel
  obtain ⟨hleading, hlength, -, hcut⟩ := title_cuts priced
  obtain ⟨haccepted, hlongest, -⟩ := hcut hlong hvalid
  have hletters := hlongest (List.replicate 30 0x61) (List.prefix_append _ _) (by decide)
    (by decide +kernel)
  have htake : title priced = priced.take (title priced).length :=
    List.prefix_iff_eq_take.mp hleading
  have hlength : (title priced).length = 30 ∨ (title priced).length = 31 := by
    have hle := hletters.length_le
    rw [List.length_replicate] at hle
    omega
  refine ⟨hlong, hvalid, ?_⟩
  rcases hlength with h | h <;> rw [h] at htake
  · exact htake
  · -- With one byte more the title would end inside the character.
    rw [htake] at haccepted
    exact absurd haccepted (by decide +kernel)

end Conduit.Text.Unicode
