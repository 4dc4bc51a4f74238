import Mathlib.Data.List.Induction
import Mathlib.Data.List.TakeWhile
import Mathlib.Data.Nat.Digits.Defs
import Mathlib.Logic.Relation
import Conduit.Host.Environment
import Conduit.Proofs.Pieces
import Conduit.Settings

/-!
# The Last Line for a Key

Each setting is decided by one line of the settings file: the last of those that give its key a value
which the setting accepts.  Every other line may as well be missing.  So lines that give no known key
a value can come and go, and neighbouring lines for different keys can change places, with nothing
changing in the settings.
-/

namespace Conduit

namespace Settings

/-! ## What a value means -/

/-- The number that decimal digits denote, read from the last one on. -/
def decimal (digits : Bytes) : Nat :=
  Nat.ofDigits 10 (digits.reverse.map fun digit ↦ digit.toNat - 48)

/-- A value starts with a numeral for a size: perhaps blanks, perhaps a sign, and then digits, as many
as there are in a row, for a number below the limit.  With a minus sign the size is counted back from
the limit. -/
def DenotesSize (value : Bytes) (size : Nat) : Prop :=
  ∃ blanks sign digits rest, value = blanks ++ (sign ++ (digits ++ rest)) ∧
    (∀ b ∈ blanks, isBlank b) ∧ sign ∈ [[], utf8 "+", utf8 "-"] ∧
    digits ≠ [] ∧ (∀ b ∈ digits, isDigit b) ∧ (∀ b ∈ rest.head?, ¬isDigit b) ∧
    decimal digits < 2 ^ 64 ∧
    size = if sign = utf8 "-" then (2 ^ 64 - decimal digits) % 2 ^ 64 else decimal digits

theorem toNat_digit {b : UInt8} (h : isDigit b) : (b - 0x30).toNat = b.toNat - 48 := by
  have hle : (0x30 : UInt8) ≤ b := (decide_eq_true_eq.mp (Bool.and_eq_true_iff.mp h).1)
  exact UInt8.toNat_sub_of_le b 0x30 hle

theorem numeral_eq_decimal {digits : Bytes} (h : ∀ b ∈ digits, isDigit b) :
    numeral digits = decimal digits := by
  induction digits using List.reverseRecOn with
  | nil => rfl
  | append_singleton digits b ih =>
    have hb : (b - 0x30).toNat = b.toNat - 48 := toNat_digit (h b (by simp))
    have hdigits : numeral digits = decimal digits := ih fun c hc ↦ h c (by simp [hc])
    calc numeral (digits ++ [b])
        = numeral digits * 10 + (b - 0x30).toNat := List.foldl_append
      _ = (b.toNat - 48) + 10 * decimal digits := by rw [hb, hdigits]; omega
      _ = decimal (digits ++ [b]) := by
        rw [decimal, decimal, List.reverse_append, List.reverse_singleton, List.singleton_append,
          List.map_cons, Nat.ofDigits_cons]

theorem not_isBlank_of_isDigit {b : UInt8} (h : isDigit b) : isBlank b = false := by
  simp only [isDigit, Bool.and_eq_true, decide_eq_true_eq, UInt8.le_iff_toNat_le] at h
  simp only [isBlank, Bool.or_eq_false_iff, beq_eq_false_iff_ne, Bool.and_eq_false_iff,
    decide_eq_false_iff_not, UInt8.le_iff_toNat_le, ne_eq, ← UInt8.toNat_inj]
  simp only [UInt8.reduceToNat] at h ⊢
  omega

theorem takeWhile_digits {digits rest : Bytes} (h : ∀ b ∈ digits, isDigit b)
    (hrest : ∀ b ∈ rest.head?, ¬isDigit b) : (digits ++ rest).takeWhile isDigit = digits := by
  have hnil : rest.takeWhile isDigit = [] := by
    cases rest with
    | nil => rfl
    | cons b rest => exact List.takeWhile_cons_of_neg (hrest b rfl)
  rw [List.takeWhile_append_of_pos h, hnil, List.append_nil]

/-- What stands behind the blanks starts with no blank if it starts with a sign or a digit. -/
theorem dropWhile_blanks {blanks text : Bytes} (h : ∀ b ∈ blanks, isBlank b)
    (htext : ∀ b ∈ text.head?, isBlank b = false) : (blanks ++ text).dropWhile isBlank = text := by
  rw [List.dropWhile_append_of_pos h]
  cases text with
  | nil => rfl
  | cons b text => exact List.dropWhile_cons_of_neg (by rw [htext b rfl]; exact Bool.false_ne_true)

/-- The sign of a text that has none. -/
theorem sign_digits {digits rest : Bytes} (hne : digits ≠ []) (h : ∀ b ∈ digits, isDigit b) :
    sign (digits ++ rest) = (false, digits ++ rest) := by
  cases digits with
  | nil => exact absurd rfl hne
  | cons b digits =>
    have hb : isDigit b := h b List.mem_cons_self
    rw [List.cons_append]
    unfold sign
    split
    · next heq => rw [(List.cons.inj heq).1] at hb; cases hb
    · next heq => rw [(List.cons.inj heq).1] at hb; cases hb
    · rfl

/-- What is read as a sign stands in front of the rest. -/
theorem exists_sign (text : Bytes) :
    ∃ front ∈ [[], utf8 "+", utf8 "-"], text = front ++ (sign text).2 ∧
      ((sign text).1 = true ↔ front = utf8 "-") := by
  unfold sign
  split
  · exact ⟨utf8 "-", by simp, rfl, by simp⟩
  · exact ⟨utf8 "+", by simp, rfl, iff_of_false nofun (by decide)⟩
  · exact ⟨[], by simp, rfl, iff_of_false nofun (by decide)⟩

theorem sizeLimit_eq : sizeLimit = 2 ^ 64 := rfl

theorem size?_of_sign {value digits rest : Bytes} {negative : Bool}
    (hsign : sign (value.dropWhile isBlank) = (negative, digits ++ rest)) (hne : digits ≠ [])
    (hdigits : ∀ b ∈ digits, isDigit b) (hrest : ∀ b ∈ rest.head?, ¬isDigit b) :
    size? value =
      if 2 ^ 64 ≤ decimal digits then none
      else if negative then some ((2 ^ 64 - decimal digits) % 2 ^ 64) else some (decimal digits) := by
  have hempty : digits.isEmpty = false := by simpa using hne
  unfold size?
  simp only [hsign, takeWhile_digits hdigits hrest, hempty, numeral_eq_decimal hdigits, sizeLimit_eq,
    Bool.false_or, decide_eq_true_eq]

/-- Where a value has a sign and digits behind its blanks. -/
theorem sign_dropWhile {blanks front digits rest : Bytes} (hblanks : ∀ b ∈ blanks, isBlank b)
    (hfront : front ∈ [[], utf8 "+", utf8 "-"]) (hne : digits ≠ [])
    (hdigits : ∀ b ∈ digits, isDigit b) :
    sign ((blanks ++ (front ++ (digits ++ rest))).dropWhile isBlank) =
      (decide (front = utf8 "-"), digits ++ rest) := by
  have hdigit : ∀ b ∈ (digits ++ rest).head?, isBlank b = false := by
    cases digits with
    | nil => exact absurd rfl hne
    | cons b digits =>
      rintro _ ⟨⟩
      exact not_isBlank_of_isDigit (hdigits b List.mem_cons_self)
  simp only [List.mem_cons, List.not_mem_nil, or_false] at hfront
  rcases hfront with rfl | rfl | rfl
  · rw [List.nil_append, dropWhile_blanks hblanks hdigit, sign_digits hne hdigits]
    rfl
  · rw [dropWhile_blanks hblanks (by rintro _ ⟨⟩; decide)]
    rfl
  · rw [dropWhile_blanks hblanks (by rintro _ ⟨⟩; decide)]
    rfl

/-- A value without digits behind its blanks and its sign has no size. -/
theorem size?_of_no_digits {value : Bytes}
    (h : (sign (value.dropWhile isBlank)).2.takeWhile isDigit = []) : size? value = none := by
  unfold size?
  simp only [h, List.isEmpty_nil, Bool.true_or, if_true]

theorem denotesSize_of_size? {value : Bytes} {size : Nat} (h : size? value = some size) :
    DenotesSize value size := by
  obtain ⟨front, hfront, htext, hnegative⟩ := exists_sign (value.dropWhile isBlank)
  obtain ⟨rest, hsplit, hdigits, hrest⟩ :=
    Bytes.exists_takeWhile isDigit (sign (value.dropWhile isBlank)).2
  let digits := (sign (value.dropWhile isBlank)).2.takeWhile isDigit
  have hne : digits ≠ [] := by
    intro hnil
    rw [size?_of_no_digits hnil] at h
    cases h
  have hsign : sign (value.dropWhile isBlank) =
      ((sign (value.dropWhile isBlank)).1, digits ++ rest) := by rw [← hsplit]
  rw [size?_of_sign hsign hne hdigits hrest] at h
  have hlt : decimal digits < 2 ^ 64 := by
    by_contra hle
    rw [if_pos (Nat.not_lt.mp hle)] at h
    cases h
  rw [if_neg (Nat.not_le.mpr hlt)] at h
  refine ⟨value.takeWhile isBlank, front, digits, rest, ?_, fun b hb ↦ List.mem_takeWhile_imp hb,
    hfront, hne, hdigits, hrest, hlt, ?_⟩
  · rw [← hsplit, ← htext, List.takeWhile_append_dropWhile]
  · by_cases hminus : front = utf8 "-"
    · rw [if_pos (hnegative.mpr hminus)] at h
      rw [if_pos hminus, Option.some.inj h]
    · rw [if_neg (mt hnegative.mp hminus)] at h
      rw [if_neg hminus, Option.some.inj h]

theorem size?_eq_some_iff (value : Bytes) (size : Nat) :
    size? value = some size ↔ DenotesSize value size := by
  constructor
  · exact denotesSize_of_size?
  · rintro ⟨blanks, front, digits, rest, rfl, hblanks, hfront, hne, hdigits, hrest, hlt, rfl⟩
    rw [size?_of_sign (sign_dropWhile hblanks hfront hne hdigits) hne hdigits hrest,
      if_neg (Nat.not_le.mpr hlt)]
    simp only [decide_eq_true_eq]
    split <;> rfl

/-! ## One setting -/

/-- The keys of the settings. -/
def keys : List Bytes := [utf8 "debug", utf8 "lib_dir", utf8 "out_leader", utf8 "out_chan_size"]

/-- One of the settings: its key, what it accepts of a value, and where it is kept. -/
structure Field (α : Type) where
  key : Bytes
  read : Bytes → Option α
  get : Settings → α
  known : key ∈ keys
  unmarked : Bytes.equals ∉ key
  plain : key.head? ≠ some 0x23
  assign_own : ∀ settings value, get (settings.assign key value) = (read value).getD (get settings)
  assign_other : ∀ settings {name : Bytes} value, name ≠ key →
    get (settings.assign name value) = get settings

namespace Field

/-- Whether debugging is on. -/
def debug : Field Bool where
  key := utf8 "debug"
  read value := some (isTruthy value)
  get := Settings.debug
  known := by decide
  unmarked := by decide
  plain := by decide
  assign_own _ _ := rfl
  assign_other settings name value hname := by
    fun_cases assign settings name value <;> first | contradiction | rfl

/-- Where modules are looked for. -/
def libraryDirectory : Field Bytes where
  key := utf8 "lib_dir"
  read := some
  get := Settings.libraryDirectory
  known := by decide
  unmarked := by decide
  plain := by decide
  assign_own _ _ := rfl
  assign_other settings name value hname := by
    fun_cases assign settings name value <;> first | contradiction | rfl

/-- What stands in front of a printed value. -/
def leader : Field Bytes where
  key := utf8 "out_leader"
  read := some
  get := Settings.leader
  known := by decide
  unmarked := by decide
  plain := by decide
  assign_own _ _ := rfl
  assign_other settings name value hname := by
    fun_cases assign settings name value <;> first | contradiction | rfl

theorem assign_channelSize (settings : Settings) (value : Bytes) :
    (settings.assign (utf8 "out_chan_size") value).channelSize =
      (size? value).getD settings.channelSize := by
  unfold assign
  rw [if_neg (by decide), if_neg (by decide), if_neg (by decide), if_pos rfl]
  cases size? value <;> rfl

/-- How many values wait to be printed. -/
def channelSize : Field Nat where
  key := utf8 "out_chan_size"
  read := size?
  get := Settings.channelSize
  known := by decide
  unmarked := by decide
  plain := by decide
  assign_own := assign_channelSize
  assign_other settings name value hname := by
    fun_cases assign settings name value <;> first | contradiction | rfl

variable {α : Type} (field : Field α)

/-- What a line gives the setting, if it does. -/
def given (line : Bytes) : Option α :=
  match entry? line with
  | some (name, value) => if name = field.key then field.read value else none
  | none => none

theorem get_readLine (settings : Settings) (line : Bytes) :
    field.get (settings.readLine line) = (field.given line).getD (field.get settings) := by
  unfold readLine given
  rcases entry? line with _ | ⟨name, value⟩
  · rfl
  · by_cases hname : name = field.key
    · simp only [hname, if_true, field.assign_own]
    · simp only [hname, if_false, field.assign_other settings value hname, Option.getD_none]

/-- A setting is what the last line that gives it something gives it. -/
theorem get_foldl_readLine (settings : Settings) (lines : List Bytes) :
    field.get (lines.foldl readLine settings) =
      ((lines.filterMap field.given).getLast?).getD (field.get settings) := by
  induction lines using List.reverseRecOn with
  | nil => rfl
  | append_singleton lines line ih =>
    rw [List.foldl_append, List.foldl_cons, List.foldl_nil, get_readLine, ih,
      List.filterMap_append]
    cases hline : field.given line with
    | none => simp [hline]
    | some a => simp [hline]

theorem entry?_eq {name : Bytes} (hname : Bytes.equals ∉ name) (hplain : name.head? ≠ some 0x23)
    (value : Bytes) : entry? (name ++ Bytes.equals :: value) = some (name, value) := by
  have hcut := Bytes.cut?_append hname value
  unfold entry?
  split
  · next text heq =>
    cases name with
    | nil => cases heq
    | cons b name => exact absurd (congrArg some (List.cons.inj heq).1) hplain
  · exact hcut

/-- Only a line that consists of the key, an equality sign and a value that is accepted gives the
setting something. -/
theorem given_eq_some_iff (line : Bytes) (a : α) :
    field.given line = some a ↔
      ∃ value, line = field.key ++ Bytes.equals :: value ∧ field.read value = some a := by
  constructor
  · intro h
    unfold given at h
    split at h
    · next name value hentry =>
      split at h
      · next hname =>
        unfold entry? at hentry
        split at hentry
        · cases hentry
        · obtain ⟨hline, -⟩ := Bytes.eq_append_of_cut? hentry
          exact ⟨value, hname ▸ hline, h⟩
      · cases h
    · cases h
  · rintro ⟨value, rfl, hread⟩
    unfold given
    rw [entry?_eq field.unmarked field.plain]
    simpa using hread

end Field

/-- Of some lines the last one that gives a key a value with a meaning decides, and if there is none
the fallback does. -/
inductive Decided {α : Type} (key : Bytes) (Means : Bytes → α → Prop) (fallback : α)
    (lines : List Bytes) : α → Prop
  | last {before after : List Bytes} {value : Bytes} {a : α} :
      lines = before ++ (key ++ Bytes.equals :: value) :: after → Means value a →
        (∀ later b, key ++ Bytes.equals :: later ∈ after → ¬Means later b) →
          Decided key Means fallback lines a
  | fallback : (∀ value a, key ++ Bytes.equals :: value ∈ lines → ¬Means value a) →
      Decided key Means fallback lines fallback

theorem Field.decided {α : Type} (field : Field α) {Means : Bytes → α → Prop}
    (hmeans : ∀ value a, field.read value = some a ↔ Means value a) (settings : Settings)
    (lines : List Bytes) :
    Decided field.key Means (field.get settings) lines (field.get (lines.foldl readLine settings)) := by
  have hgiven : ∀ value a, Means value a → field.given (field.key ++ Bytes.equals :: value) = some a :=
    fun value a h ↦ (field.given_eq_some_iff _ a).mpr ⟨value, rfl, (hmeans value a).mpr h⟩
  rw [get_foldl_readLine]
  rcases hlast : (lines.filterMap field.given).getLast? with _ | a
  · refine .fallback fun value a hmem h ↦ ?_
    have hnil := List.filterMap_eq_nil_iff.mp (List.getLast?_eq_none_iff.mp hlast) _ hmem
    rw [hgiven value a h] at hnil
    cases hnil
  · obtain ⟨earlier, hearlier⟩ := List.getLast?_eq_some_iff.mp hlast
    obtain ⟨before, behind, rfl, -, hbehind⟩ := List.filterMap_eq_append_iff.mp hearlier
    obtain ⟨skipped, line, after, rfl, -, hline, hafter⟩ := List.filterMap_eq_cons_iff.mp hbehind
    obtain ⟨value, rfl, hread⟩ := (field.given_eq_some_iff line a).mp hline
    refine .last (List.append_assoc before skipped _).symm ((hmeans value a).mp hread)
      fun later b hmem h ↦ ?_
    have hnil := List.filterMap_eq_nil_iff.mp hafter _ hmem
    rw [hgiven later b h] at hnil
    cases hnil

/-! ## Lines that may come, go and change places -/

/-- A line that is blank, a comment or without an equality sign, or is for an unknown key. -/
inductive Passive : Bytes → Prop
  | blank : Passive []
  | comment (text : Bytes) : Passive (0x23 :: text)
  | unmarked {line : Bytes} : Bytes.equals ∉ line → Passive line
  | unknown {key : Bytes} (value : Bytes) : Bytes.equals ∉ key → key ∉ keys →
      Passive (key ++ Bytes.equals :: value)

/-- A passive line is taken away, or two neighbouring lines for different keys change places. -/
inductive Edit : List Bytes → List Bytes → Prop
  | skip (before : List Bytes) {line : Bytes} (after : List Bytes) : Passive line →
      Edit (before ++ line :: after) (before ++ after)
  | swap (before : List Bytes) {key key' : Bytes} (value value' : Bytes) (after : List Bytes) :
      Bytes.equals ∉ key → Bytes.equals ∉ key' → key ≠ key' →
        Edit (before ++ (key ++ Bytes.equals :: value) :: (key' ++ Bytes.equals :: value') :: after)
          (before ++ (key' ++ Bytes.equals :: value') :: (key ++ Bytes.equals :: value) :: after)

/-- Up to its first equality sign a line can be read in one way only. -/
theorem key_inj {key key' value value' : Bytes} (hkey : Bytes.equals ∉ key)
    (hkey' : Bytes.equals ∉ key')
    (h : key ++ Bytes.equals :: value = key' ++ Bytes.equals :: value') : key = key' := by
  have hcut := Bytes.cut?_append hkey value
  rw [h, Bytes.cut?_append hkey'] at hcut
  exact (Prod.mk.inj (Option.some.inj hcut)).1.symm

theorem Field.given_of_ne {α : Type} (field : Field α) {key : Bytes} (hkey : Bytes.equals ∉ key)
    (hne : key ≠ field.key) (value : Bytes) :
    field.given (key ++ Bytes.equals :: value) = none := by
  refine Option.eq_none_iff_forall_ne_some.mpr fun a h ↦ ?_
  obtain ⟨value', heq, -⟩ := (field.given_eq_some_iff _ a).mp h
  exact hne (key_inj hkey field.unmarked heq)

theorem Passive.given {line : Bytes} (h : Passive line) {α : Type} (field : Field α) :
    field.given line = none := by
  cases h with
  | blank => rfl
  | comment text => rfl
  | unmarked hline =>
    refine Option.eq_none_iff_forall_ne_some.mpr fun a ha ↦ ?_
    obtain ⟨value, rfl, -⟩ := (field.given_eq_some_iff line a).mp ha
    exact hline (List.mem_append_right _ List.mem_cons_self)
  | unknown value hkey hunknown =>
    exact field.given_of_ne hkey (fun heq ↦ hunknown (heq ▸ field.known)) value

theorem Edit.filterMap_given {lines lines' : List Bytes} (h : Edit lines lines') {α : Type}
    (field : Field α) : lines.filterMap field.given = lines'.filterMap field.given := by
  cases h with
  | skip before after hline =>
    rw [List.filterMap_append, List.filterMap_cons_none (hline.given field), List.filterMap_append]
  | @swap before key key' value value' after hkey hkey' hne =>
    rw [List.filterMap_append, List.filterMap_append]
    congr 1
    -- At most one of the two keys is that of the setting.
    by_cases hown : key = field.key
    · have hother := field.given_of_ne hkey' (fun heq ↦ hne (hown.trans heq.symm)) value'
      simp only [List.filterMap_cons, hother]
    · have hother := field.given_of_ne hkey hown value
      simp only [List.filterMap_cons, hother]

theorem Field.get_eq_of_edits {α : Type} (field : Field α) (settings : Settings)
    {lines lines' : List Bytes} (h : Relation.EqvGen Edit lines lines') :
    field.get (lines.foldl readLine settings) = field.get (lines'.foldl readLine settings) := by
  have hgiven : lines.filterMap field.given = lines'.filterMap field.given := by
    induction h with
    | rel lines lines' hedit => exact hedit.filterMap_given field
    | refl lines => rfl
    | symm lines lines' _ ih => exact ih.symm
    | trans lines lines' lines'' _ _ ih ih' => exact ih.trans ih'
  rw [field.get_foldl_readLine, field.get_foldl_readLine, hgiven]

attribute [ext] Settings

theorem foldl_readLine_edits (settings : Settings) {lines lines' : List Bytes}
    (h : Relation.EqvGen Edit lines lines') :
    lines.foldl readLine settings = lines'.foldl readLine settings := by
  ext1
  · exact Field.debug.get_eq_of_edits settings h
  · exact Field.libraryDirectory.get_eq_of_edits settings h
  · exact Field.leader.get_eq_of_edits settings h
  · exact Field.channelSize.get_eq_of_edits settings h

/-! ## Loading -/

theorem isTruthy_eq_iff (value : Bytes) (on : Bool) :
    some (isTruthy value) = some on ↔
      (on = true ↔ value ∈ [utf8 "1", utf8 "true", utf8 "on"]) := by
  have htruthy : isTruthy value = true ↔ value ∈ [utf8 "1", utf8 "true", utf8 "on"] := by
    simp [isTruthy, or_assoc]
  rw [← htruthy, Option.some_inj, Bool.eq_iff_iff]
  exact iff_comm

theorem ofHome_eq (home : Bytes) :
    ofHome home =
      { libraryDirectory := if home = [] then [] else home ++ utf8 "/.stubsh/lib" } := by
  cases home <;> rfl

/-- Of the lines of a settings file the last one that gives a setting's key a value which the setting
accepts decides the setting, whatever the other lines are; without one it has its default.  So passive
lines may be taken away and put in anywhere, and neighbouring lines for different keys may change
places.  Loading switches the log on exactly if debugging is on. -/
theorem load_last_line_wins (environment : Host.Environment) {content : Bytes} {lines : List Bytes}
    (hlines : Bytes.IsLines content lines) (log : Log) :
    let home := environment.get (utf8 "HOME")
    let settings := load home (some content)
    Decided (utf8 "debug") (fun value on ↦ on = true ↔ value ∈ [utf8 "1", utf8 "true", utf8 "on"])
      false lines settings.debug ∧
    Decided (utf8 "lib_dir") (fun value directory ↦ directory = value)
      (if home = [] then [] else home ++ utf8 "/.stubsh/lib") lines settings.libraryDirectory ∧
    Decided (utf8 "out_leader") (fun value leader ↦ leader = value) (utf8 "▶ ") lines
      settings.leader ∧
    Decided (utf8 "out_chan_size") DenotesSize 32 lines settings.channelSize ∧
    (∀ content' lines', Bytes.IsLines content' lines' → Relation.EqvGen Edit lines lines' →
      load home (some content') = settings) ∧
    ((settings.enableLog log).enabled = true ↔ log.enabled = true ∨ settings.debug = true) := by
  intro home settings
  let defaults : Settings :=
    { libraryDirectory := if home = [] then [] else home ++ utf8 "/.stubsh/lib" }
  have hload : ∀ text parts, Bytes.IsLines text parts →
      load home (some text) = parts.foldl readLine defaults := fun text parts h ↦ by
    rw [(Bytes.isLines_iff text parts).mp h, load, ofHome_eq]
    rfl
  have hsettings : settings = lines.foldl readLine defaults := hload content lines hlines
  have hverbatim : ∀ value text : Bytes, some value = some text ↔ text = value := fun _ _ ↦
    Option.some_inj.trans eq_comm
  rw [hsettings]
  refine ⟨?_, ?_, ?_, ?_, fun content' lines' hlines' hedits ↦ ?_, ?_⟩
  · exact Field.debug.decided isTruthy_eq_iff defaults lines
  · exact Field.libraryDirectory.decided hverbatim defaults lines
  · exact Field.leader.decided hverbatim defaults lines
  · exact Field.channelSize.decided size?_eq_some_iff defaults lines
  · rw [hload content' lines' hlines', foldl_readLine_edits defaults hedits]
  · exact Bool.or_eq_true_iff

/-- A comment is taken away, two lines change places, and the last line gets a newline.  The size of
the channel is given by a line that is not the last one for its key. -/
theorem load_last_line_wins_rearranged :
    let content := utf8 "out_chan_size=8\n# note\nlib_dir=a=b\nout_chan_size=many"
    let content' := utf8 "lib_dir=a=b\nout_chan_size=8\nout_chan_size=many\n"
    let settings := load [] (some content)
    load [] (some content') = settings ∧ settings.libraryDirectory = utf8 "a=b" ∧
      settings.channelSize = 8 ∧ (settings.enableLog {}).enabled = false := by
  intro content content' settings
  let size := utf8 "out_chan_size" ++ Bytes.equals :: utf8 "8"
  let directory := utf8 "lib_dir" ++ Bytes.equals :: utf8 "a=b"
  let unread := utf8 "out_chan_size=many"
  have hlines : Bytes.IsLines content [size, utf8 "# note", directory, unread] :=
    (Bytes.isLines_iff _ _).mpr (by decide +kernel)
  have hlines' : Bytes.IsLines content' [directory, size, unread] :=
    (Bytes.isLines_iff _ _).mpr (by decide +kernel)
  have hedits : Relation.EqvGen Edit [size, utf8 "# note", directory, unread]
      [directory, size, unread] :=
    .trans _ _ _ (.rel _ _ (.skip [size] [directory, unread] (.comment (utf8 " note"))))
      (.rel _ _ (.swap [] (utf8 "8") (utf8 "a=b") [unread] (by decide) (by decide) (by decide)))
  obtain ⟨-, -, -, -, hsame, hlog⟩ := load_last_line_wins ⟨[]⟩ hlines {}
  refine ⟨hsame content' _ hlines' hedits, by decide +kernel, by decide +kernel, ?_⟩
  exact Bool.eq_false_iff.mpr (mt hlog.mp (by decide +kernel))

end Settings

end Conduit
