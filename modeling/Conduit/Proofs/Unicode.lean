import Mathlib.Data.FinEnum
import Mathlib.Data.List.TakeWhile
import Mathlib.Tactic.Common
import Conduit.Text.Unicode

/-!
# What Counts as UTF-8

The validator accepts exactly the concatenations of encoded characters, and no text is such a
concatenation in two ways.  Characters are the Unicode scalar values.  A text is refused exactly if
behind whole characters it goes on with a malformed sequence: one that is longer than its number
needs, one that carries a surrogate or a number past the last character, one that is cut off, or a
byte that starts no sequence.

Sequences are described by the number that they carry and by their length, whether or not the
number is encoded in that length.
-/

namespace Conduit.Text.Unicode

/-! ## Sequences -/

/-- What the first byte of a sequence of some length adds to the digit that it carries. -/
def mark : Nat → Nat
  | 2 => 0xC0
  | 3 => 0xE0
  | 4 => 0xF0
  | _ => 0

/-- The numbers below this one can be carried by a sequence of some length. -/
def capacity : Nat → Nat
  | 1 => 0x80
  | 2 => 0x800
  | 3 => 0x10000
  | 4 => 0x200000
  | _ => 0

/-- The least number for which a sequence of some length is needed. -/
def least : Nat → Nat
  | 2 => 0x80
  | 3 => 0x800
  | 4 => 0x10000
  | _ => 0

/-- The first byte of the sequence of some length that carries a number. -/
def lead (size n : Nat) : UInt8 := .ofNat (mark size + n / 64 ^ (size - 1))

/-- The continuation bytes that carry the last digits of a number to the base 64. -/
def continuations : Nat → Nat → Bytes
  | 0, _ => []
  | count + 1, n => .ofNat (0x80 + n / 64 ^ count % 64) :: continuations count n

/-- The sequence of some length that carries a number. -/
def sequence (size n : Nat) : Bytes := lead size n :: continuations (size - 1) n

/-- The text starts with bytes that encode no character. -/
inductive Malformed : Bytes → Prop where
  | overlong {size n : Nat} (hlow : n < least size) (rest : Bytes) :
      Malformed (sequence size n ++ rest)
  | surrogate {size n : Nat} (hn : n < capacity size) (hlow : 0xD800 ≤ n) (hhigh : n ≤ 0xDFFF)
      (rest : Bytes) : Malformed (sequence size n ++ rest)
  | tooHigh {size n : Nat} (hn : n < capacity size) (hhigh : 0x10FFFF < n) (rest : Bytes) :
      Malformed (sequence size n ++ rest)
  | truncated {size n : Nat} {rest : Bytes} (hn : n < capacity size)
      (hfew : (rest.takeWhile isContinuation).length + 1 < size) : Malformed (lead size n :: rest)
  | stray {b : UInt8} (hb : 0x80 ≤ b.toNat ∧ b.toNat < 0xC0 ∨ 0xF8 ≤ b.toNat) (rest : Bytes) :
      Malformed (b :: rest)

/-! ## Bytes -/

theorem toNat_ofNat {n : Nat} (h : n < 256) : (UInt8.ofNat n).toNat = n := by
  rw [UInt8.toNat_ofNat', Nat.mod_eq_of_lt h]

theorem ofNat_of_toNat {b : UInt8} {n : Nat} (h : b.toNat = n) : UInt8.ofNat n = b := by
  rw [← h, UInt8.ofNat_toNat]

theorem isContinuation_eq : ∀ b : UInt8,
    isContinuation b = decide (0x80 ≤ b.toNat ∧ b.toNat < 0xC0) := by
  decide +kernel

theorem announced?_eq : ∀ b : UInt8, announced? b =
    if b.toNat < 0x80 then some 1 else if b.toNat < 0xC0 then none
    else if b.toNat < 0xE0 then some 2 else if b.toNat < 0xF0 then some 3
    else if b.toNat < 0xF8 then some 4 else none := by
  decide +kernel

theorem announced?_eq_none_iff (b : UInt8) :
    announced? b = none ↔ 0x80 ≤ b.toNat ∧ b.toNat < 0xC0 ∨ 0xF8 ≤ b.toNat := by
  rw [announced?_eq]
  grind

/-! ## Sequences as bytes -/

theorem cases_of_lt_capacity {size n : Nat} (hn : n < capacity size) :
    size = 1 ∧ n < 0x80 ∨ size = 2 ∧ n < 0x800 ∨ size = 3 ∧ n < 0x10000 ∨
      size = 4 ∧ n < 0x200000 := by
  match size with
  | 1 => exact .inl ⟨rfl, hn⟩
  | 2 => exact .inr (.inl ⟨rfl, hn⟩)
  | 3 => exact .inr (.inr (.inl ⟨rfl, hn⟩))
  | 4 => exact .inr (.inr (.inr ⟨rfl, hn⟩))
  | 0 | _ + 5 => cases hn

theorem toNat_lead {size n : Nat} (hn : n < capacity size) :
    (lead size n).toNat = mark size + n / 64 ^ (size - 1) := by
  apply toNat_ofNat
  rcases cases_of_lt_capacity hn with ⟨rfl, h⟩ | ⟨rfl, h⟩ | ⟨rfl, h⟩ | ⟨rfl, h⟩ <;>
    simp only [mark, Nat.reduceSub, Nat.reducePow] <;> omega

theorem announced?_lead {size n : Nat} (hn : n < capacity size) :
    announced? (lead size n) = some size := by
  rw [announced?_eq, toNat_lead hn]
  rcases cases_of_lt_capacity hn with ⟨rfl, h⟩ | ⟨rfl, h⟩ | ⟨rfl, h⟩ | ⟨rfl, h⟩ <;>
    simp only [mark, Nat.reduceSub, Nat.reducePow] <;> grind

/-- A byte that announces a length is the first byte of a sequence of this length. -/
theorem exists_lead {a : UInt8} {size : Nat} (ha : announced? a = some size) :
    ∃ x, (x + 1) * 64 ^ (size - 1) ≤ capacity size ∧ a.toNat = mark size + x := by
  rw [announced?_eq] at ha
  split_ifs at ha <;> cases ha
  · exact ⟨a.toNat, by simp [capacity]; omega, by simp [mark]⟩
  · exact ⟨a.toNat - 0xC0, by simp [capacity]; omega, by simp [mark]; omega⟩
  · exact ⟨a.toNat - 0xE0, by simp [capacity]; omega, by simp [mark]; omega⟩
  · exact ⟨a.toNat - 0xF0, by simp [capacity]; omega, by simp [mark]; omega⟩

@[simp] theorem length_continuations (count n : Nat) : (continuations count n).length = count := by
  induction count with
  | zero => rfl
  | succ count ih => rw [continuations, List.length_cons, ih]

/-- Continuation bytes carry nothing of a number but its last digits. -/
theorem continuations_add (count x n : Nat) :
    continuations count (x * 64 ^ count + n) = continuations count n := by
  induction count generalizing x with
  | zero => rfl
  | succ count ih =>
    have hpow : x * 64 ^ (count + 1) = x * 64 * 64 ^ count := by
      rw [Nat.pow_succ, Nat.mul_assoc, Nat.mul_comm 64]
    have hdigit : (x * 64 * 64 ^ count + n) / 64 ^ count = x * 64 + n / 64 ^ count := by
      rw [Nat.add_comm, Nat.add_mul_div_right _ _ (Nat.pow_pos (by decide)), Nat.add_comm]
    rw [continuations, continuations, hpow, hdigit, ih, Nat.mul_add_mod_self_right]

theorem div_pow_of_lt {count x n : Nat} (hn : n < 64 ^ count) :
    (x * 64 ^ count + n) / 64 ^ count = x := by
  rw [Nat.add_comm, Nat.add_mul_div_right _ _ (Nat.pow_pos (by decide)), Nat.div_eq_of_lt hn,
    Nat.zero_add]

theorem lt_mul_pow {count x y n : Nat} (hn : n < 64 ^ count) (hx : x < y) :
    x * 64 ^ count + n < y * 64 ^ count :=
  calc x * 64 ^ count + n < x * 64 ^ count + 64 ^ count := Nat.add_lt_add_left hn _
    _ = (x + 1) * 64 ^ count := (Nat.succ_mul _ _).symm
    _ ≤ y * 64 ^ count := Nat.mul_le_mul_right _ hx

/-- Any continuation bytes carry the digits of some number. -/
theorem exists_continuations {tail : Bytes} (htail : ∀ b ∈ tail, isContinuation b = true) :
    ∃ n < 64 ^ tail.length, continuations tail.length n = tail := by
  induction tail with
  | nil => exact ⟨0, Nat.one_pos, rfl⟩
  | cons b tail ih =>
    obtain ⟨hb, htail⟩ := List.forall_mem_cons.mp htail
    obtain ⟨n, hn, heq⟩ := ih htail
    rw [isContinuation_eq, decide_eq_true_eq] at hb
    have hdigit : (b.toNat - 0x80) % 64 = b.toNat - 0x80 := Nat.mod_eq_of_lt (by omega)
    have hbyte : UInt8.ofNat (0x80 + (b.toNat - 0x80)) = b := ofNat_of_toNat (by omega)
    refine ⟨(b.toNat - 0x80) * 64 ^ tail.length + n, ?_, ?_⟩
    · rw [List.length_cons, Nat.pow_succ, Nat.mul_comm _ 64]
      exact lt_mul_pow hn (by omega)
    · rw [List.length_cons, continuations, div_pow_of_lt hn, hdigit, continuations_add, heq,
        hbyte]

/-- What does not start with a sequence is malformed. -/
theorem sequence_or_malformed (a : UInt8) (more : Bytes) :
    (∃ size n rest, n < capacity size ∧ a :: more = sequence size n ++ rest) ∨
      Malformed (a :: more) := by
  rcases ha : announced? a with _ | size
  · exact .inr (.stray ((announced?_eq_none_iff a).mp ha) more)
  · obtain ⟨x, hx, ha⟩ := exists_lead ha
    have hlead : ∀ n < 64 ^ (size - 1),
        x * 64 ^ (size - 1) + n < capacity size ∧ lead size (x * 64 ^ (size - 1) + n) = a := by
      intro n hn
      refine ⟨Nat.lt_of_lt_of_le (lt_mul_pow hn (Nat.lt_succ_self x)) hx, ?_⟩
      rw [lead, div_pow_of_lt hn, ofNat_of_toNat ha]
    by_cases hfew : (more.takeWhile isContinuation).length + 1 < size
    · right
      obtain ⟨hn, hlead⟩ := hlead 0 (Nat.pow_pos (by decide))
      exact hlead ▸ .truncated hn hfew
    · left
      let tail := (more.takeWhile isContinuation).take (size - 1)
      have hlength : tail.length = size - 1 := by
        rw [List.length_take]
        omega
      have hcontinuations : ∀ b ∈ tail, isContinuation b = true :=
        fun _ hb ↦ List.mem_takeWhile_imp (List.mem_of_mem_take hb)
      obtain ⟨n, hn, htail⟩ := exists_continuations hcontinuations
      rw [hlength] at hn htail
      obtain ⟨hcapacity, hlead⟩ := hlead n hn
      refine ⟨size, _, (more.takeWhile isContinuation).drop (size - 1) ++
        more.dropWhile isContinuation, hcapacity, ?_⟩
      rw [sequence, hlead, continuations_add, htail, List.cons_append, ← List.append_assoc,
        List.take_append_drop, List.takeWhile_append_dropWhile]

/-! ## The validator on sequences -/

theorem payload_eq (b : UInt8) : payload b = b.toNat % 64 := by
  rw [payload, UInt8.toNat_and]
  exact Nat.and_two_pow_sub_one_eq_mod _ 6

theorem value2_eq (a b : UInt8) : value2 a b = a.toNat % 32 * 64 + b.toNat % 64 := by
  rw [value2, payload_eq, UInt8.toNat_and]
  congr 2
  exact Nat.and_two_pow_sub_one_eq_mod _ 5

theorem value3_eq (a b c : UInt8) :
    value3 a b c = (a.toNat % 16 * 64 + b.toNat % 64) * 64 + c.toNat % 64 := by
  rw [value3, payload_eq, payload_eq, UInt8.toNat_and]
  congr 4
  exact Nat.and_two_pow_sub_one_eq_mod _ 4

theorem value4_eq (a b c d : UInt8) : value4 a b c d =
    ((a.toNat % 8 * 64 + b.toNat % 64) * 64 + c.toNat % 64) * 64 + d.toNat % 64 := by
  rw [value4, payload_eq, payload_eq, payload_eq, UInt8.toNat_and]
  congr 6
  exact Nat.and_two_pow_sub_one_eq_mod _ 3

/-- A sequence is passed over if it is of the least length for its number and this is a scalar
value. -/
theorem isValid_sequence_append {size n : Nat} (hn : n < capacity size) (rest : Bytes) :
    isValid (sequence size n ++ rest) =
      (decide (least size ≤ n) && isScalar n && isValid rest) := by
  have hlead := announced?_lead hn
  have hfirst := toNat_lead hn
  have hdigit : ∀ x, (UInt8.ofNat (0x80 + x % 64)).toNat = 0x80 + x % 64 :=
    fun x ↦ toNat_ofNat (by omega)
  have hcontinuation : ∀ x, isContinuation (.ofNat (0x80 + x % 64)) = true := by
    intro x
    rw [isContinuation_eq, hdigit, decide_eq_true_eq]
    omega
  have hscalar : n < 0x800 → isScalar n = true := by
    intro h
    simp only [isScalar, Bool.and_eq_true, Bool.not_eq_true', decide_eq_true_eq,
      Bool.and_eq_false_iff, decide_eq_false_iff_not]
    omega
  rcases cases_of_lt_capacity hn with ⟨rfl, h⟩ | ⟨rfl, h⟩ | ⟨rfl, h⟩ | ⟨rfl, h⟩ <;>
    simp only [mark, Nat.reduceSub, Nat.reducePow] at hfirst <;>
    rw [sequence, List.cons_append, isValid.eq_def] <;>
    simp only [hlead, continuations, List.cons_append, List.nil_append, hcontinuation, least,
      Nat.reduceSub, Nat.reducePow, Nat.pow_zero, Nat.div_one, Bool.true_and]
  -- A sequence of one or two bytes is too short for a number that is no scalar value.
  · rw [hscalar (Nat.lt_trans h (by decide)), decide_eq_true (Nat.zero_le n), Bool.true_and,
      Bool.true_and]
  · have hvalue : value2 (lead 2 n) (.ofNat (0x80 + n % 64)) = n := by
      rw [value2_eq, hfirst, hdigit]
      omega
    rw [hvalue, hscalar h, Bool.and_true]
  · have hvalue : value3 (lead 3 n) (.ofNat (0x80 + n / 64 % 64)) (.ofNat (0x80 + n % 64)) =
        n := by
      rw [value3_eq, hfirst, hdigit, hdigit]
      omega
    rw [hvalue]
  · have hvalue : value4 (lead 4 n) (.ofNat (0x80 + n / 4096 % 64))
        (.ofNat (0x80 + n / 64 % 64)) (.ofNat (0x80 + n % 64)) = n := by
      rw [value4_eq, hfirst, hdigit, hdigit, hdigit]
      omega
    rw [hvalue]

/-- Behind a first byte that is accepted there are as many continuation bytes as it announces. -/
theorem le_length_of_isValid {a : UInt8} {size : Nat} {more : Bytes}
    (ha : announced? a = some size) (h : isValid (a :: more) = true) :
    size ≤ (more.takeWhile isContinuation).length + 1 := by
  have hsize : size = 1 ∨ size = 2 ∨ size = 3 ∨ size = 4 := by
    rw [announced?_eq] at ha
    split_ifs at ha <;> cases ha <;> decide
  rw [isValid.eq_def] at h
  rcases hsize with rfl | rfl | rfl | rfl <;> simp only [ha] at h
  · omega
  all_goals
    split at h
    · simp only [Bool.and_eq_true] at h
      simp [h]
    · cases h

/-! ## Characters -/

theorem isScalar_iff (n : Nat) : isScalar n = true ↔ n.isValidChar := by
  simp only [isScalar, Nat.isValidChar, Bool.and_eq_true, Bool.not_eq_true', decide_eq_true_eq,
    Bool.and_eq_false_iff, decide_eq_false_iff_not]
  omega

theorem utf8Size_eq_iff (c : Char) (size : Nat) :
    c.utf8Size = size ↔ least size ≤ c.toNat ∧ c.toNat < capacity size := by
  have hvalid : c.toNat < 0x110000 := by
    rcases c.valid with h | h
    · exact Nat.lt_trans h (by decide)
    · exact h.2
  have hval : c.val.toNat = c.toNat := rfl
  constructor
  · rintro rfl
    obtain h | h | h | h := c.utf8Size_eq <;> rw [h]
    · have := Char.utf8Size_eq_one_iff.mp h
      simp only [UInt32.le_iff_toNat_le, hval, UInt32.reduceToNat] at this
      simp only [least, capacity]
      omega
    · have := Char.utf8Size_eq_two_iff.mp h
      simp only [UInt32.le_iff_toNat_le, UInt32.lt_iff_toNat_lt, hval, UInt32.reduceToNat] at this
      simp only [least, capacity]
      omega
    · have := Char.utf8Size_eq_three_iff.mp h
      simp only [UInt32.le_iff_toNat_le, UInt32.lt_iff_toNat_lt, hval, UInt32.reduceToNat] at this
      simp only [least, capacity]
      omega
    · have := Char.utf8Size_eq_four_iff.mp h
      simp only [UInt32.lt_iff_toNat_lt, hval, UInt32.reduceToNat] at this
      simp only [least, capacity]
      omega
  · rintro ⟨hlow, hhigh⟩
    rcases cases_of_lt_capacity hhigh with ⟨rfl, h⟩ | ⟨rfl, h⟩ | ⟨rfl, h⟩ | ⟨rfl, h⟩ <;>
      simp only [least] at hlow
    · rw [Char.utf8Size_eq_one_iff, UInt32.le_iff_toNat_le]
      exact Nat.le_of_lt_succ h
    · rw [Char.utf8Size_eq_two_iff, UInt32.le_iff_toNat_le, UInt32.lt_iff_toNat_lt]
      exact ⟨hlow, Nat.le_of_lt_succ h⟩
    · rw [Char.utf8Size_eq_three_iff, UInt32.le_iff_toNat_le, UInt32.lt_iff_toNat_lt]
      exact ⟨hlow, Nat.le_of_lt_succ h⟩
    · rw [Char.utf8Size_eq_four_iff, UInt32.lt_iff_toNat_lt]
      exact hlow

/-- A character is encoded as its number in the shortest sequence that can carry it. -/
theorem utf8EncodeChar_eq (c : Char) : String.utf8EncodeChar c = sequence c.utf8Size c.toNat := by
  obtain ⟨hlow, hhigh⟩ := (utf8Size_eq_iff c _).mp rfl
  have hval : c.val.toNat = c.toNat := rfl
  rcases cases_of_lt_capacity hhigh with ⟨h, hn⟩ | ⟨h, hn⟩ | ⟨h, hn⟩ | ⟨h, hn⟩ <;>
    rw [h] at hlow ⊢ <;> simp only [least] at hlow <;>
    simp only [String.utf8EncodeChar, sequence, lead, mark, continuations, hval, Nat.reduceSub,
      Nat.reducePow, Nat.pow_zero, Nat.pow_one, Nat.div_one, Nat.zero_add]
  · rw [if_pos (by omega)]
  · rw [if_neg (by omega), if_pos (by omega), Nat.mod_eq_of_lt (by omega), Nat.add_comm _ 0xC0,
      Nat.add_comm _ 0x80]
  · rw [if_neg (by omega), if_neg (by omega), if_pos (by omega), Nat.mod_eq_of_lt (by omega),
      Nat.add_comm _ 0xE0, Nat.add_comm _ 0x80, Nat.add_comm _ 0x80]
  · rw [if_neg (by omega), if_neg (by omega), if_neg (by omega), Nat.mod_eq_of_lt (by omega),
      Nat.add_comm _ 0xF0, Nat.add_comm _ 0x80, Nat.add_comm _ 0x80, Nat.add_comm _ 0x80]

/-- A sequence is the encoding of a character or malformed. -/
theorem encoded_or_malformed {size n : Nat} (hn : n < capacity size) (rest : Bytes) :
    (∃ c, String.utf8EncodeChar c = sequence size n) ∨ Malformed (sequence size n ++ rest) := by
  by_cases hlow : n < least size
  · exact .inr (.overlong hlow rest)
  · by_cases hscalar : n.isValidChar
    · left
      have htoNat : (Char.ofNat n).toNat = n := by
        rw [Char.ofNat, dif_pos hscalar]
        rfl
      refine ⟨Char.ofNat n, ?_⟩
      have hsize : (Char.ofNat n).utf8Size = size := by
        rw [utf8Size_eq_iff, htoNat]
        exact ⟨Nat.le_of_not_lt hlow, hn⟩
      rw [utf8EncodeChar_eq, hsize, htoNat]
    · right
      by_cases hhigh : 0x10FFFF < n
      · exact .tooHigh hn hhigh rest
      · exact .surrogate hn (by omega) (by omega) rest

/-! ## Texts -/

theorem isValid_utf8EncodeChar_append (c : Char) (rest : Bytes) :
    isValid (String.utf8EncodeChar c ++ rest) = isValid rest := by
  obtain ⟨hlow, hhigh⟩ := (utf8Size_eq_iff c _).mp rfl
  have hscalar : isScalar c.toNat = true := (isScalar_iff _).mpr c.valid
  rw [utf8EncodeChar_eq, isValid_sequence_append hhigh, decide_eq_true hlow, hscalar, Bool.true_and,
    Bool.true_and]

theorem isValid_of_malformed {text : Bytes} (h : Malformed text) : isValid text = false := by
  have hcapacity : ∀ {size n}, n < least size → n < capacity size := by
    intro size n hn
    match size with
    | 2 | 3 | 4 => exact Nat.lt_trans hn (by decide)
    | 0 | 1 | _ + 5 => cases hn
  cases h with
  | overlong hlow rest =>
    rw [isValid_sequence_append (hcapacity hlow), decide_eq_false (Nat.not_le.mpr hlow),
      Bool.false_and, Bool.false_and]
  | surrogate hn hlow hhigh rest =>
    have hscalar : ∀ n, 0xD800 ≤ n → n ≤ 0xDFFF → isScalar n = false := by
      intro n hlow hhigh
      simp [isScalar, hlow, hhigh]
    rw [isValid_sequence_append hn, hscalar _ hlow hhigh, Bool.and_false, Bool.false_and]
  | tooHigh hn hhigh rest =>
    have hscalar : ∀ n, 0x10FFFF < n → isScalar n = false := by
      intro n hhigh
      simp only [isScalar, decide_eq_false (Nat.not_le.mpr hhigh), Bool.false_and]
    rw [isValid_sequence_append hn, hscalar _ hhigh, Bool.and_false, Bool.false_and]
  | truncated hn hfew =>
    rw [← Bool.not_eq_true]
    intro h
    exact Nat.not_lt.mpr (le_length_of_isValid (announced?_lead hn) h) hfew
  | stray hb rest =>
    rw [isValid.eq_def]
    simp only [(announced?_eq_none_iff _).mpr hb]

theorem isValid_flatMap_append (characters : List Char) (rest : Bytes) :
    isValid (characters.flatMap String.utf8EncodeChar ++ rest) = isValid rest := by
  induction characters with
  | nil => rfl
  | cons c characters ih =>
    rw [List.flatMap_cons, List.append_assoc, isValid_utf8EncodeChar_append, ih]

/-- Behind some whole characters a text ends or goes on with a malformed sequence. -/
theorem exists_characters (text : Bytes) :
    ∃ (characters : List Char) (rest : Bytes),
      text = characters.flatMap String.utf8EncodeChar ++ rest ∧ (rest = [] ∨ Malformed rest) := by
  match text with
  | [] => exact ⟨[], [], rfl, .inl rfl⟩
  | a :: more =>
    rcases sequence_or_malformed a more with ⟨size, n, rest, hn, heq⟩ | hmalformed
    · rcases encoded_or_malformed hn rest with ⟨c, hc⟩ | hmalformed
      · have hshort : rest.length < (a :: more).length := by
          rw [heq, sequence, List.cons_append, List.length_cons, List.length_append]
          omega
        obtain ⟨characters, last, hrest, hlast⟩ := exists_characters rest
        refine ⟨c :: characters, last, ?_, hlast⟩
        rw [heq, List.flatMap_cons, hc, List.append_assoc, ← hrest]
      · exact ⟨[], _, rfl, .inr (heq ▸ hmalformed)⟩
    · exact ⟨[], _, rfl, .inr hmalformed⟩
termination_by text.length
decreasing_by exact hshort

theorem isValid_iff_exists (text : Bytes) : isValid text = true ↔
    ∃ characters : List Char, characters.flatMap String.utf8EncodeChar = text := by
  constructor
  · intro h
    obtain ⟨characters, rest, rfl, rfl | hmalformed⟩ := exists_characters text
    · exact ⟨characters, (List.append_nil _).symm⟩
    · rw [isValid_flatMap_append, isValid_of_malformed hmalformed] at h
      cases h
  · rintro ⟨characters, rfl⟩
    rw [← List.append_nil (characters.flatMap _), isValid_flatMap_append]
    rfl

/-- Behind an accepted text the validator goes on as at the start. -/
theorem isValid_append {front : Bytes} (h : isValid front = true) (rest : Bytes) :
    isValid (front ++ rest) = isValid rest := by
  obtain ⟨characters, rfl⟩ := (isValid_iff_exists front).mp h
  exact isValid_flatMap_append characters rest

theorem flatMap_utf8EncodeChar_injective {characters others : List Char}
    (h : characters.flatMap String.utf8EncodeChar = others.flatMap String.utf8EncodeChar) :
    characters = others := by
  have hencode : characters.utf8Encode = others.utf8Encode := congrArg List.toByteArray h
  have hdecode := congrArg ByteArray.utf8Decode? hencode
  rw [List.utf8Decode?_utf8Encode, List.utf8Decode?_utf8Encode, Option.some.injEq] at hdecode
  exact List.toArray_inj hdecode

/-- A text is accepted exactly if it is the concatenation of the encodings of the characters of a
list, and then of one list only.  It is refused exactly if behind whole characters it goes on with a
malformed sequence. -/
theorem isValid_iff_encoded (text : Bytes) :
    (isValid text = true ↔
      ∃! characters : List Char, characters.flatMap String.utf8EncodeChar = text) ∧
    (isValid text = false ↔
      ∃ front rest, text = front ++ rest ∧ isValid front = true ∧ Malformed rest) := by
  refine ⟨⟨fun h ↦ ?_, fun h ↦ (isValid_iff_exists text).mpr h.exists⟩, fun h ↦ ?_, ?_⟩
  · obtain ⟨characters, hcharacters⟩ := (isValid_iff_exists text).mp h
    exact ⟨characters, hcharacters, fun others hothers ↦
      flatMap_utf8EncodeChar_injective (hothers.trans hcharacters.symm)⟩
  · obtain ⟨characters, rest, rfl, rfl | hmalformed⟩ := exists_characters text
    · rw [List.append_nil, (isValid_iff_exists _).mpr ⟨characters, rfl⟩] at h
      cases h
    · exact ⟨_, rest, rfl, (isValid_iff_exists _).mpr ⟨characters, rfl⟩, hmalformed⟩
  · rintro ⟨front, rest, rfl, hfront, hmalformed⟩
    rw [isValid_append hfront, isValid_of_malformed hmalformed]

end Conduit.Text.Unicode
