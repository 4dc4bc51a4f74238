import Conduit.Bytes

/-!
# UTF-8

The validator accepts the concatenations of encodings of Unicode scalar values, one to four bytes
each, and refuses overlong forms, surrogates, values past U+10FFFF and truncated sequences.  The
width of a character is read off its first byte alone, which is also what cutting a title at a
character boundary uses; a byte that starts no sequence then counts as one character.
-/

namespace Conduit.Text.Unicode

/-- A byte of the form `10xxxxxx`. -/
def isContinuation (b : UInt8) : Bool := b &&& 0xC0 == 0x80

/-- The length of a sequence, as announced by its first byte. -/
def announced? (b : UInt8) : Option Nat :=
  if b < 0x80 then some 1
  else if b &&& 0xE0 == 0xC0 then some 2
  else if b &&& 0xF0 == 0xE0 then some 3
  else if b &&& 0xF8 == 0xF0 then some 4
  else none

/-- The six payload bits of a continuation byte. -/
def payload (b : UInt8) : Nat := (b &&& 0x3F).toNat

/-- The value of a two-byte sequence. -/
def value2 (a b : UInt8) : Nat := (a &&& 0x1F).toNat * 64 + payload b

/-- The value of a three-byte sequence. -/
def value3 (a b c : UInt8) : Nat :=
  ((a &&& 0x0F).toNat * 64 + payload b) * 64 + payload c

/-- The value of a four-byte sequence. -/
def value4 (a b c d : UInt8) : Nat :=
  (((a &&& 0x07).toNat * 64 + payload b) * 64 + payload c) * 64 + payload d

/-- A number that is a Unicode scalar value: at most U+10FFFF and no surrogate. -/
def isScalar (n : Nat) : Bool := n ≤ 0x10FFFF && !(0xD800 ≤ n && n ≤ 0xDFFF)

/-- Whether a byte string is a sequence of encoded scalar values. -/
def isValid : Bytes → Bool
  | [] => true
  | a :: rest =>
    match announced? a with
    | some 1 => isValid rest
    | some 2 =>
      match rest with
      | b :: rest => isContinuation b && 0x80 ≤ value2 a b && isValid rest
      | _ => false
    | some 3 =>
      match rest with
      | b :: c :: rest =>
        isContinuation b && isContinuation c && 0x800 ≤ value3 a b c &&
          isScalar (value3 a b c) && isValid rest
      | _ => false
    | some 4 =>
      match rest with
      | b :: c :: d :: rest =>
        isContinuation b && isContinuation c && isContinuation d &&
          0x10000 ≤ value4 a b c d && isScalar (value4 a b c d) && isValid rest
      | _ => false
    | _ => false

/-- The width of the character that a byte starts. -/
def width (b : UInt8) : Nat := (announced? b).getD 1

/-- The longest run of whole characters at the front of a text that fits into `room` bytes. -/
def wholeCharacters (room : Nat) : Bytes → Bytes
  | [] => []
  | b :: rest =>
    if width b ≤ room then
      (b :: rest.take (width b - 1)) ++
        wholeCharacters (room - width b) (rest.drop (width b - 1))
    else []
termination_by text => text.length
decreasing_by simp only [List.length_drop, List.length_cons]; omega

/-- A title is shorter than this number of bytes. -/
def titleLimit : Nat := 32

/-- The title of a text: the text itself when it is short enough, else as many whole characters of
it as stay below the limit. -/
def title (text : Bytes) : Bytes :=
  if text.length < titleLimit then text else wholeCharacters (titleLimit - 1) text

end Conduit.Text.Unicode
