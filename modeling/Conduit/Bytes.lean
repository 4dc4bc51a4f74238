/-!
# Byte Strings

Every text that the shell reads, stores or prints is a finite sequence of bytes.  No encoding is
assumed: a file may hold arbitrary bytes and a name may hold any byte but the separators that the
operations below mention.  This module fixes the type, the decimal numerals and the few ways of
cutting a byte string that the other modules share.
-/

namespace Conduit

/-- A byte string. -/
abbrev Bytes := List UInt8

/-- The bytes of a literal in UTF-8. -/
def utf8 (literal : String) : Bytes := literal.toUTF8.data.toList

namespace Bytes

/-- The newline byte. -/
def newline : UInt8 := 0x0A

/-- The space byte. -/
def space : UInt8 := 0x20

/-- The colon byte. -/
def colon : UInt8 := 0x3A

/-- The slash byte. -/
def slash : UInt8 := 0x2F

/-- The equality sign. -/
def equals : UInt8 := 0x3D

/-- The decimal numeral of a natural number. -/
def ofNat (n : Nat) : Bytes :=
  (Nat.toDigits 10 n).map fun digit => digit.toNat.toUInt8

/-- The decimal numeral of an integer, with a minus sign in front of a negative one. -/
def ofInt : Int → Bytes
  | .ofNat n => ofNat n
  | .negSucc n => 0x2D :: ofNat (n + 1)

/-- The two sides of the first occurrence of a byte, if there is one. -/
def cut? (mark : UInt8) : Bytes → Option (Bytes × Bytes)
  | [] => none
  | b :: rest =>
    if b = mark then some ([], rest)
    else (cut? mark rest).map fun (before, after) => (b :: before, after)

/-- All maximal pieces between occurrences of a byte, empty ones included. -/
def pieces (mark : UInt8) : Bytes → List Bytes
  | [] => [[]]
  | b :: rest =>
    if b = mark then [] :: pieces mark rest
    else
      match pieces mark rest with
      | [] => [[b]]
      | piece :: others => (b :: piece) :: others

/-- The lines of a text.  A final newline ends the last line and starts no other. -/
def lines (text : Bytes) : List Bytes :=
  match (pieces newline text).reverse with
  | [] :: earlier => earlier.reverse
  | all => all.reverse

/-- The parts joined with a separator between neighbours. -/
def join (separator : Bytes) : List Bytes → Bytes
  | [] => []
  | [part] => part
  | part :: others => part ++ separator ++ join separator others

/-- What an interface that ends its texts with a zero byte sees of a byte string. -/
def untilZero (text : Bytes) : Bytes := text.takeWhile (· ≠ 0)

/-- Lexicographic comparison of byte strings. -/
def le : Bytes → Bytes → Bool
  | [], _ => true
  | _ :: _, [] => false
  | a :: s, b :: t => a < b || (a = b && le s t)

end Bytes

end Conduit
