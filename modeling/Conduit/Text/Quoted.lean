import Conduit.Bytes

/-!
# Quoted Text

A text is written as it stands when it is a bareword, that is a nonempty sequence of bytes from a
fixed class; any other text is put between single quotes, with every single quote inside it
written twice.
-/

namespace Conduit.Text.Quoted

/-- The single quote. -/
def tick : UInt8 := 0x27

/-- An ASCII letter or digit. -/
def isAlphanumeric (b : UInt8) : Bool :=
  (0x30 ≤ b && b ≤ 0x39) || (0x41 ≤ b && b ≤ 0x5A) || (0x61 ≤ b && b ≤ 0x7A)

/-- A byte that may stand outside quotes: one that is not ASCII, a letter, a digit, or one of
`-_./:~%+,@`. -/
def isBare (b : UInt8) : Bool :=
  0x80 ≤ b || isAlphanumeric b ||
    [0x2D, 0x5F, 0x2E, 0x2F, 0x3A, 0x7E, 0x25, 0x2B, 0x2C, 0x40].contains b

/-- A text that needs no quotes. -/
def isBareword (text : Bytes) : Bool := !text.isEmpty && text.all isBare

/-- The text with every single quote doubled. -/
def double : Bytes → Bytes
  | [] => []
  | b :: rest => if b = tick then tick :: tick :: double rest else b :: double rest

/-- The written form of a text. -/
def quote (text : Bytes) : Bytes :=
  if isBareword text then text else tick :: (double text ++ [tick])

end Conduit.Text.Quoted
