import Conduit.Bytes
import Conduit.Log

/-!
# Settings

The settings are read from lines of the form `key=value`.  Blank lines, lines that start with `#`,
lines without an equality sign and unknown keys are skipped; a later line for a key replaces an
earlier one.  Keys and values are taken as they stand, with no trimming.
-/

namespace Conduit

/-- The settings of a shell. -/
structure Settings where
  debug : Bool := false
  libraryDirectory : Bytes := []
  leader : Bytes := utf8 "▶ "
  channelSize : Nat := 32
  deriving DecidableEq, Repr

namespace Settings

/-- The values that switch a setting on. -/
def isTruthy (value : Bytes) : Bool :=
  value == utf8 "1" || value == utf8 "true" || value == utf8 "on"

/-! ## Sizes -/

/-- A blank byte in front of a numeral: space, tab, newline, vertical tab, form feed or carriage
return. -/
def isBlank (b : UInt8) : Bool := b == 0x20 || (0x09 ≤ b && b ≤ 0x0D)

/-- A decimal digit. -/
def isDigit (b : UInt8) : Bool := 0x30 ≤ b && b ≤ 0x39

/-- The number that a run of decimal digits denotes. -/
def numeral (digits : Bytes) : Nat := digits.foldl (fun n b => n * 10 + (b - 0x30).toNat) 0

/-- One more than the greatest size. -/
def sizeLimit : Nat := Nat.pow 2 64

/-- The sign of a numeral, true for minus, and what follows it. -/
def sign : Bytes → Bool × Bytes
  | 0x2D :: rest => (true, rest)
  | 0x2B :: rest => (false, rest)
  | rest => (false, rest)

/-- The size at the front of a value, behind blanks and one optional sign; what follows the digits
is ignored.  A negative size counts back from the size limit.  There is none without a digit, and
none when the digits denote a number beyond the limit. -/
def size? (value : Bytes) : Option Nat :=
  let (negative, rest) := sign (value.dropWhile isBlank)
  let digits := rest.takeWhile isDigit
  let n := numeral digits
  if digits.isEmpty || sizeLimit ≤ n then none
  else if negative then some ((sizeLimit - n) % sizeLimit)
  else some n

/-! ## Lines -/

/-- The settings after one key has been given a value. -/
def assign (settings : Settings) (key value : Bytes) : Settings :=
  if key = utf8 "debug" then { settings with debug := isTruthy value }
  else if key = utf8 "lib_dir" then { settings with libraryDirectory := value }
  else if key = utf8 "out_leader" then { settings with leader := value }
  else if key = utf8 "out_chan_size" then
    match size? value with
    | some n => { settings with channelSize := n }
    | none => settings
  else settings

/-- The key and the value of a line that has them. -/
def entry? : Bytes → Option (Bytes × Bytes)
  | 0x23 :: _ => none
  | line => Bytes.cut? Bytes.equals line

/-- The settings after one line. -/
def readLine (settings : Settings) (line : Bytes) : Settings :=
  match entry? line with
  | some (key, value) => settings.assign key value
  | none => settings

/-- The settings after the lines of a text. -/
def read (settings : Settings) (text : Bytes) : Settings :=
  (Bytes.lines text).foldl readLine settings

/-! ## Defaults -/

/-- The settings of a user with the given home directory, which is empty when there is none. -/
def ofHome (home : Bytes) : Settings :=
  if home.isEmpty then {} else { libraryDirectory := home ++ utf8 "/.stubsh/lib" }

/-- Where the settings of a user are kept, empty without a home directory. -/
def defaultFile (home : Bytes) : Bytes :=
  if home.isEmpty then [] else home ++ utf8 "/.stubshrc"

/-- The settings of a user, given the content of the settings file if it could be read. -/
def load (home : Bytes) (content : Option Bytes) : Settings :=
  (ofHome home).read (content.getD [])

/-- The log after settings have been loaded: debugging switches it on and nothing switches it
off. -/
def enableLog (settings : Settings) (log : Log) : Log :=
  { enabled := log.enabled || settings.debug }

end Settings

end Conduit
