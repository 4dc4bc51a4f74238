import Conduit.Host.Environment

/-!
# Host Programs

An executable file is a script for the host's command interpreter when its first line says so.  This
module reads the small language that such scripts are written in: commands on lines of their own or
behind semicolons, words with single and double quotes, and expansions of arguments and variables.
A command may send its output to the error stream, and the pattern for a script's own descriptors
stands for all of them.  It also holds the number syntax and the escape sequences of the
interpreter's own commands.
-/

namespace Conduit.Host.Program

/-- Part of a word: text that stands for itself, or text in which a dollar sign expands. -/
inductive Segment where
  | literal (text : Bytes)
  | expandable (text : Bytes)
  deriving DecidableEq, Repr

/-- A command: its words, where its output goes, and the line it stands on. -/
structure Command where
  line : Nat
  words : List (List Segment)
  toError : Bool := false
  deriving DecidableEq, Repr

/-! ## Reading scripts -/

/-- The quotes that a byte stands in. -/
inductive Quoting where
  | plain
  | single
  | double
  | comment
  deriving DecidableEq, Repr

/-- What has been read of a script. -/
structure Reader where
  quoting : Quoting := .plain
  segment : Bytes := []
  word : Option (List Segment) := none
  words : List (List Segment) := []
  toError : Bool := false
  line : Nat := 1
  commands : List Command := []

namespace Reader

/-- The reader inside a word, with the bytes of the current segment put away. -/
def closeSegment (r : Reader) (segment : Bytes → Segment) : Reader :=
  if r.segment.isEmpty then { r with word := some (r.word.getD []) }
  else { r with word := some (r.word.getD [] ++ [segment r.segment]), segment := [] }

/-- The reader after the end of a word.  The word `>&2` is a redirection. -/
def closeWord (r : Reader) : Reader :=
  match r.word, r.segment with
  | none, [] => r
  | _, _ =>
    let r := r.closeSegment .expandable
    if r.word = some [.expandable (utf8 ">&2")] then { r with word := none, toError := true }
    else { r with word := none, words := r.words ++ [r.word.getD []] }

/-- The reader after the end of a command. -/
def closeCommand (r : Reader) : Reader :=
  let r := r.closeWord
  if r.words.isEmpty then { r with toError := false }
  else
    { r with
      words := []
      toError := false
      commands := r.commands ++ [{ line := r.line, words := r.words, toError := r.toError }] }

/-- The reader after one more byte. -/
def step (r : Reader) (b : UInt8) : Reader :=
  match r.quoting with
  | .comment =>
    if b = Bytes.newline then { r with quoting := .plain, line := r.line + 1 } else r
  | .single =>
    if b = 0x27 then { r.closeSegment .literal with quoting := .plain }
    else { r with segment := r.segment ++ [b] }
  | .double =>
    if b = 0x22 then { r.closeSegment .expandable with quoting := .plain }
    else { r with segment := r.segment ++ [b] }
  | .plain =>
    if b = Bytes.newline then { r.closeCommand with line := r.line + 1 }
    else if b = 0x3B then r.closeCommand
    else if b = Bytes.space || b = 0x09 then r.closeWord
    else if b = 0x27 then { r.closeSegment .expandable with quoting := .single }
    else if b = 0x22 then { r.closeSegment .expandable with quoting := .double }
    else if b = 0x23 && r.word.isNone && r.segment.isEmpty then
      { r.closeCommand with quoting := .comment }
    else { r with segment := r.segment ++ [b] }

end Reader

/-- The commands of a script. -/
def commands (script : Bytes) : List Command :=
  ((script.foldl Reader.step {}).closeCommand).commands

/-! ## Expansion -/

/-- A running script: the path it was started under, its arguments, the descriptors it was started
with, its own variables and the environment. -/
structure Process where
  path : Bytes
  arguments : List Bytes
  descriptors : List Nat := []
  vars : List (Bytes × Bytes) := []
  environment : Environment

/-- A byte that can stand in the name of a variable. -/
def isNameByte (b : UInt8) : Bool :=
  (0x30 ≤ b && b ≤ 0x39) || (0x41 ≤ b && b ≤ 0x5A) || (0x61 ≤ b && b ≤ 0x7A) || b == 0x5F

/-- What follows the last slash of a path. -/
def baseName (path : Bytes) : Bytes := (path.reverse.takeWhile (· ≠ Bytes.slash)).reverse

/-- The value of a variable. -/
def Process.value (p : Process) (name : Bytes) : Bytes :=
  (p.vars.lookup name).getD (p.environment.get name)

/-- The number that a script knows itself by, in expansions and when it signals itself. -/
def ownProcess : Bytes := utf8 "1"

/-- Expands the dollar signs of a text, at most a given number of them. -/
def Process.expand (p : Process) : Nat → Bytes → Bytes
  | 0, text => text
  | _ + 1, [] => []
  | fuel + 1, 0x24 :: rest =>
    match Environment.after? (utf8 "\x7b0##*/\x7d") rest with
    | some rest => baseName p.path ++ p.expand fuel rest
    | none =>
      match rest with
      | 0x23 :: rest => Bytes.ofNat p.arguments.length ++ p.expand fuel rest
      | 0x2A :: rest => Bytes.join [Bytes.space] p.arguments ++ p.expand fuel rest
      | 0x40 :: rest => Bytes.join [Bytes.space] p.arguments ++ p.expand fuel rest
      | 0x24 :: rest => ownProcess ++ p.expand fuel rest
      | 0x30 :: rest => p.path ++ p.expand fuel rest
      | b :: rest =>
        if 0x31 ≤ b && b ≤ 0x39 then
          ((p.arguments[(b - 0x31).toNat]?).getD []) ++ p.expand fuel rest
        else if isNameByte b then
          p.value ((b :: rest).takeWhile isNameByte) ++
            p.expand fuel ((b :: rest).dropWhile isNameByte)
        else 0x24 :: b :: p.expand fuel rest
      | [] => [0x24]
  | fuel + 1, b :: rest => b :: p.expand fuel rest

/-- The text of one segment. -/
def Process.segment (p : Process) : Segment → Bytes
  | .literal text => text
  | .expandable text => p.expand text.length text

/-- The text of a word. -/
def Process.word (p : Process) (segments : List Segment) : Bytes := segments.flatMap p.segment

/-- The directory that lists the descriptors of the process which reads it. -/
def ownDescriptors : Bytes := utf8 "/proc/self/fd/"

/-- The descriptors that a script finds when it lists its own: those that it was started with, the
one that its interpreter reads it from, and the one opened for the listing. -/
def Process.listing (p : Process) : List Bytes :=
  let held := 10 :: p.descriptors
  let free := ((List.range held.length).find? fun d => !held.contains d).getD held.length
  ((free :: held).map fun d => ownDescriptors ++ Bytes.ofNat d).mergeSort Bytes.le

/-- The texts that a word stands for. -/
def Process.fields (p : Process) (segments : List Segment) : List Bytes :=
  if segments = [.expandable (ownDescriptors ++ utf8 "*")] then p.listing else [p.word segments]

/-! ## Escape sequences -/

/-- An octal digit. -/
def isOctal (b : UInt8) : Bool := 0x30 ≤ b && b ≤ 0x37

/-- The byte that octal digits denote. -/
def octal (digits : Bytes) : UInt8 := digits.foldl (fun n b => n * 8 + (b - 0x30)) 0

/-- The byte that one letter after a backslash stands for. -/
def escape? : UInt8 → Option UInt8
  | 0x61 => some 0x07
  | 0x62 => some 0x08
  | 0x65 => some 0x1B
  | 0x66 => some 0x0C
  | 0x6E => some 0x0A
  | 0x72 => some 0x0D
  | 0x74 => some 0x09
  | 0x76 => some 0x0B
  | 0x5C => some 0x5C
  | _ => none

/-- A text with its escape sequences replaced, and whether output stops there. -/
def unescape : Nat → Bytes → Bytes × Bool
  | 0, text => (text, false)
  | _ + 1, [] => ([], false)
  | fuel + 1, 0x5C :: rest =>
    match rest with
    | [] => ([0x5C], false)
    | 0x63 :: _ => ([], true)
    | b :: rest =>
      if isOctal b then
        let digits := if b = 0x30 then rest.take 3 else (b :: rest).take 3
        let digits := digits.takeWhile isOctal
        let left := if b = 0x30 then rest else b :: rest
        let (text, stops) := unescape fuel (left.drop digits.length)
        (octal digits :: text, stops)
      else
        let (text, stops) := unescape fuel rest
        match escape? b with
        | some c => (c :: text, stops)
        | none => (0x5C :: b :: text, stops)
  | fuel + 1, b :: rest =>
    let (text, stops) := unescape fuel rest
    (b :: text, stops)

/-- What printing words with single spaces between them writes.  A first word `-n` is not printed and
leaves out the newline. -/
def echo (words : List Bytes) : Bytes :=
  let bare := words.head? == some (utf8 "-n")
  let text := Bytes.join [Bytes.space] (if bare then words.tail else words)
  let (text, stops) := unescape text.length text
  if stops || bare then text else text ++ [Bytes.newline]

/-- What printing a format writes: escape sequences are replaced and `%s` takes an argument. -/
def format : Nat → List Bytes → Bytes → Bytes
  | 0, _, _ => []
  | _ + 1, _, [] => []
  | fuel + 1, arguments, 0x25 :: 0x73 :: rest =>
    arguments.headD [] ++ format fuel arguments.tail rest
  | fuel + 1, arguments, 0x25 :: 0x25 :: rest => 0x25 :: format fuel arguments rest
  | fuel + 1, arguments, b :: rest => b :: format fuel arguments rest

/-- What the format command writes. -/
def printf : List Bytes → Bytes
  | [] => []
  | text :: arguments =>
    let (text, _) := unescape text.length text
    format text.length arguments text

/-! ## Input lines -/

/-- A byte of blank space around fields. -/
def isBlank (b : UInt8) : Bool := b == 0x20 || b == 0x09 || b == 0x0A

/-- A line of input, read with or without a backslash before it: its bytes, each marked when it stood
behind a backslash, and the number of bytes taken.  A backslash joins the next line, and zero bytes
are passed over. -/
def inputLine : Bool → Bytes → List (UInt8 × Bool) × Nat
  | _, [] => ([], 0)
  | escaped, b :: rest =>
    if !escaped && b = Bytes.newline then ([], 1)
    else
      let (line, taken) := inputLine (if b = 0 then escaped else !escaped && b = 0x5C) rest
      if b = 0 || (escaped && b = Bytes.newline) || (!escaped && b = 0x5C) then (line, taken + 1)
      else ((b, escaped) :: line, taken + 1)

/-- A blank that did not stand behind a backslash. -/
def isEdge : UInt8 × Bool → Bool
  | (b, escaped) => !escaped && isBlank b

/-- The field that a line holds.  Unescaped blanks at its start are dropped, and at its end
everything from an unescaped blank on is, unless an unescaped byte that is no blank follows. -/
def field (line : List (UInt8 × Bool)) : Bytes :=
  let line := line.dropWhile isEdge
  let last := (line.reverse.takeWhile fun (b, escaped) => escaped || isBlank b).length
  let body := line.take (line.length - last)
  (body ++ (line.drop (line.length - last)).takeWhile fun mark => !isEdge mark).map (·.1)

/-! ## Numbers and signals -/

/-- A run of decimal digits as a number. -/
def decimal? (text : Bytes) : Option Nat :=
  if text.isEmpty || !text.all (fun b => 0x30 ≤ b && b ≤ 0x39) then none
  else some (text.foldl (fun n b => n * 10 + (b - 0x30).toNat) 0)

/-- The number that an exit code is written as, with blanks around it and a plus sign allowed. -/
def number? (text : Bytes) : Option Nat :=
  let isEdge := fun b : UInt8 => b == 0x20 || (0x09 ≤ b && b ≤ 0x0D)
  let text := ((text.dropWhile isEdge).reverse.dropWhile isEdge).reverse
  let text := match text with
    | 0x2B :: digits => digits
    | other => other
  (decimal? text).filter (· ≤ 2147483647)

/-- The names of signals, from the first one on.  Three of them have only their number. -/
def signalNames : List Bytes :=
  ["HUP", "INT", "QUIT", "ILL", "TRAP", "ABRT", "BUS", "FPE", "KILL", "USR1", "SEGV", "USR2",
    "PIPE", "ALRM", "TERM", "16", "CHLD", "CONT", "STOP", "TSTP", "TTIN", "TTOU", "URG", "XCPU",
    "XFSZ", "VTALRM", "PROF", "WINCH", "IO", "PWR", "SYS", "32", "33", "RTMIN"].map utf8 ++
  (List.range 15).map (fun n => utf8 "RTMIN+" ++ Bytes.ofNat (n + 1)) ++
  (List.range 14).map (fun n => utf8 "RTMAX-" ++ Bytes.ofNat (14 - n)) ++ [utf8 "RTMAX"]

/-- A letter in upper case. -/
def upper (b : UInt8) : UInt8 := if 0x61 ≤ b && b ≤ 0x7A then b - 0x20 else b

/-- The signal that a number or name denotes. -/
def signal? (text : Bytes) : Option Nat :=
  match decimal? text with
  | some n => if n < 65 then some n else none
  | none => (signalNames.idxOf? (text.map upper)).map (· + 1)

/-- The signals that do not end a process which has not asked for them. -/
def isHarmless (signal : Nat) : Bool := [0, 17, 18, 19, 20, 21, 22, 23, 28].contains signal

/-! ## The first line -/

/-- The interpreter that the first line of a script names. -/
def interpreter? : Bytes → Option Bytes
  | 0x23 :: 0x21 :: rest =>
    let isGap := fun b : UInt8 => b == 0x20 || b == 0x09
    let line := (rest.takeWhile (· ≠ Bytes.newline)).dropWhile isGap
    let name := line.takeWhile fun b => !isGap b
    if name.isEmpty then none else some name
  | _ => none

/-- The command interpreter of the host. -/
def interpreter : Bytes := utf8 "/bin/sh"

/-- How a program ends. -/
inductive Status where
  | exited (code : Nat)
  | killed (signal : Nat)
  deriving DecidableEq, Repr

end Conduit.Host.Program
