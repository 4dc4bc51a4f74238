import Conduit.Error.Report

/-!
# Reports in Machine Words

The numbers of a report as they are reckoned in words of a fixed size.  Ends of spans, lines, columns
and the number of carets are signed words of 32 bits; offsets into a text and lengths are unsigned
words of 64 bits.  Arithmetic wraps around, and a number that goes from one kind of word to the other
keeps its value up to a multiple of the new word's range.
-/

namespace Conduit.Error

/-- An offset as a signed word. -/
def narrow (n : UInt64) : Int32 := Int32.ofInt n.toNat

/-- A signed word as an offset. -/
def widen (n : Int32) : UInt64 := UInt64.ofInt n.toInt

/-- A signed word moved into the interval from `low` to `high`. -/
def clampWord (n low high : Int32) : Int32 :=
  if n < low then low else if high < n then high else n

/-- How far a text has been searched for newlines: the offset reached, the number of the line there and
where that line starts. -/
structure Scan where
  offset : Int32 := 0
  line : Int32 := 1
  lineStart : UInt64 := 0
  deriving DecidableEq, Repr

/-- The search goes on by one byte. -/
def Scan.next (s : Scan) (b : UInt8) : Scan :=
  if b = Bytes.newline then
    { offset := s.offset + 1, line := s.line + 1, lineStart := widen (s.offset + 1) }
  else { s with offset := s.offset + 1 }

/-- The numbers of a report. -/
structure Reckoning where
  first : Int32
  last : Int32
  line : Int32
  column : Int32
  lineStart : UInt64
  lineStop : UInt64
  lineLength : UInt64
  indent : UInt64
  room : Int32
  carets : Int32
  deriving DecidableEq, Repr

/-- Where the line ends that starts at an offset: at the next newline, or with the text. -/
def lineStopAfter (text : Bytes) (lineStart : UInt64) : UInt64 :=
  lineStart +
    UInt64.ofNat ((text.drop lineStart.toNat).takeWhile (· ≠ Bytes.newline)).length

/-- The numbers of a report, from the ends of the span, moved into the text, and the line. -/
def reckonOn (first last : Int32) (scan : Scan) (lineStop : UInt64) : Reckoning :=
  let room := (if narrow lineStop < last then narrow lineStop else last) - first
  { first, last, lineStop, room
    line := scan.line
    column := first - narrow scan.lineStart + 1
    lineStart := scan.lineStart
    lineLength := lineStop - scan.lineStart
    indent := widen first - scan.lineStart
    carets := if 1 < room then room else 1 }

/-- The numbers of the report of a span in a text. -/
def reckon (start stop : Int32) (text : Bytes) : Reckoning :=
  let size := narrow (UInt64.ofNat text.length)
  let first := clampWord start 0 size
  let last := clampWord stop first size
  let scan := (text.take first.toInt.toNat).foldl Scan.next {}
  reckonOn first last scan (lineStopAfter text scan.lineStart)

/-- The report that is written with reckoned numbers. -/
def Reckoning.write (r : Reckoning) (message name text : Bytes) : Bytes :=
  name ++ utf8 ":" ++ Bytes.ofInt r.line.toInt ++ utf8 ":" ++ Bytes.ofInt r.column.toInt ++
    utf8 ": " ++ message ++
    utf8 "\n  " ++ (text.drop r.lineStart.toNat).take r.lineLength.toNat ++
    utf8 "\n  " ++ (List.replicate r.indent.toNat Bytes.space ++
      List.replicate (widen r.carets).toNat 0x5E)

end Conduit.Error
