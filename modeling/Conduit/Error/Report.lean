import Conduit.Error

/-!
# Error Reports

The report of an error names the source, the line and the column of the span's first byte, quotes
that line and puts carets under the part of the span that lies on it.  A span that leaves the text
is first moved into it, and an empty part is marked by one caret.
-/

namespace Conduit.Error

/-- A number moved into the interval from `low` to `high`. -/
def clamp (n low high : Int) : Int := if n < low then low else if high < n then high else n

/-- Where a span lies in a text: the byte offsets of its ends inside the text, its line and the
start of that line. -/
structure Place where
  first : Nat
  last : Nat
  line : Nat
  lineStart : Nat
  lineText : Bytes
  deriving DecidableEq, Repr

/-- The place of a span in a text. -/
def place (span : Span) (text : Bytes) : Place :=
  let first := clamp span.start 0 text.length
  let last := clamp span.stop first text.length
  let before := text.take first.toNat
  let lineStart := first.toNat - (before.reverse.takeWhile (· ≠ Bytes.newline)).length
  { first := first.toNat
    last := last.toNat
    line := 1 + before.count Bytes.newline
    lineStart := lineStart
    lineText := (text.drop lineStart).takeWhile (· ≠ Bytes.newline) }

/-- The column of a place, counted in bytes from one. -/
def Place.column (p : Place) : Nat := p.first - p.lineStart + 1

/-- The number of carets that mark a place. -/
def Place.carets (p : Place) : Nat :=
  max 1 (min p.last (p.lineStart + p.lineText.length) - p.first)

/-- The marker below the quoted line. -/
def Place.marker (p : Place) : Bytes :=
  List.replicate (p.first - p.lineStart) Bytes.space ++ List.replicate p.carets 0x5E

/-- The report of an error in a text of the given name. -/
def report (e : Error) (name text : Bytes) : Bytes :=
  match e.span with
  | none => name ++ utf8 ": " ++ e.message
  | some span =>
    let p := place span text
    name ++ utf8 ":" ++ Bytes.ofNat p.line ++ utf8 ":" ++ Bytes.ofNat p.column ++ utf8 ": " ++
      e.message ++ utf8 "\n  " ++ p.lineText ++ utf8 "\n  " ++ p.marker

end Conduit.Error
