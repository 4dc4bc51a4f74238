import Conduit.Bytes

/-!
# Errors

A script error has a kind, a message and, once some evaluation has claimed it, the span of source
text that it is blamed on.  It is shown in two ways: on one line, and as a report that quotes the
source line and marks the span below it.
-/

namespace Conduit

/-- The kinds of script errors. -/
inductive ErrorKind where
  | generic
  | readOnly
  | unsupported
  | storeUnconnected
  | moreThanOneRest
  | arityMismatch
  | type
  | load
  | interrupted
  | external
  | compile
  | io
  deriving DecidableEq, Repr

/-- The name of a kind. -/
def ErrorKind.name : ErrorKind → Bytes
  | .generic => utf8 "Generic"
  | .readOnly => utf8 "ReadOnly"
  | .unsupported => utf8 "Unsupported"
  | .storeUnconnected => utf8 "StoreUnconnected"
  | .moreThanOneRest => utf8 "MoreThanOneRest"
  | .arityMismatch => utf8 "ArityMismatch"
  | .type => utf8 "Type"
  | .load => utf8 "Load"
  | .interrupted => utf8 "Interrupted"
  | .external => utf8 "External"
  | .compile => utf8 "Compile"
  | .io => utf8 "IO"

/-- A half-open range of byte offsets.  Nothing forces the ends to be ordered or inside a text. -/
structure Span where
  start : Int
  stop : Int
  deriving DecidableEq, Repr, Inhabited

/-- A script error. -/
structure Error where
  kind : ErrorKind
  message : Bytes
  span : Option Span := none
  deriving DecidableEq, Repr

namespace Error

/-- An error of the plain kind that is blamed on a span. -/
def blaming (span : Span) (message : Bytes) : Error := ⟨.generic, message, some span⟩

/-- A call with the wrong number of arguments, or an assignment of the wrong number of values. -/
def arityMismatch : Error := ⟨.arityMismatch, utf8 "arity mismatch", none⟩

/-- An assignment with two rest targets. -/
def moreThanOneRest : Error := ⟨.moreThanOneRest, utf8 "more than one @ lvalue", none⟩

/-- A shared variable is named but no store is attached. -/
def storeUnconnected : Error := ⟨.storeUnconnected, utf8 "store unconnected", none⟩

/-- The error that ends an interrupted evaluation. -/
def interrupted : Error := ⟨.interrupted, utf8 "interrupted", none⟩

/-- The error blamed on a span, whatever it was blamed on before. -/
def withSpan (e : Error) (span : Span) : Error := { e with span := some span }

/-- The error blamed on a span unless it is blamed on one already. -/
def orSpan (e : Error) (span : Span) : Error :=
  match e.span with
  | some _ => e
  | none => e.withSpan span

/-- The error on one line: the ends of its span, if it has one, and the message. -/
def oneLine (e : Error) : Bytes :=
  match e.span with
  | none => e.message
  | some s => Bytes.ofInt s.start ++ utf8 "-" ++ Bytes.ofInt s.stop ++ utf8 ": " ++ e.message

end Error

end Conduit
