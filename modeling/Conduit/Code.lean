import Conduit.Bytes
import Conduit.Error
import Conduit.Host.FileTree

/-!
# Code

What scripts are compiled to.  References are split into qualifier and name, assignment targets are
variables and redirections have natural destinations, so that evaluation has no malformed case left.
A pipeline is a list of forms; a block is a list of pipelines with the span that it was compiled
from.
-/

namespace Conduit

/-- A reference to a variable or command: its full text, and the two sides of the first colon in
it.  Without a colon the qualifier is empty. -/
structure Reference where
  full : Bytes
  qualifier : Bytes
  name : Bytes
  deriving DecidableEq, Repr

/-- The reference that a text denotes. -/
def Reference.ofText (text : Bytes) : Reference :=
  match Bytes.cut? Bytes.colon text with
  | some (qualifier, name) => ⟨text, qualifier, name⟩
  | none => ⟨text, [], text⟩

/-- The reference is not qualified. -/
def Reference.isPlain (r : Reference) : Bool := r.qualifier.isEmpty

/-- The reference is not qualified, or qualified by the innermost scope. -/
def Reference.isLocal (r : Reference) : Bool := r.qualifier.isEmpty || r.qualifier == utf8 "local"

/-- The mark in front of the name of a function. -/
def functionMark : UInt8 := 0x26

/-- The mark in front of a list to be spliced and of a rest target. -/
def restMark : UInt8 := 0x40

/-- A text without the rest mark, and whether it had one. -/
def splitRest : Bytes → Bool × Bytes
  | b :: text => if b = restMark then (true, text) else (false, b :: text)
  | [] => (false, [])

/-- A variable that an assignment writes, either one value or the rest of the values. -/
structure Target where
  span : Span
  rest : Bool
  reference : Reference
  deriving DecidableEq, Repr

namespace Code

mutual

/-- An expression, which yields a list of values. -/
inductive Expr where
  | text (text : Bytes)
  | variable (span : Span) (splice : Bool) (reference : Reference)
  | list (items : List Expr)
  | lambda (parameters : List Bytes) (body : Block)

/-- The head of a command: a name to be looked up, or an expression. -/
inductive Head where
  | named (reference : Reference)
  | computed (expr : Expr)

/-- A redirection of one endpoint. -/
inductive Redirection where
  | mk (span : Span) (destination : Nat) (mode : Host.OpenMode) (target : Expr)

/-- One form of a pipeline. -/
inductive Form where
  | command (span : Span) (head : Head) (arguments : List Expr) (redirections : List Redirection)
  | assignment (span : Span) (values : List Expr) (targets : List Target)

/-- Pipelines that run one after another. -/
inductive Block where
  | mk (span : Span) (pipelines : List (List Form))

end

/-- The span of a block. -/
def Block.span : Block → Span
  | .mk span _ => span

/-- The pipelines of a block. -/
def Block.pipelines : Block → List (List Form)
  | .mk _ pipelines => pipelines

/-- The span of a form. -/
def Form.span : Form → Span
  | .command span _ _ _ => span
  | .assignment span _ _ => span

end Code

end Conduit
