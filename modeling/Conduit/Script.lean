import Conduit.Bytes
import Conduit.Error
import Conduit.Host.FileTree

/-!
# Scripts

The tree that a parser hands over.  A chunk is a sequence of pipelines and a pipeline a sequence of
forms.  A form with targets is an assignment of its arguments to them; any other form is a command
with a head, arguments and redirections.  Every node carries its span in the source text.
-/

namespace Conduit.Script

mutual

/-- An operand.  The text of a variable is a name, perhaps behind a qualifier and a colon, and
perhaps behind an `@`, which splices a list or, in a target, takes the rest of the values. -/
inductive Primary where
  | bareword (span : Span) (text : Bytes)
  | quoted (span : Span) (text : Bytes)
  | variable (span : Span) (text : Bytes)
  | list (span : Span) (items : List Primary)
  | lambda (span : Span) (parameters : List Bytes) (body : Option Chunk)

/-- A redirection of one endpoint of a command. -/
inductive Redirection where
  | mk (span : Span) (destination : Int) (mode : Host.OpenMode) (target : Primary)

/-- An assignment, when it has targets, or a command. -/
inductive Form where
  | mk (span : Span) (targets : List Primary) (head : Primary) (arguments : List Primary)
    (redirections : List Redirection)

/-- Forms that run together, each feeding the next. -/
inductive Pipeline where
  | mk (span : Span) (forms : List Form)

/-- Pipelines that run one after another. -/
inductive Chunk where
  | mk (span : Span) (pipelines : List Pipeline)

end

instance : Inhabited Primary := ⟨.bareword ⟨0, 0⟩ []⟩
instance : Inhabited Redirection := ⟨.mk ⟨0, 0⟩ 1 .write default⟩
instance : Inhabited Form := ⟨.mk ⟨0, 0⟩ [] default [] []⟩
instance : Inhabited Pipeline := ⟨.mk ⟨0, 0⟩ []⟩
instance : Inhabited Chunk := ⟨.mk ⟨0, 0⟩ []⟩

/-- The span of an operand. -/
def Primary.span : Primary → Span
  | .bareword span _ | .quoted span _ | .variable span _ | .list span _ | .lambda span _ _ => span

/-- The span of a chunk. -/
def Chunk.span : Chunk → Span
  | .mk span _ => span

end Conduit.Script
