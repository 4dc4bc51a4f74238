import Conduit.Error
import Conduit.Host.FileTree
import Conduit.Text.Unicode

/-!
# Source Files

Source text is read from a file as a whole and must be valid UTF-8.  Invalid text is reported as an
error, yet what was read is kept.  A directory can be opened and yields no text.
-/

namespace Conduit

/-- What reading a source file gives: the text, if the file could be opened, and the error, if
there is one. -/
structure SourceRead where
  error : Option Error
  text : Option Bytes
  deriving DecidableEq, Repr

/-- Reads a source file. -/
def readSource (files : Host.FileTree) (current : Host.Path) (name : Bytes) : SourceRead :=
  match files.openFile current .read name with
  | .error reason =>
    { error := some ⟨.io, utf8 "open " ++ name ++ utf8 ": " ++ reason.text, none⟩
      text := none }
  | .ok (_, node) =>
    let text := files.content node
    if Text.Unicode.isValid text then { error := none, text := some text }
    else
      { error := some ⟨.generic, name ++ utf8 ": source is not valid UTF-8", none⟩
        text := some text }

end Conduit
