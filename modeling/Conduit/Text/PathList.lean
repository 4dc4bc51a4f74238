import Conduit.Bytes

/-!
# Lists of Directories

A search path is one text in which directories stand between colons.  Reading it drops the empty
pieces, and writing it puts a colon in front of a directory only when something has been written
already, so empty directories at the front leave no trace.
-/

namespace Conduit.Text.PathList

/-- The nonempty pieces between colons. -/
def split (text : Bytes) : List Bytes :=
  (Bytes.pieces Bytes.colon text).filter fun piece => !piece.isEmpty

/-- One more directory at the end of a written list. -/
def extend (written directory : Bytes) : Bytes :=
  if written.isEmpty then directory else written ++ Bytes.colon :: directory

/-- The written form of a list of directories. -/
def write (directories : List Bytes) : Bytes := directories.foldl extend []

end Conduit.Text.PathList
