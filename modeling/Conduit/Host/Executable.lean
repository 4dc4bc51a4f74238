import Conduit.Host.FileTree

/-!
# Finding Executables

A command with a slash in it names a file; any other command is looked for in a list of directories,
and the first executable regular file found is taken.  Empty directories are passed over.
-/

namespace Conduit.Host.FileTree

/-- The path under which a directory would have a command. -/
def inside (directory command : Bytes) : Bytes := directory ++ Bytes.slash :: command

/-- The path of the executable that a command names. -/
def findExecutable (tree : FileTree) (current : Path) (command : Bytes) (directories : List Bytes) :
    Option Bytes :=
  if command.isEmpty then none
  else if command.contains Bytes.slash then
    if tree.isExecutable current command then some command else none
  else
    ((directories.filter fun directory => !directory.isEmpty).map (inside · command)).find?
      (tree.isExecutable current)

end Conduit.Host.FileTree
