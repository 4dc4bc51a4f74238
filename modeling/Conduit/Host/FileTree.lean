import Conduit.Bytes
import Conduit.Host.Errno
import Conduit.Table

/-!
# The File Tree

Directories, regular files and the null device, found by path.  A path is followed one component
at a time, and every component but the last must lead to a directory.  Opening for writing creates
a missing file; nothing is ever removed or renamed.  Permissions and links are not modelled, except
that a regular file may be marked executable.
-/

namespace Conduit.Host

/-- An absolute path as its components. -/
abbrev Path := List Bytes

/-- An object in the file tree. -/
inductive Node where
  | directory
  | file (content : Bytes) (executable : Bool)
  | null
  deriving DecidableEq, Repr

/-- The identity of an object in the file tree. -/
abbrev NodeId := Nat

/-- The objects of the host and the paths under which they are found.  An object without a path is
an anonymous file. -/
structure FileTree where
  nodes : Table Node
  entries : List (Path × NodeId)
  deriving Inhabited

/-- How a file is opened. -/
inductive OpenMode where
  | read
  | write
  | append
  | readWrite
  deriving DecidableEq, Repr

/-- Whether an open mode creates a missing file, which is also whether it asks for writing. -/
def OpenMode.creates : OpenMode → Bool
  | .read => false
  | _ => true

/-- The longest name of a directory entry. -/
def nameLimit : Nat := 255

/-- A path text is shorter than this number of bytes. -/
def pathLimit : Nat := 4096

/-- The text of an absolute path. -/
def Path.text (path : Path) : Bytes :=
  if path.isEmpty then [Bytes.slash] else path.flatMap fun name => Bytes.slash :: name

namespace FileTree

/-- The root directory alone. -/
def root : FileTree := ⟨⟨[.directory]⟩, [([], 0)]⟩

/-- The object at a path. -/
def find? (tree : FileTree) (path : Path) : Option NodeId := tree.entries.lookup path

/-- The object with an identity. -/
def node? (tree : FileTree) (id : NodeId) : Option Node := tree.nodes.get? id

/-- Whether a directory is found at a path. -/
def isDirectory (tree : FileTree) (path : Path) : Bool :=
  (tree.find? path).any fun id => tree.node? id == some .directory

/-- The tree with an object added at a path. -/
def add (tree : FileTree) (path : Path) (node : Node) : FileTree :=
  ⟨tree.nodes.push node, tree.entries ++ [(path, tree.nodes.size)]⟩

/-- The tree with a directory at a path and above it. -/
def addDirectories (tree : FileTree) (path : Path) : FileTree :=
  (List.range (path.length + 1)).foldl
    (fun tree n =>
      if (tree.find? (path.take n)).isSome then tree else tree.add (path.take n) .directory)
    tree

/-- The tree with an anonymous file. -/
def addAnonymous (tree : FileTree) (content : Bytes) : FileTree :=
  ⟨tree.nodes.push (.file content false), tree.entries⟩

/-! ## Following paths -/

/-- Where one component leads from a path: to a path at which nothing need be found. -/
def step (tree : FileTree) (here : Path) (name : Bytes) : Except Errno Path :=
  if !tree.isDirectory here then .error .notDirectory
  else if name = utf8 "." then .ok here
  else if name = utf8 ".." then .ok here.dropLast
  else if nameLimit < name.length then .error .nameTooLong
  else .ok (here ++ [name])

/-- Where one component leads from a path, if anything is found there. -/
def enter (tree : FileTree) (here : Path) (name : Bytes) : Except Errno Path := do
  let there ← tree.step here name
  if (tree.find? there).isSome then .ok there else .error .noSuchEntry

/-- A path text taken apart. -/
structure Route where
  absolute : Bool
  names : List Bytes
  toDirectory : Bool

/-- The route that a path text describes.  An empty text and an overlong one describe none. -/
def route (text : Bytes) : Except Errno Route :=
  let text := Bytes.untilZero text
  if text.isEmpty then .error .noSuchEntry
  else if pathLimit ≤ text.length then .error .nameTooLong
  else .ok {
    absolute := text.head? == some Bytes.slash
    names := (Bytes.pieces Bytes.slash text).filter fun name => !name.isEmpty
    toDirectory := text.getLast? == some Bytes.slash }

/-- Where all components of a route but the last lead; they must be found. -/
def leadUp (tree : FileTree) (current : Path) (r : Route) : Except Errno Path :=
  r.names.dropLast.foldlM tree.enter (if r.absolute then [] else current)

/-- Where a route ends, at which nothing need be found. -/
def follow (tree : FileTree) (current : Path) (r : Route) : Except Errno Path := do
  let parent ← tree.leadUp current r
  match r.names.getLast? with
  | none => .ok parent
  | some last => tree.step parent last

/-- The object that a path text names, seen from a current directory. -/
def resolve (tree : FileTree) (current : Path) (text : Bytes) : Except Errno (Path × NodeId) := do
  let r ← route text
  let path ← tree.follow current r
  match tree.find? path with
  | none => .error .noSuchEntry
  | some id => if r.toDirectory && !tree.isDirectory path then .error .notDirectory else .ok (path, id)

/-! ## Operations -/

/-- The tree with the content of a regular file replaced. -/
def setContent (tree : FileTree) (id : NodeId) (content : Bytes) : FileTree :=
  { tree with nodes := tree.nodes.modify id fun
      | .file _ executable => .file content executable
      | other => other }

/-- Opens the object that a path text names, creating or truncating a file as the mode asks.  A path
text with a slash at its end never creates or truncates anything. -/
def openFile (tree : FileTree) (current : Path) (mode : OpenMode) (text : Bytes) :
    Except Errno (FileTree × NodeId) := do
  let r ← route text
  if mode.creates && r.toDirectory then
    let parent ← tree.leadUp current r
    .error (if tree.isDirectory parent then .isDirectory else .notDirectory)
  else
    let path ← tree.follow current r
    match tree.find? path with
    | none =>
      if mode.creates then .ok (tree.add path (.file [] false), tree.nodes.size)
      else .error .noSuchEntry
    | some id =>
      match tree.node? id with
      | some .directory => if mode.creates then .error .isDirectory else .ok (tree, id)
      | _ =>
        if r.toDirectory then .error .notDirectory
        else .ok (if mode = .write then tree.setContent id [] else tree, id)

/-- The current directory after changing to the one that a path text names. -/
def changeDirectory (tree : FileTree) (current : Path) (text : Bytes) : Except Errno Path := do
  let (path, _) ← tree.resolve current text
  if tree.isDirectory path then .ok path else .error .notDirectory

/-- Whether a path text names an executable regular file. -/
def isExecutable (tree : FileTree) (current : Path) (text : Bytes) : Bool :=
  match tree.resolve current text with
  | .ok (_, id) =>
    match tree.node? id with
    | some (.file _ executable) => executable
    | _ => false
  | .error _ => false

/-- Everything that can be read from an object: a directory and the null device yield nothing. -/
def content (tree : FileTree) (id : NodeId) : Bytes :=
  match tree.node? id with
  | some (.file content _) => content
  | _ => []

end FileTree

end Conduit.Host
