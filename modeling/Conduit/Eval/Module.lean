import Conduit.Code.OfScript
import Conduit.Error.Report
import Conduit.Eval.Pipeline
import Conduit.Source

/-!
# Loading Modules

A module is a source file in the library directory.  Loading reads, parses and compiles it against
the builtin names alone, and evaluates it with an empty scope as the innermost one, which becomes
the scope of the module.  The module is registered only after all of this has succeeded; every
failure is raised as an error that names the module and says why.
-/

namespace Conduit

/-- A parser of source text. -/
abbrev Parser := Bytes → Except Error Script.Chunk

/-- What a shell is set up with: its settings and, perhaps, a parser. -/
structure Setup where
  settings : Settings := {}
  parser : Option Parser := none

namespace Eval

/-- The error of a module that cannot be loaded. -/
def loadError (name why : Bytes) : Error :=
  ⟨.load, utf8 "cannot load module " ++ name ++ utf8 ": " ++ why, none⟩

/-- A name that no module can have. -/
def isBadModuleName (name : Bytes) : Bool :=
  name.isEmpty || name.contains Bytes.slash || name == utf8 ".."

/-- The file of a module. -/
def moduleFile (setup : Setup) (name : Bytes) : Bytes :=
  setup.settings.libraryDirectory ++ utf8 "/" ++ name ++ utf8 ".stsh"

/-- Parses a text, which is counted. -/
def parse (parser : Parser) (text : Bytes) : Act (Except Error Script.Chunk) := fun w =>
  (.done (parser text), { w with parses := w.parses + 1 })

/-- The parsed text of a module file. -/
def parseModule (setup : Setup) (name file : Bytes) : Act (Bytes × Script.Chunk) := do
  let w ← Act.world
  match readSource w.files w.directory file, setup.parser with
  | ⟨some e, _⟩, _ => Act.raise (loadError name e.message)
  | ⟨none, _⟩, none => Act.raise (loadError name (utf8 "no parser"))
  | ⟨none, text⟩, some parser => do
    let text := text.getD []
    match ← parse parser text with
    | .ok chunk => pure (text, chunk)
    | .error e => Act.raise (loadError name e.message)

/-- Evaluates the code of a module in a scope of its own, and yields the scope. -/
def runModule (go : Runner) (ctx : Context) (name file text : Bytes) (chunk : Script.Chunk)
    (code : Code.Block) : Act ScopeId := do
  let scope ← Act.change fun w => w.newScope {}
  let outer ← Act.change fun w => w.newScope {}
  let endpoints ← Act.change fun w => w.forkEndpoints ctx.endpoints
  let body : Context :=
    { name := file, text, label := utf8 "module " ++ name, scope, outer, endpoints, chunk }
  let error ←
    (Act.within ⟨0, text.length⟩ (Act.attempt (evalBlock go body code))).ensuring body.drop
  match error with
  | none => pure scope
  | some e => Act.raise (loadError name (e.report file text))

/-- The world with a module registered. -/
def register (name : Bytes) (scope : ScopeId) (w : World) : World :=
  { w with modules := (name, scope) :: w.modules.filter fun entry => entry.1 ≠ name }

/-- Reads, compiles and evaluates a module file, and registers the module. -/
def loadFile (setup : Setup) (go : Runner) (ctx : Context) (name : Bytes) : Act Unit := do
  let file := moduleFile setup name
  let (text, chunk) ← parseModule setup name file
  match Code.ofScript [] ((← Act.world).scope World.builtins).names chunk with
  | .error e => Act.raise (loadError name (e.report file text))
  | .ok code => do
    Act.modify (World.note (.bodyBegan name text))
    let scope ← runModule go ctx name file text chunk code
    Act.modify (register name scope)

/-- Loads a module. -/
def loadModule (setup : Setup) (go : Runner) (ctx : Context) (name : Bytes) : Act Unit := do
  if isBadModuleName name then Act.raise (loadError name (utf8 "bad module name"))
  else do
    Act.modify (World.note (.loadBegan name))
    (loadFile setup go ctx name).ensuring (World.note (.loadEnded name))

end Eval

end Conduit
