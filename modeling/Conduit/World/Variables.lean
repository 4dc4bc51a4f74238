import Conduit.Act
import Conduit.Text.PathList

/-!
# Reading and Writing Variables

A reference leads to a place: a bound variable, or a view of the environment, the store or an
external command that needs no binding.  Reading a place yields its value.  Writing checks that the
place accepts the value, and a refused value changes nothing.
-/

namespace Conduit

/-- Where a reference leads. -/
inductive Place where
  | bound (id : VariableId)
  | env (name : Bytes)
  | command (name : Bytes)
  | shared (name : Bytes)
  deriving DecidableEq, Repr

namespace World

/-- What stands at a place. -/
def variableAt (w : World) : Place → Variable
  | .bound id => (w.vars.get? id).getD default
  | .env name => .env name
  | .command name => .readOnly (.fn (.external name))
  | .shared name => .shared name

/-- The world with one more variable. -/
def newVariable (w : World) (v : Variable) : VariableId × World :=
  (w.vars.size, { w with vars := w.vars.push v })

/-- The world with one more scope. -/
def newScope (w : World) (scope : Scope) : ScopeId × World :=
  (w.scopes.size, { w with scopes := w.scopes.push scope })

/-- The world with a name bound in a scope. -/
def define (w : World) (scope : ScopeId) (name : Bytes) (id : VariableId) : World :=
  { w with scopes := w.scopes.modify scope fun s => s.define name id }

/-- The directories of the search path. -/
def searchPath (w : World) : List Bytes :=
  Text.PathList.split (w.environment.get (utf8 "PATH"))

/-- The value of a shared variable, when a store is attached and has it. -/
def shared? (w : World) (name : Bytes) : Option Bytes := w.store.bind fun store => store.lookup name

/-- Entries of a store with a key given a value. -/
def putShared (name value : Bytes) : List (Bytes × Bytes) → List (Bytes × Bytes)
  | [] => [(name, value)]
  | entry :: others =>
    if entry.1 = name then (name, value) :: others else entry :: putShared name value others

end World

namespace Variable

/-- The value that a variable has in a world. -/
def read (w : World) : Variable → Except Error Value
  | .plain _ value => .ok value
  | .readOnly value => .ok value
  | .env name => .ok (.text (w.environment.get name))
  | .shared name =>
    match w.shared? name with
    | some value => .ok (.text value)
    | none =>
      .error ⟨.generic, utf8 "shared variable " ++ name ++ utf8 " not found", none⟩
  | .paths => .ok (.list (w.searchPath.map .text))

/-- A value of another kind than a variable is held to. -/
def kindMismatch (value kept : Kind) : Error :=
  ⟨.type, utf8 "cannot assign " ++ value.name ++ utf8 " to a variable of type " ++ kept.name, none⟩

/-- The search path as written from list items, each of which must be a text without a colon. -/
def joinPaths : Bytes → List Value → Except Error Bytes
  | written, [] => .ok written
  | written, item :: others => do
    let directory ← item.toText (utf8 "path element")
    if directory.contains Bytes.colon then
      .error ⟨.type, utf8 "path element cannot contain ':'", none⟩
    else joinPaths (Text.PathList.extend written directory) others

/-- The text that a value gives the search path. -/
def pathsText : Value → Except Error Bytes
  | .text content => .ok content
  | .list items => joinPaths [] items
  | _ => .error ⟨.type, utf8 "paths must be a list of strings", none⟩

end Variable

namespace Act

/-- Sets an entry of the environment. -/
def setEnv (name value : Bytes) : Act Unit := fun w =>
  match w.environment.set? name value with
  | some environment => (.done (), { w with environment })
  | none =>
    (.raised ⟨.generic, utf8 "cannot set environment variable " ++ name, none⟩, w)

/-- The kind of a value.  Asking for the kind of the absent value does not end. -/
def kindOf (v : Value) : Act Kind := orHalt .absentValue v.kind?

/-- Reads a place. -/
def readPlace (place : Place) : Act Value := fun w =>
  ofExcept ((w.variableAt place).read w) w

/-- Gives a plain variable a value of the kind it is held to. -/
def writePlain (id : VariableId) (kept : Option Kind) (v : Value) : Act Unit := do
  let kind ← kindOf v
  match kept with
  | none => modify fun w => { w with vars := w.vars.modify id fun _ => .plain kind v }
  | some kept =>
    if kind = kept then
      modify fun w => { w with vars := w.vars.modify id fun _ => .plain kept v }
    else raise (Variable.kindMismatch kind kept)

/-- Writes a value to a place. -/
def writePlace (place : Place) (v : Value) : Act Unit := do
  match (← world).variableAt place, place with
  | .plain kept _, .bound id => writePlain id kept v
  | .plain _ _, _ => pure ()
  | .readOnly _, _ => raise ⟨.readOnly, utf8 "variable is read-only", none⟩
  | .env name, _ => do
    let value ← ofExcept (v.toText (utf8 "environment variable"))
    setEnv name value
  | .shared name, _ => do
    let value ← ofExcept (v.toText (utf8 "shared variable"))
    modify fun w => { w with store := w.store.map (World.putShared name value) }
  | .paths, _ => do
    let _ ← kindOf v
    let value ← ofExcept (Variable.pathsText v)
    setEnv (utf8 "PATH") value

/-- Writes values to places in order. -/
def writePlaces : List Place → List Value → Act Unit
  | place :: places, v :: values => do
    writePlace place v
    writePlaces places values
  | _, _ => pure ()

/-- Distributes values over fixed places, in order, and at most one rest place, which gets the list
of the values left over.  The number of values is checked before anything is written. -/
def distribute (fixed rest : List Place) (values : List Value) : Act Unit :=
  match rest with
  | [] =>
    if fixed.length ≠ values.length then raise .arityMismatch else writePlaces fixed values
  | [tail] =>
    if values.length < fixed.length then raise .arityMismatch
    else do
      writePlaces fixed values
      writePlace tail (.list (values.drop fixed.length))
  | _ => raise .moreThanOneRest

end Act

end Conduit
