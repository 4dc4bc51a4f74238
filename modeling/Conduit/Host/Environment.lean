import Conduit.Bytes
import Conduit.Host.Errno

/-!
# The Process Environment

The environment is a list of entries `name=value`.  Names and values end at their first zero byte.
A name that is empty or holds an equality sign cannot be set.  Looking a name up compares it with
the front of each entry up to an equality sign, so a name that itself holds one can still be found.
-/

namespace Conduit.Host

/-- The entries of the environment, each name at most once. -/
structure Environment where
  entries : List (Bytes × Bytes)
  deriving DecidableEq, Repr, Inhabited

namespace Environment

/-- The text that follows `front` in a text that starts with it. -/
def after? : Bytes → Bytes → Option Bytes
  | [], text => some text
  | _ :: _, [] => none
  | a :: front, b :: text => if a = b then after? front text else none

/-- The value that one entry gives a name. -/
def valueIn? (name : Bytes) (entry : Bytes × Bytes) : Option Bytes :=
  after? (name ++ [Bytes.equals]) (entry.1 ++ Bytes.equals :: entry.2)

/-- The value of a name, if it is set. -/
def find? (env : Environment) (name : Bytes) : Option Bytes :=
  let name := Bytes.untilZero name
  if name.isEmpty then none else env.entries.findSome? (valueIn? name)

/-- The value of a name, empty when it is not set. -/
def get (env : Environment) (name : Bytes) : Bytes := (env.find? name).getD []

/-- The entries with one name given a value, in place if it was there and at the end if not. -/
def insert (name value : Bytes) : List (Bytes × Bytes) → List (Bytes × Bytes)
  | [] => [(name, value)]
  | entry :: others =>
    if entry.1 = name then (name, value) :: others else entry :: insert name value others

/-- The environment with a name set to a value, unless the name cannot be set. -/
def set? (env : Environment) (name value : Bytes) : Option Environment :=
  let name := Bytes.untilZero name
  if name.isEmpty || name.contains Bytes.equals then none
  else some ⟨insert name (Bytes.untilZero value) env.entries⟩

end Environment

end Conduit.Host
