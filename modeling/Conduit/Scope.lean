import Conduit.Bytes

/-!
# Scopes

A scope binds names to variables.  Variables are objects with an identity of their own, so two
scopes can share one.  Binding a name again replaces its binding; nothing unbinds a name.
-/

namespace Conduit

/-- The identity of a variable. -/
abbrev VariableId := Nat

/-- A scope: each bound name with its variable, in the order of the first binding. -/
structure Scope where
  bindings : List (Bytes × VariableId) := []
  deriving DecidableEq, Repr, Inhabited

namespace Scope

/-- The variable that a name is bound to. -/
def lookup (scope : Scope) (name : Bytes) : Option VariableId := scope.bindings.lookup name

/-- Bindings with one name bound to a variable. -/
def bind (name : Bytes) (id : VariableId) : List (Bytes × VariableId) → List (Bytes × VariableId)
  | [] => [(name, id)]
  | entry :: others =>
    if entry.1 = name then (name, id) :: others else entry :: bind name id others

/-- The scope with a name bound to a variable. -/
def define (scope : Scope) (name : Bytes) (id : VariableId) : Scope :=
  ⟨bind name id scope.bindings⟩

/-- The bound names. -/
def names (scope : Scope) : List Bytes := scope.bindings.map (·.1)

/-- Whether a name is bound. -/
def contains (scope : Scope) (name : Bytes) : Bool := (scope.lookup name).isSome

/-- The bindings of an outer scope overridden by those of an inner one. -/
def merge (outer inner : Scope) : Scope :=
  inner.bindings.foldl (fun scope (name, id) => scope.define name id) outer

end Scope

end Conduit
