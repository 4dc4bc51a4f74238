import Conduit.Shell

/-!
# What a Shell Starts With

Starting a shell makes its variables and its two scopes, the files behind the standard descriptors
and the streams for these.  All the rest of the state is that of its host.
-/

namespace Conduit.Shell

/-- Binding names changes variables and scopes only, and makes no scope. -/
theorem foldl_bind_eq (scope : ScopeId) (entries : List (Bytes × Variable)) (w : World) :
    ∃ vars scopes, entries.foldl (bind scope) w = { w with vars, scopes } ∧
      scopes.size = w.scopes.size := by
  induction entries generalizing w with
  | nil => exact ⟨w.vars, w.scopes, rfl, rfl⟩
  | cons entry rest ih =>
    obtain ⟨vars, scopes, heq, hsize⟩ := ih (bind scope w entry)
    exact ⟨vars, scopes, heq, hsize.trans (Table.size_modify _ _ _)⟩

/-- The standard streams come after those of the host. -/
theorem standardStreams_eq (w : World) :
    ∃ files streams, standardStreams w = { w with files, streams } ∧
      streams.size = w.streams.size + 3 := by
  refine ⟨_, _, rfl, ?_⟩
  rw [Table.size_push, Table.size_push, Table.size_push]

theorem start_eq (w : World) :
    ∃ vars scopes files streams, start w = { w with vars, scopes, files, streams } ∧
      scopes.size = 2 ∧ streams.size = w.streams.size + 3 := by
  obtain ⟨vars, scopes, hbound, hscopes⟩ := foldl_bind_eq World.builtins
    (builtinVariables w.stub.isSome) { w with scopes := ⟨[{}, {}]⟩ }
  obtain ⟨files, streams, hstarted, hstreams⟩ := standardStreams_eq { w with vars, scopes }
  refine ⟨vars, scopes, files, streams, ?_, hscopes, hstreams⟩
  rw [start, hbound]
  exact hstarted

@[simp] theorem start_endpoints (w : World) : (start w).endpoints = w.endpoints := by
  obtain ⟨vars, scopes, files, streams, heq, -⟩ := start_eq w
  rw [heq]

@[simp] theorem start_journal (w : World) : (start w).journal = w.journal := by
  obtain ⟨vars, scopes, files, streams, heq, -⟩ := start_eq w
  rw [heq]

@[simp] theorem start_modules (w : World) : (start w).modules = w.modules := by
  obtain ⟨vars, scopes, files, streams, heq, -⟩ := start_eq w
  rw [heq]

@[simp] theorem start_environment (w : World) : (start w).environment = w.environment := by
  obtain ⟨vars, scopes, files, streams, heq, -⟩ := start_eq w
  rw [heq]

/-- There are the scope of the globals and that of the builtins. -/
@[simp] theorem size_start_scopes (w : World) : (start w).scopes.size = 2 := by
  obtain ⟨vars, scopes, files, streams, heq, hscopes, -⟩ := start_eq w
  rw [heq, hscopes]

@[simp] theorem size_start_streams (w : World) : (start w).streams.size = w.streams.size + 3 := by
  obtain ⟨vars, scopes, files, streams, heq, -, hstreams⟩ := start_eq w
  rw [heq, hstreams]

end Conduit.Shell
