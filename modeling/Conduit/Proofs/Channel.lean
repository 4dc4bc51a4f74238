import Mathlib.Tactic.Common
import Conduit.Channel

/-!
# Operations on a Channel

When an operation on a channel can be completed, and what it leaves behind.
-/

namespace Conduit.Channel

variable {α : Type} {c c' : Channel α}

/-! ## Receiving -/

/-- A receive takes the first value, if there is one, and leaves the others. -/
theorem queue_of_recv? {v : Option α} (h : c.recv? = some (c', v)) :
    c'.closed = c.closed ∧ c.queue = v.toList ++ c'.queue := by
  unfold recv? at h
  split at h
  · unfold pop at h
    split at h <;> cases h <;> simp_all
  · cases h

theorem capacity_of_recv? {v : Option α} (h : c.recv? = some (c', v)) :
    c'.capacity = c.capacity := by
  unfold recv? at h
  split at h
  · unfold pop at h
    split at h <;> cases h <;> rfl
  · cases h

/-- Nothing is received only from a channel that is closed and drained. -/
theorem closed_of_recv?_none (h : c.recv? = some (c', none)) : c.closed = true ∧ c.queue = [] := by
  unfold recv? at h
  split at h
  · rename_i hready
    unfold pop at h
    split at h
    · rename_i hempty
      simpa [hempty] using hready
    · cases h
  · cases h

/-- A channel is ready for a receiver unless it is open and empty. -/
theorem recv?_eq_none_iff : c.recv? = none ↔ c.closed = false ∧ c.queue = [] := by
  unfold recv?
  cases c.closed <;> cases c.queue <;> simp

/-- A receive that never waits takes the first value, if there is one, and leaves the others. -/
theorem queue_of_pop (c : Channel α) : c.queue = c.pop.2.toList ++ c.pop.1.queue := by
  unfold pop
  split <;> simp_all

theorem pop_eq_none_iff : c.pop.2 = none ↔ c.queue = [] := by
  unfold pop
  split <;> simp_all

/-! ## Sending -/

/-- A channel is ready for a sender unless it is open and full. -/
theorem send?_eq_none_iff {v : α} :
    c.send? v = none ↔ c.closed = false ∧ c.capacity ≤ c.queue.length := by
  unfold send? hasRoom
  cases c.closed <;> simp

/-- What is sent on an open channel is accepted. -/
theorem send?_of_open {v : α} {accepted : Bool} (hopen : c.closed = false)
    (h : c.send? v = some (c', accepted)) : accepted = true ∧ c' = c.enqueue v := by
  unfold send? at h
  rw [hopen] at h
  split at h
  · cases ‹false = true›
  · split at h <;> cases h
    exact ⟨rfl, rfl⟩

end Conduit.Channel
