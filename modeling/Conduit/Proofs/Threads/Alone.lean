import Mathlib.Data.List.Infix
import Mathlib.Tactic.Common
import Conduit.Eval.Threads

/-!
# Programs that Run Alone

What a program exchanges is fixed by its input and by how many of its values are accepted.  A limit on
the latter cuts the accepted values off and changes nothing before the first value that is refused.
On one input there is a bound on how much a regular program exchanges, whatever the limit.
-/

namespace Conduit.Threads

open Eval (StageResult)

variable {α : Type}

/-! ## What has been exchanged -/

theorem taken_append (h h' : List (Exchange α)) : taken (h ++ h') = taken h ++ taken h' :=
  List.filterMap_append

theorem accepted_append (h h' : List (Exchange α)) :
    accepted (h ++ h') = accepted h ++ accepted h' :=
  List.filterMap_append

@[simp]
theorem taken_received (v : Option α) : taken [.received v] = v.toList := by
  cases v <;> rfl

@[simp]
theorem taken_sent (v : α) (ok : Bool) : taken [.sent v ok] = [] := rfl

@[simp]
theorem accepted_received (v : Option α) : accepted [.received v] = [] := rfl

@[simp]
theorem accepted_sent (v : α) (ok : Bool) :
    accepted [.sent v ok] = if ok then [v] else [] := by
  cases ok <;> rfl

@[simp]
theorem admits_none (count : Nat) : admits none count = true := rfl

@[simp]
theorem admits_some (k count : Nat) : admits (some k) count = decide (count < k) := rfl

namespace Program

variable {p : Program α} {limit : Option Nat} {input : List α} {h g : List (Exchange α)}
  {r : StageResult}

/-! ## Determinism -/

theorem Reaches.of_concat {e : Exchange α} (hr : p.Reaches limit input (h ++ [e])) :
    p.Reaches limit input h ∧ reply? limit input h (p h) = some e := by
  generalize hg : h ++ [e] = g at hr
  cases hr with
  | start => simp at hg
  | step hr he =>
    obtain ⟨rfl, hlast⟩ := List.append_inj' hg rfl
    obtain rfl := List.singleton_inj.mp hlast
    exact ⟨hr, he⟩

/-- What was exchanged earlier can be exchanged as well. -/
theorem Reaches.of_append (hr : p.Reaches limit input (h ++ g)) : p.Reaches limit input h := by
  induction g using List.reverseRecOn with
  | nil => rwa [List.append_nil] at hr
  | append_singleton g e ih =>
    apply ih
    rw [← List.append_assoc] at hr
    exact hr.of_concat.1

/-- Nothing is exchanged after the end, so all that can be exchanged comes before it. -/
theorem Reaches.prefix_of_ends (hr : p.Reaches limit input h) (hg : p.Ends limit input g r) :
    h <+: g := by
  induction hr with
  | start => exact List.nil_prefix
  | @step h e hr he ih =>
    obtain ⟨rest, rfl⟩ := ih
    cases rest with
    | nil =>
      have hfinish : p h = .finish r := by
        have hend := hg.finish
        rwa [List.append_nil] at hend
      rw [hfinish] at he
      cases he
    | cons e' rest =>
      have hreach : p.Reaches limit input (h ++ [e'] ++ rest) := by
        rw [List.append_assoc]
        exact hg.reaches
      have hsame : some e' = some e := hreach.of_append.of_concat.2.symm.trans he
      obtain rfl := Option.some.inj hsame
      exact ⟨rest, by rw [List.append_assoc]; rfl⟩

theorem Ends.unique {r' : StageResult} (hh : p.Ends limit input h r)
    (hg : p.Ends limit input g r') : h = g :=
  (hh.reaches.prefix_of_ends hg).eq_of_length_le (hg.reaches.prefix_of_ends hh).length_le

/-! ## Limits -/

/-- A program that is never refused anything is not either under a limit that it does not pass. -/
theorem Reaches.limited {k : Nat} (hr : p.Reaches none input h) (hk : (accepted h).length ≤ k) :
    p.Reaches (some k) input h := by
  induction hr with
  | start => exact .start
  | @step h e hr he ih =>
    rw [accepted_append, List.length_append] at hk
    apply Reaches.step (ih (by omega))
    cases hmove : p h with
    | receive => rwa [hmove] at he
    | finish r => rw [hmove] at he; cases he
    | send v =>
      rw [hmove] at he
      obtain rfl : Exchange.sent v true = e := Option.some.inj he
      have hlt : (accepted h).length < k := by
        simp only [accepted_sent, if_true, List.length_singleton] at hk
        omega
      simp [reply?, hlt]

/-- Under a limit, a program either has not been refused anything yet, or it has reached the limit and
what was accepted is what it has sent without the limit. -/
theorem Reaches.unlimited {k : Nat} (hr : p.Reaches (some k) input h) :
    p.Reaches none input h ∨
      k ≤ (accepted h).length ∧ ∃ g, p.Reaches none input g ∧ accepted g = accepted h := by
  induction hr with
  | start => exact .inl .start
  | @step h e hr he ih =>
    rcases ih with hnone | ⟨hfull, g, hg, haccepted⟩
    · cases hmove : p h with
      | receive =>
        rw [hmove] at he
        left
        apply Reaches.step hnone
        rwa [hmove]
      | finish r => rw [hmove] at he; cases he
      | send v =>
        rw [hmove] at he
        obtain rfl : Exchange.sent v (decide ((accepted h).length < k)) = e := Option.some.inj he
        by_cases hlt : (accepted h).length < k
        · left
          apply Reaches.step hnone
          simp [hmove, reply?, hlt]
        · right
          have hsame : accepted (h ++ [.sent v (decide ((accepted h).length < k))]) =
              accepted h := by
            simp [accepted_append, hlt]
          rw [hsame]
          exact ⟨Nat.le_of_not_lt hlt, h, hnone, rfl⟩
    · right
      have hnothing : accepted [e] = [] := by
        cases hmove : p h with
        | receive =>
          rw [hmove] at he
          obtain rfl := Option.some.inj he
          rfl
        | finish r => rw [hmove] at he; cases he
        | send v =>
          rw [hmove] at he
          obtain rfl := Option.some.inj he
          simp [Nat.not_lt.mpr hfull]
      rw [accepted_append, hnothing, List.append_nil]
      exact ⟨hfull, g, hg, haccepted⟩

/-- Whatever the limit, what is accepted comes first in what is accepted without one. -/
theorem Reaches.accepted_prefix (hr : p.Reaches limit input h) (hg : p.Ends none input g r) :
    accepted h <+: accepted g := by
  have hprefix : ∀ h, p.Reaches none input h → accepted h <+: accepted g := by
    intro h hh
    obtain ⟨rest, rfl⟩ := hh.prefix_of_ends hg
    rw [accepted_append]
    exact List.prefix_append _ _
  cases limit with
  | none => exact hprefix h hr
  | some k =>
    rcases hr.unlimited with hnone | ⟨-, h', hh', haccepted⟩
    · exact hprefix h hnone
    · rw [← haccepted]
      exact hprefix h' hh'

/-! ## Bounds -/

/-- Up to some limit, there is a bound on how much a regular program exchanges. -/
theorem Regular.bounded_below (hp : p.Regular) (input : List α) (k : Nat) :
    ∃ bound, ∀ j < k, ∀ h, p.Reaches (some j) input h → h.length ≤ bound := by
  induction k with
  | zero => exact ⟨0, fun j hj ↦ absurd hj (Nat.not_lt_zero j)⟩
  | succ k ih =>
    obtain ⟨bound, hbound⟩ := ih
    obtain ⟨g, r, hg⟩ := hp.ends input (some k)
    refine ⟨max bound g.length, fun j hj h hh ↦ ?_⟩
    rcases Nat.lt_succ_iff_lt_or_eq.mp hj with hj | rfl
    · exact (hbound j hj h hh).trans (Nat.le_max_left _ _)
    · exact (hh.prefix_of_ends hg).length_le.trans (Nat.le_max_right _ _)

/-- There is a bound for all limits, since a limit that is never reached does not matter. -/
theorem Regular.bounded (hp : p.Regular) (input : List α) :
    ∃ bound, ∀ limit h, p.Reaches limit input h → h.length ≤ bound := by
  obtain ⟨g, r, hg⟩ := hp.ends input none
  obtain ⟨bound, hbound⟩ := hp.bounded_below input ((accepted g).length + 1)
  have hnone : ∀ h, p.Reaches none input h → h.length ≤ max bound g.length :=
    fun h hh ↦ (hh.prefix_of_ends hg).length_le.trans (Nat.le_max_right _ _)
  refine ⟨max bound g.length, fun limit h hh ↦ ?_⟩
  cases limit with
  | none => exact hnone h hh
  | some k =>
    by_cases hk : k < (accepted g).length + 1
    · exact (hbound k hk h hh).trans (Nat.le_max_left _ _)
    · rcases hh.unlimited with hh | ⟨hfull, -⟩
      · exact hnone h hh
      · have hle : (accepted h).length ≤ (accepted g).length :=
          (hh.accepted_prefix hg).length_le
        omega

end Program

end Conduit.Threads
