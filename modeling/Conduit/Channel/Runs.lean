import Conduit.Channel.Callers

/-!
# Runs of Calls

Any number of calls share a channel, and each of them goes on in atomic steps: it enters, and is
answered or falls asleep; it wakes and looks again; a timed one gives up; a receive that never waits
is made; the channel is closed.  A run is any sequence of such steps, with the answers given on the
way.

A sleeper is marked when it has been told to look again, but nothing here relies on waiting for the
mark: a sleeper may also wake without one.  Which unmarked sleeper a completed call marks is open in
every step, as long as it is one of those that there are.
-/

namespace Conduit.Channel

variable {α : Type}

/-- A choice that picks one of the sleepers it is given, if there are any, and nothing otherwise. -/
structure Choice.Picks (choose : Choice α) : Prop where
  nil : choose [] = none
  mem : ∀ sleepers, sleepers ≠ [] → ∃ sleeper ∈ sleepers, choose sleepers = some sleeper.id

theorem Choice.first_picks : (Choice.first : Choice α).Picks where
  nil := rfl
  mem sleepers h := by
    cases sleepers with
    | nil => exact absurd rfl h
    | cons sleeper rest => exact ⟨sleeper, List.mem_cons_self, rfl⟩

/-- An answer that was given: to a call that may wait, or to a receive that never does. -/
inductive Answer (α : Type) where
  | answered (call : Call α) (reply : Reply α)
  | tried (reply : Reply α)
  deriving DecidableEq, Repr

namespace Answer

/-- The value of a send that was accepted. -/
def accepted? : Answer α → Option α
  | .answered (.send v) (.sent true) => some v
  | _ => none

/-- The value that was handed out to a receive. -/
def handed? : Answer α → Option α
  | .answered _ (.received v) => v
  | .tried (.received v) => v
  | _ => none

/-- Whether it was a send that was answered. -/
def isSend : Answer α → Bool
  | .answered call _ => call.isSend
  | .tried _ => false

/-- What was answered. -/
def reply : Answer α → Reply α
  | .answered _ reply => reply
  | .tried reply => reply

@[simp] theorem accepted?_send (v : α) (accepted : Bool) :
    (answered (.send v) (.sent accepted)).accepted? = if accepted then some v else none := by
  cases accepted <;> rfl

@[simp] theorem handed?_sent (call : Call α) (accepted : Bool) :
    (answered call (.sent accepted)).handed? = none := by
  cases call <;> rfl

theorem accepted?_of_receive {answer : Answer α} (h : answer.isSend = false) :
    answer.accepted? = none := by
  cases answer with
  | answered call reply => cases call with
    | send v => cases h
    | _ => rfl
  | tried reply => rfl

theorem handed?_of_reply {answer : Answer α} {v : Option α} (h : answer.reply = .received v) :
    answer.handed? = v := by
  cases answer with
  | answered call reply =>
    cases h
    cases call <;> rfl
  | tried reply =>
    cases h
    rfl

end Answer

/-- The values of the sends that were accepted, in the order of the answers. -/
def accepted (answers : List (Answer α)) : List α := answers.filterMap Answer.accepted?

/-- The values that were handed out, in the order of the answers. -/
def handed (answers : List (Answer α)) : List α := answers.filterMap Answer.handed?

namespace Callers

/-- An identity that no sleeper has. -/
def Unused (s : Callers α) (id : Nat) : Prop := ∀ sleeper ∈ s.sleepers, sleeper.id ≠ id

instance (s : Callers α) (id : Nat) : Decidable (s.Unused id) :=
  inferInstanceAs (Decidable (∀ sleeper ∈ s.sleepers, sleeper.id ≠ id))

/-- One atomic step of some call, with the answer that it gives, if it gives one. -/
inductive Step (s : Callers α) : Option (Answer α) → Callers α → Prop
  | enter {choose : Choice α} (id : Nat) (call : Call α) : choose.Picks → s.Unused id →
      Step s ((enter choose s id call).2.map (.answered call)) (enter choose s id call).1
  | tryRecv {choose : Choice α} : choose.Picks →
      Step s (some (.tried (tryRecv choose s).2)) (tryRecv choose s).1
  | close : Step s none s.close
  | resume {choose : Choice α} (sleeper : Sleeper α) : choose.Picks → sleeper ∈ s.sleepers →
      Step s ((resume choose s sleeper).2.map (.answered sleeper.call)) (resume choose s sleeper).1
  | expire {choose : Choice α} (sleeper : Sleeper α) : choose.Picks → sleeper ∈ s.sleepers →
      sleeper.call = .recvFor →
        Step s (some (.answered .recvFor (expire choose s sleeper.id).2))
          (expire choose s sleeper.id).1

/-- Steps one after another, with the answers that they give. -/
inductive Run (s : Callers α) : List (Answer α) → Callers α → Prop
  | start : Run s [] s
  | step {answers : List (Answer α)} {s' s'' : Callers α} {answer : Option (Answer α)} :
      Run s answers s' → Step s' answer s'' → Run s (answers ++ answer.toList) s''

end Callers

end Conduit.Channel
