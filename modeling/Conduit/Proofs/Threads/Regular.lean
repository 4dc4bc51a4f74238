import Conduit.Proofs.Threads.Alone

/-!
# Regular Programs

A program that always ends in the same way is regular if there is a bound on how much it exchanges on
each input.  This is shown of the programs of two builtins: `put`, which sends its arguments until one
of them is refused, and `count`, which sends how many values it has received.
-/

namespace Conduit.Threads

open Eval (StageResult)

variable {α : Type}

namespace Program

variable {p : Program α} {limit : Option Nat} {input : List α} {h : List (Exchange α)}

/-- Unless it ends, a program has exchanged any number of values at some time. -/
theorem reaches_of_not_ends (hends : ¬∃ h r, p.Ends limit input h r) (k : Nat) :
    ∃ h, p.Reaches limit input h ∧ h.length = k := by
  induction k with
  | zero => exact ⟨[], .start, rfl⟩
  | succ k ih =>
    obtain ⟨h, hreach, hlength⟩ := ih
    have hnext : ∃ e, reply? limit input h (p h) = some e := by
      cases hmove : p h with
      | receive => exact ⟨_, rfl⟩
      | send v => exact ⟨_, rfl⟩
      | finish r => exact absurd ⟨h, r, hreach, hmove⟩ hends
    obtain ⟨e, he⟩ := hnext
    refine ⟨h ++ [e], hreach.step he, ?_⟩
    rw [List.length_append, hlength, List.length_singleton]

theorem Regular.of_bounded {r : StageResult} (hresult : ∀ h r', p h = .finish r' → r' = r)
    (hbound : ∀ input limit, ∃ bound, ∀ h, p.Reaches limit input h → h.length ≤ bound) :
    p.Regular where
  ends input limit := by
    obtain ⟨bound, hbound⟩ := hbound input limit
    by_contra hends
    obtain ⟨h, hreach, hlength⟩ := reaches_of_not_ends hends (bound + 1)
    have hle := hbound h hreach
    omega
  heedless := by
    intro input limit h h' r₁ r₂ h₁ h₂
    rw [hresult h r₁ h₁.finish, hresult h' r₂ h₂.finish]

end Program

/-! ## Two builtins -/

/-- Whether a value was sent and not accepted. -/
def Exchange.isRefused : Exchange α → Bool
  | .sent _ ok => !ok
  | .received _ => false

/-- Sends values until one of them is refused. -/
def Program.put (values : List α) : Program α := fun h =>
  if h.any Exchange.isRefused then .finish .finished
  else
    match values[h.length]? with
    | some v => .send v
    | none => .finish .finished

/-- Receives all values and sends how many they are. -/
def Program.count (total : Nat → α) : Program α := fun h =>
  match h.getLast? with
  | some (.received none) => .send (total (taken h).length)
  | some (.sent _ _) => .finish .finished
  | _ => .receive

namespace Program

variable {limit : Option Nat} {input : List α} {h : List (Exchange α)}

theorem Reaches.put_length {values : List α} (hreach : (put values).Reaches limit input h) :
    h.length ≤ values.length := by
  cases hreach with
  | start => exact Nat.zero_le _
  | @step h e _ he =>
    have hlt : h.length < values.length := by
      unfold put at he
      split at he
      · cases he
      · split at he
        · rename_i hv
          exact (List.getElem?_eq_some_iff.mp hv).1
        · cases he
    rw [List.length_append, List.length_singleton]
    omega

theorem put_regular (values : List α) : (put values).Regular := by
  apply Regular.of_bounded
  · intro h r hfinish
    unfold put at hfinish
    split at hfinish
    · exact (Move.finish.inj hfinish).symm
    · split at hfinish
      · cases hfinish
      · exact (Move.finish.inj hfinish).symm
  · exact fun input limit ↦ ⟨values.length, fun h ↦ Reaches.put_length⟩

/-- As long as there are values, each exchange receives one; two more exchanges come after them. -/
theorem Reaches.count_length {total : Nat → α} (hreach : (count total).Reaches limit input h) :
    match h.getLast? with
    | some (.received none) => h.length ≤ input.length + 1
    | some (.sent _ _) => h.length ≤ input.length + 2
    | _ => h.length = (taken h).length ∧ h.length ≤ input.length := by
  induction hreach with
  | start => exact ⟨rfl, Nat.zero_le _⟩
  | @step h e _ he ih =>
    rw [List.getLast?_concat]
    unfold count at he
    split at he
    · rename_i hlast
      rw [hlast] at ih
      cases he
      simp only [List.length_append, List.length_singleton] at ih ⊢
      omega
    · cases he
    · rename_i hdrained hsent
      obtain rfl := Option.some.inj he
      obtain ⟨hall, hle⟩ : h.length = (taken h).length ∧ h.length ≤ input.length := by
        split at ih
        · exact absurd ‹_› hdrained
        · exact absurd ‹_› (hsent _ _)
        · exact ih
      cases hv : input[(taken h).length]? with
      | none =>
        simp only [List.length_append, List.length_singleton]
        omega
      | some v =>
        have hlt : (taken h).length < input.length := (List.getElem?_eq_some_iff.mp hv).1
        simp only [taken_append, taken_received, Option.toList_some, List.length_append,
          List.length_singleton]
        omega

theorem count_regular (total : Nat → α) : (count total).Regular := by
  apply Regular.of_bounded
  · intro h r hfinish
    unfold count at hfinish
    split at hfinish
    · cases hfinish
    · exact (Move.finish.inj hfinish).symm
    · cases hfinish
  · refine fun input limit ↦ ⟨input.length + 2, fun h hreach ↦ ?_⟩
    have hlength := hreach.count_length
    split at hlength
    · omega
    · omega
    · omega

end Program

end Conduit.Threads
