import Mathlib.Tactic.Common
import Conduit.Bytes

/-!
# Looking up Names

Lists of entries by name, in which the first entry of a name counts: what is found after an entry has
been put, and after all entries of a name have been taken away.
-/

namespace Conduit

variable {κ β : Type} [BEq κ] [LawfulBEq κ] [DecidableEq κ] {name : κ}

/-- Giving a key a value, in place if it is there and at the end if not, changes what this key leads
to and nothing else. -/
theorem lookup_put {b : β} (put : List (κ × β) → List (κ × β))
    (hnil : put [] = [(name, b)])
    (hcons : ∀ entry rest, put (entry :: rest) =
      if entry.1 = name then (name, b) :: rest else entry :: put rest)
    (entries : List (κ × β)) (other : κ) :
    (put entries).lookup other = if other = name then some b else entries.lookup other := by
  have hne : ∀ {a b : κ}, a ≠ b → (a == b) = false := beq_eq_false_iff_ne.mpr
  induction entries with
  | nil => by_cases hother : other = name <;> simp [hnil, List.lookup_cons, hother, hne]
  | cons entry rest ih =>
    obtain ⟨key, value⟩ := entry
    rw [hcons]
    by_cases hkey : key = name
    · subst hkey
      by_cases hother : other = key <;> simp [List.lookup_cons, hother, hne]
    · by_cases hother : other = key
      · simp [hother, hkey]
      · simp [List.lookup_cons, hother, hne, hkey, ih]

/-- Taking the entries of a key away changes what this key leads to and nothing else. -/
theorem lookup_erase (entries : List (κ × β)) (other : κ) :
    (entries.filter fun entry ↦ entry.1 ≠ name).lookup other =
      if other = name then none else entries.lookup other := by
  have hne : ∀ {a b : κ}, a ≠ b → (a == b) = false := beq_eq_false_iff_ne.mpr
  induction entries with
  | nil => simp
  | cons entry rest ih =>
    obtain ⟨key, value⟩ := entry
    by_cases hkey : key = name
    · by_cases hother : other = name
      · simpa [hkey, hother] using ih
      · simpa [hkey, List.lookup_cons, hother, hne hother] using ih
    · by_cases hother : other = key
      · simp [hother, hkey]
      · simpa [hkey, List.lookup_cons, hne hother] using ih

end Conduit
