import Mathlib.Data.List.TakeWhile
import Conduit.Host.Environment
import Conduit.Proofs.Lookup
import Conduit.Proofs.Pieces

/-!
# Environments of a Process

A process keeps each entry of its environment as one text that ends at a zero byte, and reads it as
a name and a value by cutting it at the first equality sign.  The entries of such an environment
have no equality sign in their names and no zero byte in their values.  There a name that can be set
at all leads to the first entry of this name, and setting it gives it the value up to the first zero
byte.
-/

namespace Conduit.Host.Environment

/-- The entries are such as come from texts that are cut at their first equality sign. -/
structure Proper (env : Environment) : Prop where
  names : ∀ entry ∈ env.entries, Bytes.equals ∉ entry.1
  values : ∀ entry ∈ env.entries, 0 ∉ entry.2

/-- A name that can be looked up and set. -/
structure Settable (name : Bytes) : Prop where
  nonempty : name ≠ []
  unmarked : Bytes.equals ∉ name
  ends : 0 ∉ name

variable {env env' : Environment} {name value : Bytes}

theorem zero_notMem_untilZero (text : Bytes) : 0 ∉ Bytes.untilZero text := by
  intro hzero
  have hne := List.mem_takeWhile_imp hzero
  simp at hne

theorem untilZero_eq_self {text : Bytes} (h : 0 ∉ text) : Bytes.untilZero text = text := by
  refine List.takeWhile_eq_self_iff.mpr fun b hb ↦ ?_
  simp only [ne_eq, decide_not, Bool.not_eq_true', decide_eq_false_iff_not]
  rintro rfl
  exact h hb

/-! ## Looking up -/

theorem after?_eq_some_iff (front text rest : Bytes) :
    after? front text = some rest ↔ text = front ++ rest := by
  induction front generalizing text with
  | nil => exact Option.some_inj
  | cons a front ih =>
    cases text with
    | nil => simp [after?]
    | cons b text =>
      rw [after?, List.cons_append, List.cons.injEq]
      split
      case isTrue heq => rw [ih, heq, eq_self, true_and]
      case isFalse hne => simp [Ne.symm hne]

/-- Names without an equality sign are told apart by the front of an entry. -/
theorem valueIn?_eq (hname : Bytes.equals ∉ name) {entry : Bytes × Bytes}
    (hentry : Bytes.equals ∉ entry.1) :
    valueIn? name entry = if entry.1 = name then some entry.2 else none := by
  ext rest
  rw [valueIn?, after?_eq_some_iff, List.append_assoc, List.singleton_append]
  constructor
  · intro heq
    rcases Bytes.cut_of_append_eq hentry heq with ⟨hfirst, hrest⟩ | ⟨more, hmore, -⟩
    · rw [if_pos hfirst.symm, hrest]
    · rw [hmore] at hname
      exact absurd (List.mem_append_right _ List.mem_cons_self) hname
  · intro heq
    split at heq
    · rename_i hfirst
      cases heq
      rw [hfirst]
    · cases heq

theorem findSome?_valueIn? (hname : Bytes.equals ∉ name) {entries : List (Bytes × Bytes)}
    (hentries : ∀ entry ∈ entries, Bytes.equals ∉ entry.1) :
    entries.findSome? (valueIn? name) = entries.lookup name := by
  induction entries with
  | nil => rfl
  | cons entry rest ih =>
    obtain ⟨hentry, hrest⟩ := List.forall_mem_cons.mp hentries
    rw [List.findSome?_cons, valueIn?_eq hname hentry, List.lookup_cons, ih hrest]
    by_cases hfirst : entry.1 = name
    · simp [hfirst]
    · simp [hfirst, beq_eq_false_iff_ne.mpr (Ne.symm hfirst)]

theorem Proper.find?_eq (h : env.Proper) (hname : Settable name) :
    env.find? name = env.entries.lookup name := by
  have hempty : name.isEmpty = false := by simpa using hname.nonempty
  simp only [find?, untilZero_eq_self hname.ends, hempty, Bool.false_eq_true, if_false]
  exact findSome?_valueIn? hname.unmarked h.names

/-- No value has a zero byte in it. -/
theorem Proper.zero_notMem_get (h : env.Proper) (hname : Settable name) : 0 ∉ env.get name := by
  rw [get, h.find?_eq hname]
  rcases hvalue : env.entries.lookup name with _ | value
  · exact List.not_mem_nil
  · obtain ⟨before, after, hentries, -⟩ := List.lookup_eq_some_iff.mp hvalue
    exact h.values (name, value) (hentries ▸ List.mem_append_right _ List.mem_cons_self)

/-! ## Setting -/

theorem mem_insert {entries : List (Bytes × Bytes)} {entry : Bytes × Bytes}
    (h : entry ∈ insert name value entries) : entry = (name, value) ∨ entry ∈ entries := by
  induction entries with
  | nil => exact .inl (List.mem_singleton.mp h)
  | cons first rest ih =>
    unfold insert at h
    split at h
    · exact (List.mem_cons.mp h).imp_right (List.mem_cons_of_mem _)
    · rcases List.mem_cons.mp h with rfl | h
      · exact .inr List.mem_cons_self
      · exact (ih h).imp_right (List.mem_cons_of_mem _)

/-- An environment stays proper when a name is set. -/
theorem Proper.set? (h : env.Proper) (hset : env.set? name value = some env') : env'.Proper := by
  simp only [Environment.set?] at hset
  split at hset
  · cases hset
  · rename_i hname
    cases hset
    have hunmarked : Bytes.equals ∉ Bytes.untilZero name := by
      intro hmem
      exact hname (Bool.or_eq_true_iff.mpr (.inr (List.contains_iff_mem.mpr hmem)))
    refine ⟨fun entry hentry ↦ ?_, fun entry hentry ↦ ?_⟩
    · rcases mem_insert hentry with rfl | hentry
      · exact hunmarked
      · exact h.names entry hentry
    · rcases mem_insert hentry with rfl | hentry
      · exact zero_notMem_untilZero value
      · exact h.values entry hentry

/-- A name that can be set has the value afterwards, up to its first zero byte. -/
theorem Proper.get_set? (h : env.Proper) (hname : Settable name) (value : Bytes) :
    ∃ env', env.set? name value = some env' ∧ env'.get name = Bytes.untilZero value := by
  have hempty : name.isEmpty = false := by simpa using hname.nonempty
  have hunmarked : name.contains Bytes.equals = false := by simpa using hname.unmarked
  have hset : env.set? name value =
      some ⟨insert name (Bytes.untilZero value) env.entries⟩ := by
    simp only [Environment.set?, untilZero_eq_self hname.ends, hempty, hunmarked, Bool.or_self,
      Bool.false_eq_true, if_false]
  refine ⟨_, hset, ?_⟩
  rw [get, (h.set? hset).find?_eq hname,
    lookup_put (insert name (Bytes.untilZero value)) rfl (fun _ _ ↦ rfl), if_pos rfl,
    Option.getD_some]

end Conduit.Host.Environment
