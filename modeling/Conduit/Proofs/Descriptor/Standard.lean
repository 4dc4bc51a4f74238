import Mathlib.Data.Nat.Count
import Mathlib.Data.List.Perm.Subperm
import Mathlib.Logic.Function.Basic
import Conduit.Descriptor.Standard
import Conduit.Proofs.Lookup

/-!
# What Installing Standard Descriptors Does

In a table whose places 0, 1 and 2 are open, every descriptor that the installation opens for itself
takes the lowest free number there is, so after `n` of them the `n` lowest free numbers of the table
it started from are taken.  With this in hand the whole outcome is read off the starting table.

Where every source is none at all or open, the installation is a simultaneous assignment of the three
places.  A source that is not open is found out only when its turn comes, and by then its number may
have been taken for an earlier place: how many numbers are free below it decides.  What stays open
afterwards beyond the places are the null devices, since only their copies are closed.
-/

namespace Conduit.Descriptor

open Host (Errno)

namespace OpenTable

variable (t : OpenTable) (d other : Nat) (e : Entry)

theorem get?_close : (t.close d).get? other = if other = d then none else t.get? other :=
  lookup_erase t.entries other

theorem get?_set : (t.set d e).get? other = if other = d then some e else t.get? other := by
  unfold set
  rw [get?, List.lookup_cons]
  by_cases h : other = d
  · simp [h]
  · rw [beq_false_of_ne h, if_neg h]
    exact (t.get?_close d other).trans (if_neg h)

/-! ## The lowest free number -/

/-- A table with as many numbers open as it has entries has no other one open. -/
theorem get?_eq_none_of_run {low : Nat}
    (h : ∀ n, low ≤ n → n < low + t.entries.length → (t.get? n).isSome) :
    t.get? (low + t.entries.length) = none := by
  by_contra hopen
  have hsub : List.range' low (t.entries.length + 1) ⊆ t.entries.map Prod.fst := by
    intro n hn
    have hn : low ≤ n ∧ n < low + (t.entries.length + 1) := by simpa using hn
    have hsome : (t.get? n).isSome := by
      rcases Nat.lt_or_ge n (low + t.entries.length) with hlt | hge
      · exact h n hn.1 hlt
      · obtain rfl : n = low + t.entries.length := by omega
        exact Option.isSome_iff_ne_none.mpr hopen
    obtain ⟨entry, hmem, hkey⟩ := List.lookup_isSome_iff.mp hsome
    exact List.mem_map.mpr ⟨entry, hmem, (beq_iff_eq.mp hkey).symm⟩
  have hle := (List.subperm_of_subset (List.nodup_range' 1) hsub).length_le
  rw [List.length_range', List.length_map] at hle
  omega

theorem lowestFree_spec (count low : Nat) :
    low ≤ t.lowestFree count low ∧
      (∀ n, low ≤ n → n < t.lowestFree count low → (t.get? n).isSome) ∧
      (t.get? (t.lowestFree count low) = none ∨ t.lowestFree count low = low + count) := by
  induction count generalizing low with
  | zero => exact ⟨Nat.le_refl _, fun n h hn ↦ absurd hn (Nat.not_lt.mpr h), .inr rfl⟩
  | succ count ih =>
    rw [lowestFree]
    by_cases hopen : (t.get? low).isSome
    · rw [if_pos hopen]
      obtain ⟨hle, hrun, hend⟩ := ih (low + 1)
      refine ⟨by omega, fun n hn hlt ↦ ?_, hend.imp id fun h ↦ by omega⟩
      rcases Nat.lt_or_eq_of_le hn with hlow | rfl
      · exact hrun n hlow hlt
      · exact hopen
    · rw [if_neg hopen]
      exact ⟨Nat.le_refl _, fun n h hn ↦ absurd hn (Nat.not_lt.mpr h), .inl (by simpa using hopen)⟩

theorem isSome_of_lt_free {low n : Nat} (h : low ≤ n) (hn : n < t.free low) : (t.get? n).isSome :=
  (t.lowestFree_spec _ low).2.1 n h hn

theorem get?_free (low : Nat) : t.get? (t.free low) = none := by
  obtain ⟨-, hrun, hfree | hend⟩ := t.lowestFree_spec t.entries.length low
  · exact hfree
  · rw [free, hend]
    exact t.get?_eq_none_of_run fun n h hn ↦ hrun n h (hend ▸ hn)

/-! ## The rank of a free number -/

/-- How many numbers below a number are free. -/
def rank : Nat := Nat.count (fun n ↦ t.get? n = none) d

/-- The places of the standard descriptors are open. -/
def Standing : Prop := ∀ place < 3, (t.get? place).isSome

instance : Decidable t.Standing := inferInstanceAs (Decidable (∀ place < 3, (t.get? place).isSome))

/-- One table comes from another by opening as many descriptors as a number says, each under the
lowest free number there was. -/
structure Grown (count : Nat) (t' : OpenTable) : Prop where
  old : ∀ d, t.get? d ≠ none → t'.get? d = t.get? d
  new : ∀ d, t.get? d = none → (t'.get? d ≠ none ↔ t.rank d < count)

variable {t d other} {t' : OpenTable} {count : Nat}

theorem Grown.refl : t.Grown 0 t := ⟨fun _ _ ↦ rfl, fun _ h ↦ by simp [h]⟩

theorem Grown.standing (h : t.Grown count t') (hs : t.Standing) : t'.Standing := fun place hp ↦ by
  rw [h.old place (Option.isSome_iff_ne_none.mp (hs place hp))]
  exact hs place hp

/-- A number below which nothing free is left has at most as many free ones below it as were
taken. -/
theorem rank_le (h : ∀ n < d, t.get? n = none → t.rank n < count) : t.rank d ≤ count := by
  induction d with
  | zero => exact Nat.zero_le _
  | succ d ih =>
    rw [rank, Nat.count_succ]
    have ih : t.rank d ≤ count := ih fun n hn ↦ h n (by omega)
    by_cases hfree : t.get? d = none
    · rw [if_pos hfree]
      exact h d (Nat.lt_succ_self d) hfree
    · rw [if_neg hfree]
      exact ih

theorem eq_of_rank_eq (hd : t.get? d = none) (hother : t.get? other = none)
    (h : t.rank d = t.rank other) : d = other :=
  Nat.count_injective hd hother h

theorem Grown.isSome_of_lt_free (h : t.Grown count t') (hs : t.Standing) {low n : Nat}
    (hlow : low ≤ 3) (hn : n < t'.free low) : t'.get? n ≠ none := by
  rcases Nat.lt_or_ge n 3 with hplace | hge
  · exact Option.isSome_iff_ne_none.mp (h.standing hs n hplace)
  · exact Option.isSome_iff_ne_none.mp (t'.isSome_of_lt_free (by omega) hn)

/-- The number that opening one more descriptor takes was free from the start, and as many free ones
lie below it as were taken before. -/
theorem Grown.free_spec (h : t.Grown count t') (hs : t.Standing) {low : Nat} (hlow : low ≤ 3) :
    t.get? (t'.free low) = none ∧ t.rank (t'.free low) = count := by
  have hclosed := t'.get?_free low
  have hfree : t.get? (t'.free low) = none := by
    by_contra hopen
    exact hopen (h.old _ hopen ▸ hclosed)
  have hge : ¬ t.rank (t'.free low) < count := fun hlt ↦ (h.new _ hfree).mpr hlt hclosed
  have hle : t.rank (t'.free low) ≤ count :=
    rank_le fun n hn hnone ↦ (h.new n hnone).mp (h.isSome_of_lt_free hs hlow hn)
  exact ⟨hfree, by omega⟩

theorem Grown.set (h : t.Grown count t') (hs : t.Standing) {low : Nat} (hlow : low ≤ 3)
    (e : Entry) : t.Grown (count + 1) (t'.set (t'.free low) e) := by
  obtain ⟨hfree, hrank⟩ := h.free_spec hs hlow
  refine ⟨fun d hd ↦ ?_, fun d hd ↦ ?_⟩
  · have hne : d ≠ t'.free low := fun heq ↦ hd (heq ▸ hfree)
    rw [get?_set, if_neg hne, h.old d hd]
  · rw [get?_set]
    split
    · next heq =>
      subst heq
      simp [hrank]
    · next hne =>
      have : t.rank d ≠ count := fun heq ↦ hne (eq_of_rank_eq hd hfree (heq.trans hrank.symm))
      rw [h.new d hd]
      omega

end OpenTable

/-! ## Preparing the sources -/

/-- How many descriptors are opened to prepare a source for a place. -/
def opened (place : Nat) (source : Int) : Nat :=
  if source < 0 then 2 else if source = place then 0 else 1

section Sources

variable (t : OpenTable) (source : Nat → Int)

/-- How many descriptors are opened for the places in front of one. -/
def taken : Nat → Nat
  | 0 => 0
  | place + 1 => taken place + opened place (source place)

/-- A source that can be used: none at all, or an open descriptor. -/
def OpenTable.Usable (wanted : Int) : Prop := wanted < 0 ∨ (t.get? wanted.toNat).isSome

instance (wanted : Int) : Decidable (t.Usable wanted) :=
  inferInstanceAs (Decidable (wanted < 0 ∨ (t.get? wanted.toNat).isSome))

/-- A place finds its source closed: it is not usable, and the descriptors opened for the places in
front have not come to take its number. -/
def OpenTable.Misses (place : Nat) : Prop :=
  ¬ t.Usable (source place) ∧ taken source place ≤ t.rank (source place).toNat

instance (place : Nat) : Decidable (t.Misses source place) :=
  inferInstanceAs (Decidable (_ ∧ _))

/-- What a place is to refer to: the file of its source, or the null device if it has none. -/
def OpenTable.fileFor (place : Nat) : Option File :=
  if source place < 0 then some (nullFor place)
  else (t.get? (source place).toNat).map (·.file)

/-- In a table, a place has been prepared to be filled from a descriptor. -/
structure Prepared (t' : OpenTable) (place origin : Nat) : Prop where
  stays : source place = place → origin = place
  moved : source place ≠ place →
    t.get? origin = none ∧ t.rank origin + 1 = taken source (place + 1)
  isOpen : t'.get? origin ≠ none
  file : t.Usable (source place) → (t'.get? origin).map (·.file) = t.fileFor source place
  null : source place < 0 → ∀ d, t.get? d = none → t.rank d = taken source place →
    t'.get? d = some ⟨nullFor place, false⟩

/-- A table keeps what is open in another one. -/
def OpenTable.Keeps (t' : OpenTable) : Prop := ∀ d, t.get? d ≠ none → t'.get? d = t.get? d

variable {t source} {t₁ t₂ : OpenTable} {place origin : Nat}

theorem Prepared.mono (h : Prepared t source t₁ place origin) (hk : t₁.Keeps t₂) :
    Prepared t source t₂ place origin where
  stays := h.stays
  moved := h.moved
  isOpen := by rw [hk origin h.isOpen]; exact h.isOpen
  file hu := by rw [hk origin h.isOpen]; exact h.file hu
  null hn d hd hr := by
    have := h.null hn d hd hr
    rw [hk d (by simp [this]), this]

theorem keeps_set_free (t : OpenTable) (low : Nat) (e : Entry) :
    t.Keeps (t.set (t.free low) e) := fun d hd ↦ by
  have hne : d ≠ t.free low := fun heq ↦ hd (heq ▸ t.get?_free low)
  rw [OpenTable.get?_set, if_neg hne]

theorem OpenTable.Keeps.trans {t₃ : OpenTable} (h : t₁.Keeps t₂) (h' : t₂.Keeps t₃) :
    t₁.Keeps t₃ := fun d hd ↦ by
  rw [h' d (by rw [h d hd]; exact hd), h d hd]

/-- Where a place has no source, the null device is opened under one number and copied to the
next. -/
theorem prepare_none (hs : t.Standing) (hg : t.Grown (taken source place) t₁) (hp : place < 3)
    (hsource : source place < 0) :
    ∃ origin t₂, prepare t₁ place (source place) = .ok (origin, t₂) ∧
      t.Grown (taken source (place + 1)) t₂ ∧ t₁.Keeps t₂ ∧ Prepared t source t₂ place origin := by
  let null : Entry := ⟨nullFor place, false⟩
  let middle := t₁.set (t₁.free 0) null
  obtain ⟨hfree, hrank⟩ := hg.free_spec hs (Nat.zero_le 3)
  have hmiddle : t.Grown (taken source place + 1) middle := hg.set hs (Nat.zero_le 3) null
  obtain ⟨hfree', hrank'⟩ := hmiddle.free_spec hs (Nat.le_refl 3)
  have hopen : middle.get? (t₁.free 0) = some null := by
    rw [OpenTable.get?_set, if_pos rfl]
  have hplace : t₁.free 0 ≠ place := fun heq ↦ by
    have := hs place hp
    rw [← heq, hfree] at this
    exact absurd this (by simp)
  have htaken : taken source (place + 1) = taken source place + 2 := by
    rw [taken, opened, if_pos hsource]
  refine ⟨middle.free 3, middle.set (middle.free 3) null, ?_, ?_,
    (keeps_set_free t₁ 0 null).trans (keeps_set_free middle 3 null), ?_, ?_, ?_, ?_, ?_⟩
  · have hopened : t₁.openFile (nullFor place) = (t₁.free 0, middle) := rfl
    rw [prepare, if_pos hsource, hopened]
    dsimp only
    rw [if_neg hplace, OpenTable.copyAbove, hopen]
    rfl
  · rw [htaken]
    exact hmiddle.set hs (Nat.le_refl 3) null
  · intro heq
    omega
  · exact fun _ ↦ ⟨hfree', by omega⟩
  · simp [OpenTable.get?_set]
  · intro _
    simp [OpenTable.get?_set, OpenTable.fileFor, hsource, null]
  · intro _ d hd hr
    obtain rfl : d = t₁.free 0 := OpenTable.eq_of_rank_eq hd hfree (hr.trans hrank.symm)
    rw [keeps_set_free middle 3 null _ (by simp [hopen]), hopen]

/-- A place that is its own source stays as it is. -/
theorem prepare_self (hs : t.Standing) (hg : t.Grown (taken source place) t₁) (hp : place < 3)
    (hsource : source place = place) :
    prepare t₁ place (source place) = .ok (place, t₁) ∧
      t.Grown (taken source (place + 1)) t₁ ∧ Prepared t source t₁ place place := by
  have hsome := hs place hp
  have hkept : t₁.get? place = t.get? place := hg.old place (Option.isSome_iff_ne_none.mp hsome)
  have hnonneg : ¬ (place : Int) < 0 := by omega
  refine ⟨?_, ?_, fun _ ↦ rfl, fun hne ↦ absurd hsource hne, ?_, fun _ ↦ ?_, fun hn ↦ ?_⟩
  · simp [prepare, hsource, hnonneg]
  · simpa [taken, opened, hsource, hnonneg] using hg
  · rw [hkept]
    exact Option.isSome_iff_ne_none.mp hsome
  · simp [OpenTable.fileFor, hsource, hnonneg, hkept]
  · omega

/-- Any other source that is open when its turn comes is copied. -/
theorem prepare_open (hs : t.Standing) (hg : t.Grown (taken source place) t₁)
    (hsource : ¬ source place < 0) (hne : source place ≠ place) {e : Entry}
    (he : t₁.get? (source place).toNat = some e) :
    ∃ origin t₂, prepare t₁ place (source place) = .ok (origin, t₂) ∧
      t.Grown (taken source (place + 1)) t₂ ∧ t₁.Keeps t₂ ∧ Prepared t source t₂ place origin := by
  obtain ⟨hfree, hrank⟩ := hg.free_spec hs (Nat.le_refl 3)
  have hplace : (source place).toNat ≠ place := by omega
  have htaken : taken source (place + 1) = taken source place + 1 := by
    rw [taken, opened, if_neg hsource, if_neg hne]
  refine ⟨t₁.free 3, t₁.set (t₁.free 3) ⟨e.file, false⟩, ?_, ?_, keeps_set_free t₁ 3 _, ?_, ?_, ?_,
    ?_, ?_⟩
  · rw [prepare, if_neg hsource]
    simp only [if_neg hplace, OpenTable.copyAbove]
    rw [he]
    rfl
  · rw [htaken]
    exact hg.set hs (Nat.le_refl 3) _
  · exact fun heq ↦ absurd heq hne
  · exact fun _ ↦ ⟨hfree, by omega⟩
  · simp [OpenTable.get?_set]
  · intro hu
    have hsome := hu.resolve_left hsource
    have hkept := hg.old _ (Option.isSome_iff_ne_none.mp hsome)
    rw [he] at hkept
    simp [OpenTable.get?_set, OpenTable.fileFor, hsource, ← hkept]
  · exact fun hn ↦ absurd hn hsource

/-- A source that is closed when its turn comes ends the preparation. -/
theorem prepare_closed (hsource : ¬ source place < 0) (hne : source place ≠ place)
    (he : t₁.get? (source place).toNat = none) :
    prepare t₁ place (source place) = .error (fault "fcntl" .badDescriptor, t₁) := by
  have hplace : (source place).toNat ≠ place := by omega
  rw [prepare, if_neg hsource]
  simp [hplace, OpenTable.copyAbove, he]

/-- Preparing a place fails exactly if it misses its source. -/
theorem prepare_spec (hs : t.Standing) (hg : t.Grown (taken source place) t₁) (hp : place < 3) :
    (¬ t.Misses source place ∧
      ∃ origin t₂, prepare t₁ place (source place) = .ok (origin, t₂) ∧
        t.Grown (taken source (place + 1)) t₂ ∧ t₁.Keeps t₂ ∧ Prepared t source t₂ place origin) ∨
    (t.Misses source place ∧
      prepare t₁ place (source place) = .error (fault "fcntl" .badDescriptor, t₁)) := by
  by_cases hsource : source place < 0
  · exact .inl ⟨fun h ↦ h.1 (.inl hsource), prepare_none hs hg hp hsource⟩
  by_cases hself : source place = place
  · obtain ⟨hok, hgrown, hprepared⟩ := prepare_self hs hg hp hself
    have husable : t.Usable (source place) := .inr (by rw [hself]; exact hs place hp)
    exact .inl ⟨fun h ↦ h.1 husable, place, t₁, hok, hgrown, fun _ _ ↦ rfl, hprepared⟩
  cases he : t₁.get? (source place).toNat with
  | some e =>
    refine .inl ⟨fun ⟨hnot, hrank⟩ ↦ ?_, prepare_open hs hg hsource hself he⟩
    have hnone : t.get? (source place).toNat = none := by
      simpa using (not_or.mp hnot).2
    exact absurd ((hg.new _ hnone).mp (by simp [he])) (Nat.not_lt.mpr hrank)
  | none =>
    have hnone : t.get? (source place).toNat = none := by
      by_contra hopen
      rw [hg.old _ hopen] at he
      exact hopen he
    have hnot : ¬ t.Usable (source place) := not_or.mpr ⟨hsource, by simp [hnone]⟩
    have hrank : taken source place ≤ t.rank (source place).toNat := by
      by_contra hlt
      exact (hg.new _ hnone).mpr (by omega) he
    exact .inr ⟨⟨hnot, hrank⟩, prepare_closed hsource hself he⟩

theorem prepareAll_ok {wanted : Int} {rest : List Int} {sources : List (Nat × Nat)} {t t₁ t₂ : OpenTable}
    (hfirst : prepare t place wanted = .ok (origin, t₁))
    (hrest : prepareAll t₁ (place + 1) rest = .ok (sources, t₂)) :
    prepareAll t place (wanted :: rest) = .ok ((origin, place) :: sources, t₂) := by
  rw [prepareAll, hfirst]
  change (prepareAll t₁ (place + 1) rest >>= _) = _
  rw [hrest]
  rfl

theorem prepareAll_error_first {wanted : Int} {rest : List Int} {t : OpenTable}
    {fault : Bytes × OpenTable} (hfirst : prepare t place wanted = .error fault) :
    prepareAll t place (wanted :: rest) = .error fault := by
  rw [prepareAll, hfirst]
  rfl

theorem prepareAll_error_rest {wanted : Int} {rest : List Int} {t t₁ : OpenTable}
    {fault : Bytes × OpenTable} (hfirst : prepare t place wanted = .ok (origin, t₁))
    (hrest : prepareAll t₁ (place + 1) rest = .error fault) :
    prepareAll t place (wanted :: rest) = .error fault := by
  rw [prepareAll, hfirst]
  change (prepareAll t₁ (place + 1) rest >>= _) = _
  rw [hrest]
  rfl

/-- The places from one on, each with its source. -/
def places (source : Nat → Int) (place count : Nat) : List Int :=
  (List.range' place count).map source

/-- The places from one on, each with the descriptor it is filled from. -/
def fillings (origin : Nat → Nat) (place count : Nat) : List (Nat × Nat) :=
  (List.range' place count).map fun place ↦ (origin place, place)

theorem fillings_update (origin : Nat → Nat) (place count first : Nat) :
    fillings (Function.update origin place first) place (count + 1) =
      (first, place) :: fillings origin (place + 1) count := by
  rw [fillings, List.range'_succ, List.map_cons, Function.update_self]
  refine congrArg _ (List.map_congr_left fun i hi ↦ ?_)
  have hlater : place < i := (List.mem_range'_1.mp hi).1
  rw [Function.update_of_ne (Nat.ne_of_gt hlater)]

/-- All the places from one on are prepared, unless one of them misses its source. -/
theorem prepareAll_spec (hs : t.Standing) (count : Nat) :
    ∀ (place : Nat) (t₁ : OpenTable), place + count ≤ 3 → t.Grown (taken source place) t₁ →
      ((∀ i, place ≤ i → i < place + count → ¬ t.Misses source i) ∧
        ∃ origin t₂, prepareAll t₁ place (places source place count) =
            .ok (fillings origin place count, t₂) ∧
          t.Grown (taken source (place + count)) t₂ ∧ t₁.Keeps t₂ ∧
          ∀ i, place ≤ i → i < place + count → Prepared t source t₂ i (origin i)) ∨
      ((∃ i, place ≤ i ∧ i < place + count ∧ t.Misses source i) ∧
        ∃ t₂, prepareAll t₁ place (places source place count) =
            .error (fault "fcntl" .badDescriptor, t₂) ∧ t.Keeps t₂) := by
  induction count with
  | zero =>
    intro place t₁ _ hg
    exact .inl ⟨fun i h hi ↦ absurd hi (Nat.not_lt.mpr h), id, t₁, rfl, hg, fun _ _ ↦ rfl,
      fun i h hi ↦ absurd hi (Nat.not_lt.mpr h)⟩
  | succ count ih =>
    intro place t₁ hbound hg
    have hcons : places source place (count + 1) =
        source place :: places source (place + 1) count := rfl
    rw [hcons]
    rcases prepare_spec hs hg (by omega) with
      ⟨hhit, first, t₂, hfirst, hgrown, hkeeps, hprepared⟩ | ⟨hmiss, herror⟩
    · rcases ih (place + 1) t₂ (by omega) hgrown with
        ⟨hhits, origin, t₃, hrest, hgrown', hkeeps', hrestPrepared⟩ |
          ⟨⟨i, hle, hlt, hmiss⟩, t₃, herror, hold⟩
      · refine .inl ⟨fun i hle hlt ↦ ?_, Function.update origin place first, t₃, ?_, ?_,
          hkeeps.trans hkeeps', fun i hle hlt ↦ ?_⟩
        · rcases Nat.eq_or_lt_of_le hle with rfl | hlater
          · exact hhit
          · exact hhits i hlater (by omega)
        · rw [fillings_update]
          exact prepareAll_ok hfirst hrest
        · rw [show place + (count + 1) = place + 1 + count by omega]
          exact hgrown'
        · rcases Nat.eq_or_lt_of_le hle with rfl | hlater
          · rw [Function.update_self]
            exact hprepared.mono hkeeps'
          · rw [Function.update_of_ne (Nat.ne_of_gt hlater)]
            exact hrestPrepared i hlater (by omega)
      · exact .inr ⟨⟨i, by omega, by omega, hmiss⟩, t₃, prepareAll_error_rest hfirst herror, hold⟩
    · exact .inr ⟨⟨place, Nat.le_refl _, by omega, hmiss⟩, t₁, prepareAll_error_first herror, hg.old⟩

end Sources

/-! ## Filling the places -/

/-- What the places from one on are filled from: each from itself or from beyond the places, no two
from the same descriptor. -/
structure Sourced (origin : Nat → Nat) (place count : Nat) : Prop where
  bound : place + count ≤ 3
  apart : ∀ i, place ≤ i → i < place + count → origin i = i ∨ 3 ≤ origin i
  distinct : ∀ i j, place ≤ i → i < j → j < place + count → origin i ≠ origin j

theorem Sourced.tail {origin : Nat → Nat} {place count : Nat} (h : Sourced origin place (count + 1)) :
    Sourced origin (place + 1) count where
  bound := by have := h.bound; omega
  apart i hle hlt := h.apart i (by omega) (by omega)
  distinct i j hle hij hlt := h.distinct i j (by omega) hij (by omega)

/-- The table after one place has been filled. -/
def OpenTable.moved (t : OpenTable) (origin place : Nat) (e : Entry) : OpenTable :=
  if origin = place then t.set place ⟨e.file, false⟩
  else (t.set place ⟨e.file, false⟩).close origin

theorem get?_moved (t : OpenTable) (origin place d : Nat) (e : Entry) :
    (t.moved origin place e).get? d =
      if d = origin ∧ origin ≠ place then none
      else if d = place then some ⟨e.file, false⟩ else t.get? d := by
  unfold OpenTable.moved
  by_cases hself : origin = place
  · subst hself
    simp [OpenTable.get?_set]
  · rw [if_neg hself, OpenTable.get?_close, OpenTable.get?_set]
    simp [hself]

theorem fill_cons {t : OpenTable} {origin place : Nat} {e : Entry} (h : t.get? origin = some e)
    (rest : List (Nat × Nat)) : fill t ((origin, place) :: rest) = fill (t.moved origin place e) rest := by
  rw [fill, OpenTable.install, h]
  rfl

/-- Places with open sources are filled all at once, each from what its source was in the table
before, and the copies are closed. -/
theorem fill_spec {origin : Nat → Nat} (count : Nat) :
    ∀ (place : Nat) (t : OpenTable), Sourced origin place count →
      (∀ i, place ≤ i → i < place + count → t.get? (origin i) ≠ none) →
      ∃ t', fill t (fillings origin place count) = .ok t' ∧
        (∀ i, place ≤ i → i < place + count →
          t'.get? i = (t.get? (origin i)).map fun e ↦ ⟨e.file, false⟩) ∧
        (∀ i, place ≤ i → i < place + count → origin i ≠ i → t'.get? (origin i) = none) ∧
        ∀ d, (∀ i, place ≤ i → i < place + count → d ≠ i ∧ d ≠ origin i) →
          t'.get? d = t.get? d := by
  induction count with
  | zero =>
    intro place t _ _
    exact ⟨t, rfl, fun i h hi ↦ absurd hi (Nat.not_lt.mpr h),
      fun i h hi ↦ absurd hi (Nat.not_lt.mpr h), fun _ _ ↦ rfl⟩
  | succ count ih =>
    intro place t hs hopen
    obtain ⟨e, he⟩ := Option.ne_none_iff_exists'.mp (hopen place (Nat.le_refl _) (by omega))
    have hbound := hs.bound
    have hfirst := hs.apart place (Nat.le_refl _) (by omega)
    -- what the later places are filled from is still there after the first one has been filled
    have hlater : ∀ i, place + 1 ≤ i → i < place + 1 + count →
        (t.moved (origin place) place e).get? (origin i) = t.get? (origin i) := by
      intro i hle hlt
      have hne := hs.distinct place i (Nat.le_refl _) (by omega) (by omega)
      have hplace := hs.apart i (by omega) (by omega)
      rw [get?_moved, if_neg fun h ↦ hne h.1.symm, if_neg (by omega)]
    obtain ⟨t', hfill, hplaces, hclosed, hrest⟩ := ih (place + 1) (t.moved (origin place) place e)
      hs.tail fun i hle hlt ↦ by
        rw [hlater i hle hlt]
        exact hopen i (by omega) (by omega)
    -- the first place and its source are out of the way of the later ones
    have hapart : ∀ d, d = place ∨ d = origin place → ∀ i, place + 1 ≤ i → i < place + 1 + count →
        d ≠ i ∧ d ≠ origin i := by
      intro d hd i hle hlt
      have hne := hs.distinct place i (Nat.le_refl _) (by omega) (by omega)
      have hplace := hs.apart i (by omega) (by omega)
      omega
    refine ⟨t', (fill_cons he _).trans hfill, fun i hle hlt ↦ ?_, fun i hle hlt hne ↦ ?_,
      fun d hd ↦ ?_⟩
    · rcases Nat.eq_or_lt_of_le hle with rfl | hlt'
      · rw [hrest _ (hapart _ (.inl rfl)), get?_moved, if_neg fun h ↦ h.2 h.1.symm, if_pos rfl, he]
        rfl
      · rw [hplaces i hlt' (by omega), hlater i hlt' (by omega)]
    · rcases Nat.eq_or_lt_of_le hle with rfl | hlt'
      · rw [hrest _ (hapart _ (.inr rfl)), get?_moved, if_pos ⟨rfl, hne⟩]
      · exact hclosed i hlt' (by omega) hne
    · obtain ⟨hplace, horigin⟩ := hd place (Nat.le_refl _) (by omega)
      rw [hrest d fun i hle hlt ↦ hd i (by omega) (by omega), get?_moved,
        if_neg fun h ↦ horigin h.1, if_neg hplace]

/-! ## The whole installation -/

section Installation

variable {t : OpenTable} {source : Nat → Int}

theorem opened_le (place : Nat) (wanted : Int) : opened place wanted ≤ 2 := by
  unfold opened
  split
  · exact Nat.le_refl 2
  · split <;> omega

theorem opened_eq_zero {place : Nat} {wanted : Int} (h : opened place wanted = 0) :
    wanted = place := by
  unfold opened at h
  split at h
  · exact absurd h (by decide)
  · split at h
    · assumption
    · exact absurd h (by decide)

theorem neg_of_opened {place : Nat} {wanted : Int} (h : opened place wanted = 2) : wanted < 0 := by
  unfold opened at h
  split at h
  · assumption
  · split at h <;> exact absurd h (by decide)

theorem taken_mono (source : Nat → Int) : Monotone (taken source) :=
  monotone_nat_of_le_succ fun _ ↦ Nat.le_add_right _ _

/-- The number that the null device opened for a place gets. -/
structure OpenTable.NullAt (t : OpenTable) (source : Nat → Int) (place d : Nat) : Prop where
  sourceless : source place < 0
  free : t.get? d = none
  rank : t.rank d = taken source place

/-- Between two places, or behind them, no number is left unaccounted for: the copy for a place is
the last of the descriptors opened for it. -/
theorem exists_place_of_rank {d count : Nat} (hd : t.get? d = none)
    (h : t.rank d < taken source count) :
    ∃ place < count, t.NullAt source place d ∨
      source place ≠ place ∧ t.rank d + 1 = taken source (place + 1) := by
  induction count with
  | zero => exact absurd h (Nat.not_lt_zero _)
  | succ count ih =>
    rcases Nat.lt_or_ge (t.rank d) (taken source count) with hlt | hge
    · obtain ⟨place, hplace, hfound⟩ := ih hlt
      exact ⟨place, by omega, hfound⟩
    · have hle := opened_le count (source count)
      rw [taken] at h
      by_cases hlast : t.rank d + 1 = taken source (count + 1)
      · refine ⟨count, Nat.lt_succ_self _, .inr ⟨fun hself ↦ ?_, hlast⟩⟩
        have : opened count (source count) = 0 := by simp [opened, hself]
        omega
      · rw [taken] at hlast
        have hnull : opened count (source count) = 2 := by omega
        exact ⟨count, Nat.lt_succ_self _, .inl ⟨neg_of_opened hnull, hd, by omega⟩⟩

variable {t' : OpenTable} {origin : Nat → Nat}

theorem sourced_of_prepared (hs : t.Standing)
    (hp : ∀ i, 0 ≤ i → i < 0 + 3 → Prepared t source t' i (origin i)) : Sourced origin 0 3 where
  bound := Nat.le_refl 3
  apart i hle hlt := by
    by_cases hself : source i = i
    · exact .inl ((hp i hle hlt).stays hself)
    · right
      by_contra hlow
      have := hs (origin i) (by omega)
      rw [((hp i hle hlt).moved hself).1] at this
      exact absurd this (by simp)
  distinct i j hle hij hlt heq := by
    have hi := hp i hle (by omega)
    have hj := hp j (by omega) hlt
    -- a place that stays is open in the old table, and what a place was moved to is not
    have hopen : ∀ k < 3, t.get? k ≠ none := fun k hk ↦ Option.isSome_iff_ne_none.mp (hs k hk)
    by_cases hself : source i = i <;> by_cases hself' : source j = j
    · rw [hi.stays hself, hj.stays hself'] at heq
      omega
    · rw [hi.stays hself] at heq
      exact hopen i (by omega) (heq ▸ (hj.moved hself').1)
    · rw [hj.stays hself'] at heq
      exact hopen j (by omega) (heq ▸ (hi.moved hself).1)
    · have hrank := (hi.moved hself).2
      have hrank' := (hj.moved hself').2
      have hmono : taken source (i + 1) ≤ taken source j := taken_mono source hij
      have hpos : opened j (source j) ≠ 0 := fun h ↦ hself' (opened_eq_zero h)
      rw [taken, ← heq] at hrank'
      omega

theorem null_ne_origin {place d i : Nat} (hi : Prepared t source t' i (origin i))
    (hn : t.NullAt source place d) (hself : source i ≠ i) : d ≠ origin i := by
  rintro rfl
  have hrank := (hi.moved hself).2
  have hnull : opened place (source place) = 2 := if_pos hn.sourceless
  have hpos : opened i (source i) ≠ 0 := fun h ↦ hself (opened_eq_zero h)
  rw [hn.rank, taken] at hrank
  rcases Nat.lt_trichotomy i place with hlt | rfl | hlt
  · have hmono : taken source (i + 1) ≤ taken source place := taken_mono source hlt
    rw [taken] at hmono
    omega
  · omega
  · have hmono : taken source (place + 1) ≤ taken source i := taken_mono source hlt
    rw [taken] at hmono
    omega

/-- What the table is after a successful installation, read off the table before it. -/
structure Installed (t : OpenTable) (source : Nat → Int) (t' : OpenTable) : Prop where
  standing : t'.Standing
  assigned : ∀ place < 3, t.Usable (source place) →
    t'.get? place = (t.fileFor source place).map fun file ↦ ⟨file, false⟩
  others : ∀ d, 3 ≤ d → t.get? d ≠ none → t'.get? d = t.get? d
  nulls : ∀ place < 3, ∀ d, t.NullAt source place d → t'.get? d = some ⟨nullFor place, false⟩
  closed : ∀ d, t.get? d = none → (∀ place < 3, ¬ t.NullAt source place d) → t'.get? d = none

theorem installed_of_filled {t₂ : OpenTable} (hs : t.Standing)
    (hg : t.Grown (taken source (0 + 3)) t')
    (hp : ∀ i, 0 ≤ i → i < 0 + 3 → Prepared t source t' i (origin i))
    (hplaces : ∀ i, 0 ≤ i → i < 0 + 3 →
      t₂.get? i = (t'.get? (origin i)).map fun e ↦ ⟨e.file, false⟩)
    (hclosed : ∀ i, 0 ≤ i → i < 0 + 3 → origin i ≠ i → t₂.get? (origin i) = none)
    (hrest : ∀ d, (∀ i, 0 ≤ i → i < 0 + 3 → d ≠ i ∧ d ≠ origin i) → t₂.get? d = t'.get? d) :
    Installed t source t₂ := by
  have hfree : ∀ d, t.get? d = none → 3 ≤ d := fun d hd ↦ by
    by_contra hlow
    exact Option.isSome_iff_ne_none.mp (hs d (by omega)) hd
  refine ⟨fun place hlt ↦ ?_, fun place hlt hu ↦ ?_, fun d hle hd ↦ ?_, fun place hlt d hn ↦ ?_,
    fun d hd hnot ↦ ?_⟩
  · rw [hplaces place (Nat.zero_le _) (by omega), Option.isSome_map]
    exact Option.isSome_iff_ne_none.mpr (hp place (Nat.zero_le _) (by omega)).isOpen
  · rw [hplaces place (Nat.zero_le _) (by omega), ← (hp place (Nat.zero_le _) (by omega)).file hu,
      Option.map_map]
    rfl
  · rw [hrest d fun i hi hlt ↦ ⟨by omega, fun heq ↦ ?_⟩, hg.old d hd]
    by_cases hself : source i = i
    · have := (hp i hi hlt).stays hself
      omega
    · exact hd (heq ▸ ((hp i hi hlt).moved hself).1)
  · rw [hrest d fun i hi hlt ↦ ⟨by have := hfree d hn.free; omega, ?_⟩]
    · exact (hp place (Nat.zero_le _) (by omega)).null hn.sourceless d hn.free hn.rank
    · by_cases hself : source i = i
      · rw [(hp i hi hlt).stays hself]
        have := hfree d hn.free
        omega
      · exact null_ne_origin (hp i hi hlt) hn hself
  · by_cases horigin : ∃ i, i < 3 ∧ d = origin i
    · obtain ⟨i, hlt, rfl⟩ := horigin
      refine hclosed i (Nat.zero_le _) (by omega) fun hself ↦ ?_
      have := hfree _ hd
      omega
    · rw [hrest d fun i hi hlt ↦
        ⟨by have := hfree d hd; omega, fun heq ↦ horigin ⟨i, by omega, heq⟩⟩]
      by_contra hopen
      obtain ⟨place, hlt, hnull | ⟨hself, hrank⟩⟩ :=
        exists_place_of_rank hd ((hg.new d hd).mp hopen)
      · exact hnot place (by omega) hnull
      · obtain ⟨hfreed, hranked⟩ := (hp place (Nat.zero_le _) hlt).moved hself
        exact horigin ⟨place, by omega, OpenTable.eq_of_rank_eq hd hfreed (by omega)⟩

/-- The source of a place in a list of descriptors; a place beyond the list has none. -/
def sourceIn (wanted : List Int) (place : Nat) : Int := wanted.getD place (-1)

theorem standardSources_eq : ∀ wanted, standardSources wanted = places (sourceIn wanted) 0 3
  | [] | [_] | [_, _] | _ :: _ :: _ :: _ => rfl

/-- Installing standard descriptors fails exactly if some place misses its source, and then all that
was open is as it was. -/
theorem installStandard_spec (hs : t.Standing) (wanted : List Int) :
    ((∀ place < 3, ¬ t.Misses (sourceIn wanted) place) ∧
      ∃ t', installStandard wanted t = ⟨true, [], t'⟩ ∧ Installed t (sourceIn wanted) t') ∨
    ((∃ place < 3, t.Misses (sourceIn wanted) place) ∧
      ∃ t', installStandard wanted t = ⟨false, fault "fcntl" .badDescriptor, t'⟩ ∧ t.Keeps t') := by
  unfold installStandard
  rw [standardSources_eq]
  rcases @prepareAll_spec t (sourceIn wanted) hs 3 0 t (Nat.le_refl 3) OpenTable.Grown.refl with
    ⟨hhits, origin, t₁, hprepare, hg, -, hp⟩ | ⟨⟨place, -, hlt, hmiss⟩, t₁, herror, hkeeps⟩
  · obtain ⟨t₂, hfill, hplaces, hclosed, hrest⟩ := fill_spec 3 0 t₁ (sourced_of_prepared hs hp)
      fun i hle hlt ↦ (hp i hle hlt).isOpen
    refine .inl ⟨fun place hlt ↦ hhits place (Nat.zero_le _) (by omega), t₂, ?_,
      installed_of_filled hs hg hp hplaces hclosed hrest⟩
    rw [hprepare]
    dsimp only [bind, Except.bind]
    rw [hfill]
  · refine .inr ⟨⟨place, by omega, hmiss⟩, t₁, ?_, hkeeps⟩
    rw [herror]
    rfl

theorem succeeded_iff (hs : t.Standing) (wanted : List Int) :
    (installStandard wanted t).succeeded = true ↔
      ∀ place < 3, ¬ t.Misses (sourceIn wanted) place := by
  rcases installStandard_spec hs wanted with ⟨hhits, t', h, -⟩ | ⟨⟨place, hlt, hmiss⟩, t', h, -⟩
  · simpa [h] using hhits
  · simpa [h] using ⟨place, hlt, hmiss⟩

theorem installed_of_succeeded (hs : t.Standing) (wanted : List Int)
    (h : (installStandard wanted t).succeeded = true) :
    Installed t (sourceIn wanted) (installStandard wanted t).table := by
  rcases installStandard_spec hs wanted with ⟨-, t', heq, hi⟩ | ⟨-, t', heq, -⟩
  · rw [heq]
    exact hi
  · rw [heq] at h
    exact absurd h (by simp)

/-- Some free number has any given count of free ones below it. -/
theorem exists_rank_eq (hs : t.Standing) (count : Nat) :
    ∃ d, t.get? d = none ∧ t.rank d = count := by
  have hgrown : ∃ t', t.Grown count t' := by
    induction count with
    | zero => exact ⟨t, .refl⟩
    | succ count ih =>
      obtain ⟨t', hg⟩ := ih
      exact ⟨_, hg.set hs (Nat.zero_le 3) ⟨.nullReader, false⟩⟩
  obtain ⟨t', hg⟩ := hgrown
  exact ⟨_, hg.free_spec hs (Nat.zero_le 3)⟩

/-- Beside what was open before, a successful installation leaves open the null devices opened for
places without a source, one for each such place, to be kept when a program is executed; all the
copies are closed.  So it leaves open just what was open before exactly if no place is without a
source. -/
theorem installStandard_leaves_nulls (hs : t.Standing) (wanted : List Int)
    (h : (installStandard wanted t).succeeded = true) :
    (∀ d, ((installStandard wanted t).table.get? d).isSome ↔
      (t.get? d).isSome ∨ ∃ place < 3, t.NullAt (sourceIn wanted) place d) ∧
    (∀ place < 3, sourceIn wanted place < 0 → ∃ d, t.NullAt (sourceIn wanted) place d ∧
      (installStandard wanted t).table.get? d = some ⟨nullFor place, false⟩) ∧
    (∀ d, 3 ≤ d → (t.get? d).isSome → (installStandard wanted t).table.get? d = t.get? d) ∧
    ((∀ d, ((installStandard wanted t).table.get? d).isSome = (t.get? d).isSome) ↔
      ∀ place < 3, 0 ≤ sourceIn wanted place) := by
  have hi := installed_of_succeeded hs wanted h
  have hopen : ∀ d, ((installStandard wanted t).table.get? d).isSome ↔
      (t.get? d).isSome ∨ ∃ place < 3, t.NullAt (sourceIn wanted) place d := by
    intro d
    rcases Nat.lt_or_ge d 3 with hplace | hge
    · simp [hi.standing d hplace, hs d hplace]
    cases hd : t.get? d with
    | some e => simp [hi.others d hge (by simp [hd]), hd]
    | none =>
      by_cases hnull : ∃ place < 3, t.NullAt (sourceIn wanted) place d
      · obtain ⟨place, hlt, hat⟩ := hnull
        simp only [hi.nulls place hlt d hat, Option.isSome_some, true_iff]
        exact .inr ⟨place, hlt, hat⟩
      · rw [hi.closed d hd fun place hlt hat ↦ hnull ⟨place, hlt, hat⟩]
        simpa using hnull
  have hnulls : ∀ place < 3, sourceIn wanted place < 0 →
      ∃ d, t.NullAt (sourceIn wanted) place d ∧
        (installStandard wanted t).table.get? d = some ⟨nullFor place, false⟩ := by
    intro place hlt hneg
    obtain ⟨d, hfree, hrank⟩ := exists_rank_eq hs (taken (sourceIn wanted) place)
    exact ⟨d, ⟨hneg, hfree, hrank⟩, hi.nulls place hlt d ⟨hneg, hfree, hrank⟩⟩
  refine ⟨hopen, hnulls, fun d hge hd ↦ hi.others d hge (Option.isSome_iff_ne_none.mp hd),
    fun hsame place hlt ↦ ?_, fun hsources d ↦ ?_⟩
  · by_contra hneg
    obtain ⟨d, hat, hd⟩ := hnulls place hlt (by omega)
    have := hsame d
    rw [hd, hat.free] at this
    exact absurd this (by simp)
  · rw [Bool.eq_iff_iff, hopen d]
    refine ⟨fun hor ↦ hor.resolve_right ?_, .inl⟩
    rintro ⟨place, hlt, hat⟩
    have := hsources place hlt
    have := hat.sourceless
    omega

/-- Where the first place has no source, the null device stays open under number 3. -/
theorem installStandard_leaves_nulls_forReading :
    let t : OpenTable := ⟨[(0, ⟨.named [0x30], true⟩), (1, ⟨.named [0x31], true⟩),
      (2, ⟨.named [0x32], false⟩)]⟩
    t.Standing ∧ (installStandard [-1, 1, 2] t).succeeded = true ∧ t.get? 3 = none ∧
      ((installStandard [-1, 1, 2] t).table.get? 3).isSome := by
  intro t
  have hs : t.Standing := by decide
  have hok : (installStandard [-1, 1, 2] t).succeeded = true := by decide
  obtain ⟨hopen, -⟩ := installStandard_leaves_nulls hs [-1, 1, 2] hok
  exact ⟨hs, hok, rfl, (hopen 3).mpr (.inr ⟨0, by decide, by decide, by decide, by decide⟩)⟩

end Installation

end Conduit.Descriptor
