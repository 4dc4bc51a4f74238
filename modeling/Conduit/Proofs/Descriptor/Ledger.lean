import Mathlib.Tactic.Common
import Conduit.Descriptor.Ledger
import Conduit.Proofs.Lookup

/-!
# One Holder for each Descriptor

Whatever is done with handles, in any order, no two of them hold the same descriptor, and every
closing hits a descriptor that is open, owned and not released.  Numbers may be handed out again, so
a second closing would hit somebody else's descriptor.

The proof looks only at what each name holds.  Every operation is made of few steps on this view: a
name lets go of what it holds, takes what has just been opened, or hands it on to a name that holds
nothing.  The books stay sound under each of them.
-/

namespace Conduit.Descriptor

/-! ## Handles by name -/

namespace Rack

variable (r : Rack) (name other source target : Bytes) (h : Handle)

theorem handle_put : (r.put name h).handle other = if other = name then h else r.handle other := by
  unfold handle get? put
  rw [lookup_put (insert name h) rfl fun _ _ ↦ rfl]
  split <;> rfl

theorem handle_receive :
    (r.receive name h).handle other = if other = name then h else r.handle other :=
  handle_put (r.closing _) name other h

theorem handle_assign :
    (r.assign source target).handle other =
      if source = target then r.handle other
      else if other = source then (r.handle source).emptied
      else if other = target then r.handle source
      else r.handle other := by
  unfold assign
  split
  · rfl
  · rw [handle_put, handle_receive]
    rfl

theorem handle_construct :
    (r.construct source target).handle other =
      if other = target then r.handle source
      else if other = source then (r.handle source).emptied
      else r.handle other := by
  unfold construct
  rw [handle_receive, handle_put]
  rfl

theorem handle_release :
    (r.release name).2.handle other =
      if other = name then (r.handle name).emptied else r.handle other :=
  handle_put r name other _

theorem handle_close :
    (r.close name).handle other =
      if other = name then (r.handle name).close else r.handle other :=
  handle_put (r.closing _) name other _

theorem handle_destroy :
    (r.destroy name).handle other = if other = name then {} else r.handle other := by
  unfold handle get? destroy
  dsimp only
  rw [lookup_erase]
  split <;> rfl

theorem closings_assign :
    (r.assign source target).closings =
      if source = target then r.closings
      else r.closings ++ (r.handle target).closes?.toList := by
  unfold assign
  split <;> rfl

theorem closings_construct :
    (r.construct source target).closings =
      if source = target then r.closings
      else r.closings ++ (r.handle target).closes?.toList := by
  have h := handle_put r source target (r.handle source).emptied
  split
  · next heq =>
    subst heq
    rw [if_pos rfl] at h
    calc (r.construct source source).closings
        = r.closings ++ ((r.put source (r.handle source).emptied).handle source).closes?.toList :=
      rfl
      _ = r.closings := by rw [h]; simp [Handle.closes?, Handle.emptied, Handle.isValid]
  · next hne =>
    rw [if_neg (Ne.symm hne)] at h
    exact congrArg (fun h : Handle ↦ r.closings ++ h.closes?.toList) h

end Rack

/-! ## What a handle holds -/

/-- What a handle holds: a descriptor and whether the handle owns it. -/
def Handle.content (h : Handle) : Option (Int × Bool) :=
  if h.isValid then some (h.descriptor, h.owned) else none

/-- The books after a handle has let go of what it held. -/
def Books.settle (books : Books) : Option (Int × Bool) → Books
  | some (descriptor, true) => books.close descriptor
  | _ => books

section Handle

variable (h : Handle)

@[simp] theorem content_emptied : h.emptied.content = none := rfl

@[simp] theorem content_close : h.close.content = none := by
  unfold Handle.close
  by_cases hv : h.isValid
  · rw [if_pos hv, content_emptied]
  · rw [if_neg hv, Handle.content, if_neg hv]

theorem content_eq_none : h.content = none ↔ h.isValid = false := by
  simp [Handle.content]

theorem closes?_of_content (hc : h.content = none) : h.closes? = none := by
  simp [Handle.closes?, (content_eq_none h).mp hc]

/-- The books follow the closing that a handle asks for. -/
theorem foldl_closes? (books : Books) :
    h.closes?.toList.foldl Books.close books = books.settle h.content := by
  unfold Handle.closes? Handle.content
  cases hv : h.isValid <;> cases ho : h.owned <;> simp [Books.settle]

end Handle

/-! ## Sound books -/

section Sound

variable {ι : Type} {held : ι → Option (Int × Bool)} {books : Books} {n m : ι} {d : Int}
  {owned : Bool}

/-- The books agree with what the names hold. -/
structure Sound (held : ι → Option (Int × Bool)) (books : Books) : Prop where
  /-- What is held is open and has not been released, and its owner is known. -/
  entered : ∀ n d owned, held n = some (d, owned) → books d = some { owned }
  /-- No two names hold one descriptor. -/
  single : ∀ n m d owned other, held n = some (d, owned) → held m = some (d, other) → n = m
  /-- An owned descriptor that is open and has not been released is held. -/
  kept : ∀ d, books d = some { owned := true } → ∃ n, held n = some (d, true)
  /-- No handle closes what is not its own. -/
  spared : ∀ d o, books d = some o → o.owned = false ∨ o.released = true → o.closings = 0
  /-- Nothing is closed twice. -/
  once : ∀ d o, books d = some o → o.closings ≤ 1

namespace Sound

/-- A number that may be handed out is held by nobody. -/
theorem ne_of_available (hs : Sound held books) (hd : books.available d = true)
    {d' : Int} (hn : held n = some (d', owned)) : d' ≠ d := by
  rintro rfl
  simp [Books.available, hs.entered _ _ _ hn] at hd

variable [DecidableEq ι]

/-- A name stops holding a descriptor that is the business of no name from then on. -/
theorem retire (hs : Sound held books) (hn : held n = some (d, owned)) {o : Opening}
    (hkept : o ≠ { owned := true })
    (hspared : o.owned = false ∨ o.released = true → o.closings = 0) (honce : o.closings ≤ 1) :
    Sound (Function.update held n none) fun d' ↦ if d' = d then some o else books d' where
  entered m d' owned' h := by
    have hm : m ≠ n := by grind
    rw [Function.update_of_ne hm] at h
    have hd' : d' ≠ d := fun hd' ↦ hm (hs.single m n d owned' owned (hd' ▸ h) hn)
    exact (if_neg hd').trans (hs.entered m d' owned' h)
  single m m' d' owned' other h h' :=
    hs.single m m' d' owned' other (by grind) (by grind)
  kept d' h := by
    have hd' : d' ≠ d := by grind
    obtain ⟨m, hm⟩ := hs.kept d' (by simpa [hd'] using h)
    exact ⟨m, by grind⟩
  spared d' o' h ho' := by
    by_cases hd' : d' = d
    · grind
    · exact hs.spared d' o' (by simpa [hd'] using h) ho'
  once d' o' h := by
    by_cases hd' : d' = d
    · grind
    · exact hs.once d' o' (by simpa [hd'] using h)

/-- A name lets go of what it holds: an owned descriptor is closed with it. -/
theorem letGo (hs : Sound held books) (n : ι) :
    Sound (Function.update held n none) (books.settle (held n)) := by
  rcases hn : held n with _ | ⟨d, _ | _⟩
  · rwa [Function.update_eq_self_iff.mpr hn.symm]
  · have hbooks : books = fun d' ↦ if d' = d then some { owned := false } else books d' := by
      funext d'
      grind [hs.entered n d false hn]
    have hretired := hs.retire (o := { owned := false }) hn (by simp) (by simp) (by simp)
    rwa [← hbooks] at hretired
  · have hbooks : books.close d =
        fun d' ↦ if d' = d then some { owned := true, closings := 1 } else books d' := by
      funext d'
      grind [Books.close, hs.entered n d true hn]
    rw [Books.settle, hbooks]
    exact hs.retire hn (by simp) (by simp) (by simp)

/-- A name is made to hold nothing, and what it held stays open. -/
theorem release (hs : Sound held books) (hn : held n = some (d, owned)) :
    Sound (Function.update held n none) (books.release d) := by
  have hbooks : books.release d =
      fun d' ↦ if d' = d then some { owned, released := true } else books d' := by
    funext d'
    grind [Books.release, hs.entered n d owned hn]
  rw [hbooks]
  exact hs.retire hn (by simp) (by simp) (by simp)

/-- A name that holds nothing takes a descriptor that has just been opened. -/
theorem take (hs : Sound held books) (owned : Bool) (hn : held n = none)
    (hd : books.available d = true) :
    Sound (Function.update held n (some (d, owned))) (books.enter d owned) where
  entered m d' owned' h := by
    by_cases hm : m = n
    · grind [Books.enter]
    · rw [Function.update_of_ne hm] at h
      exact (if_neg (hs.ne_of_available hd h)).trans (hs.entered m d' owned' h)
  single m m' d' owned' other h h' := by
    have hfresh : ∀ k owned, held k ≠ some (d, owned) :=
      fun _ _ hk ↦ hs.ne_of_available hd hk rfl
    grind [hs.single m m' d' owned' other]
  kept d' h := by
    by_cases hd' : d' = d
    · exact ⟨n, by grind [Books.enter]⟩
    · obtain ⟨m, hm⟩ := hs.kept d' (by simpa [Books.enter, hd'] using h)
      exact ⟨m, by grind⟩
  spared d' o h ho := by
    by_cases hd' : d' = d
    · grind [Books.enter]
    · exact hs.spared d' o (by simpa [Books.enter, hd'] using h) ho
  once d' o h := by
    by_cases hd' : d' = d
    · grind [Books.enter]
    · exact hs.once d' o (by simpa [Books.enter, hd'] using h)

/-- A name hands what it holds on to one that holds nothing. -/
theorem handOn (hs : Sound held books) (n : ι) (hm : held m = none) :
    Sound (Function.update (Function.update held m (held n)) n none) books := by
  by_cases hnm : n = m
  · subst hnm
    rwa [Function.update_idem, Function.update_eq_self_iff.mpr hm.symm]
  · -- Who holds something now held it before, except that `m` stands in for `n`.
    have hbefore : ∀ k c, Function.update (Function.update held m (held n)) n none k = some c →
        held (if k = m then n else k) = some c ∧ k ≠ n := by grind
    exact
      { entered k d owned h := hs.entered _ d owned (hbefore k _ h).1
        single k k' d owned other h h' := by
          grind [hs.single _ _ d owned other (hbefore k _ h).1 (hbefore k' _ h').1]
        kept d h := by
          obtain ⟨k, hk⟩ := hs.kept d h
          exact ⟨if k = n then m else k, by grind⟩
        spared := hs.spared
        once := hs.once }

/-- A handle that takes over from another one lets go of its own descriptor. -/
theorem takeOver (hs : Sound held books) (hne : n ≠ m) :
    Sound (Function.update (Function.update held m (held n)) n none) (books.settle (held m)) := by
  have hgone := (hs.letGo m).handOn n (Function.update_self ..)
  rwa [Function.update_idem, Function.update_of_ne hne] at hgone

end Sound

end Sound

/-! ## Runs -/

/-- What the handle of each name holds. -/
def Rack.held (r : Rack) (name : Bytes) : Option (Int × Bool) := (r.handle name).content

section Held

variable (r : Rack) (name source target : Bytes) (h : Handle)

theorem held_receive : (r.receive name h).held = Function.update r.held name h.content := by
  funext other
  simp only [Rack.held, Rack.handle_receive, Function.update_apply]
  split <;> rfl

theorem held_assign (hne : source ≠ target) :
    (r.assign source target).held =
      Function.update (Function.update r.held target (r.held source)) source none := by
  funext other
  simp only [Rack.held, Rack.handle_assign, Function.update_apply, if_neg hne]
  split
  · rfl
  · split <;> rfl

theorem held_construct (hne : source ≠ target) :
    (r.construct source target).held =
      Function.update (Function.update r.held target (r.held source)) source none := by
  funext other
  simp only [Rack.held, Rack.handle_construct, Function.update_apply]
  by_cases hs : other = source
  · rw [if_neg fun ht ↦ hne (hs.symm.trans ht), if_pos hs, if_pos hs, content_emptied]
  · rw [if_neg hs, if_neg hs]
    split <;> rfl

theorem held_construct_self : (r.construct name name).held = r.held := by
  funext other
  simp only [Rack.held, Rack.handle_construct]
  split
  · next h => rw [h]
  · rfl

theorem held_release : (r.release name).2.held = Function.update r.held name none := by
  funext other
  simp only [Rack.held, Rack.handle_release, Function.update_apply]
  split <;> rfl

theorem held_close : (r.close name).held = Function.update r.held name none := by
  funext other
  simp only [Rack.held, Rack.handle_close, Function.update_apply]
  split
  · exact content_close _
  · rfl

theorem held_destroy : (r.destroy name).held = Function.update r.held name none := by
  funext other
  simp only [Rack.held, Rack.handle_destroy, Function.update_apply]
  split <;> rfl

end Held

/-- Opening a descriptor and closing another may be done in either order. -/
theorem settle_enter {books : Books} {held : Option (Int × Bool)} {d : Int} {owned : Bool}
    (hne : ∀ other owner, held = some (other, owner) → other ≠ d) :
    (books.enter d owned).settle held = (books.settle held).enter d owned := by
  rcases held with _ | ⟨other, _ | _⟩
  · rfl
  · rfl
  · have hother := hne other true rfl
    funext d'
    simp only [Books.settle, Books.close, Books.enter]
    grind

theorem available_settle {books : Books} {held : Option (Int × Bool)} {d : Int}
    (hne : ∀ other owner, held = some (other, owner) → other ≠ d)
    (hd : books.available d = true) : (books.settle held).available d = true := by
  rcases held with _ | ⟨other, _ | _⟩
  · exact hd
  · exact hd
  · have hother := (hne other true rfl).symm
    simpa [Books.settle, Books.available, Books.close, hother] using hd

namespace Ledger

variable {s : Ledger} {op : Operation}

/-- The books of a ledger agree with its rack, and the names counted as emptied hold nothing. -/
structure Sound (s : Ledger) : Prop where
  books : Descriptor.Sound s.rack.held s.books
  emptied : ∀ name ∈ s.emptied, s.rack.held name = none

/-- Closing what one handle asks for is what the books see of an operation. -/
theorem books_perform (s : Ledger) (op : Operation) {h : Handle}
    (hclosings : (op.apply s.rack).closings = s.rack.closings ++ h.closes?.toList) :
    (s.perform op).books = (s.announce op).settle h.content := by
  rw [perform]
  dsimp only
  rw [hclosings, List.drop_left, foldl_closes?]

/-- The books see nothing of an operation that closes nothing. -/
theorem books_perform_of_closings (s : Ledger) (op : Operation)
    (hclosings : (op.apply s.rack).closings = s.rack.closings) :
    (s.perform op).books = s.announce op := by
  rw [perform]
  dsimp only
  rw [hclosings, List.drop_length, List.foldl_nil]

/-- Every operation keeps the books sound. -/
theorem Sound.books_perform (hs : Descriptor.Sound s.rack.held s.books) (hop : s.Admits op) :
    Descriptor.Sound (op.apply s.rack).held (s.perform op).books := by
  cases op with
  | adopt name descriptor owned =>
    obtain ⟨hvalid, havailable⟩ := hop
    have hne : ∀ other owner, s.rack.held name = some (other, owner) → other ≠ descriptor :=
      fun _ _ h ↦ hs.ne_of_available havailable h
    have hcontent : Handle.content { descriptor, owned } = some (descriptor, owned) := by
      simp [Handle.content, Handle.isValid, hvalid]
    have htaken := (hs.letGo name).take owned (Function.update_self ..)
      (available_settle hne havailable)
    rw [Function.update_idem, ← settle_enter hne] at htaken
    rw [Ledger.books_perform s (.adopt name descriptor owned) (h := s.rack.handle name) rfl,
      Operation.apply, held_receive, hcontent]
    exact htaken
  | blank name h =>
    rw [Ledger.books_perform s (.blank name h) (h := s.rack.handle name) rfl, Operation.apply,
      held_receive, (content_eq_none h).mpr hop]
    exact hs.letGo name
  | assign source target =>
    have hclosings := Rack.closings_assign s.rack source target
    split at hclosings
    · next heq =>
      rw [books_perform_of_closings s (.assign source target) hclosings, Operation.apply,
        Rack.assign, if_pos heq]
      exact hs
    · next hne =>
      rw [Ledger.books_perform s (.assign source target) hclosings, Operation.apply,
        held_assign _ _ _ hne]
      exact hs.takeOver hne
  | construct source target =>
    have hclosings := Rack.closings_construct s.rack source target
    split at hclosings
    · next heq =>
      subst heq
      rw [books_perform_of_closings s (.construct source source) hclosings, Operation.apply,
        held_construct_self]
      exact hs
    · next hne =>
      rw [Ledger.books_perform s (.construct source target) hclosings, Operation.apply,
        held_construct _ _ _ hne]
      exact hs.takeOver hne
  | release name =>
    rw [books_perform_of_closings s (.release name) rfl, Operation.apply, held_release]
    unfold announce
    dsimp only
    split
    · next hvalid =>
      have hheld : s.rack.held name =
          some ((s.rack.handle name).descriptor, (s.rack.handle name).owned) := if_pos hvalid
      exact hs.release hheld
    · next hvalid =>
      have hnone : s.rack.held name = none := if_neg hvalid
      rwa [Function.update_eq_self_iff.mpr hnone.symm]
  | close name =>
    rw [Ledger.books_perform s (.close name) (h := s.rack.handle name) rfl, Operation.apply,
      held_close]
    exact hs.letGo name
  | destroy name =>
    rw [Ledger.books_perform s (.destroy name) (h := s.rack.handle name) rfl, Operation.apply,
      held_destroy]
    exact hs.letGo name

/-- A name that an operation empties holds nothing after it. -/
theorem held_of_emptied {name : Bytes} (hname : name ∈ op.emptied) :
    (op.apply s.rack).held name = none := by
  cases op with
  | assign source target =>
    by_cases hne : source = target <;> simp [Operation.emptied, hne] at hname
    rw [Operation.apply, held_assign _ _ _ hne, hname, Function.update_self]
  | construct source target =>
    by_cases hne : source = target <;> simp [Operation.emptied, hne] at hname
    rw [Operation.apply, held_construct _ _ _ hne, hname, Function.update_self]
  | release other =>
    rw [List.mem_singleton.mp hname, Operation.apply, held_release, Function.update_self]
  | close other =>
    rw [List.mem_singleton.mp hname, Operation.apply, held_close, Function.update_self]
  | adopt | blank | destroy => cases hname

/-- A name that held nothing and is given nothing still holds nothing. -/
theorem held_of_not_renewed {name : Bytes} (hname : name ∉ op.renewed)
    (hheld : s.rack.held name = none) : (op.apply s.rack).held name = none := by
  cases op with
  | adopt other | blank other =>
    have hne : name ≠ other := fun h ↦ hname (List.mem_singleton.mpr h)
    rw [Operation.apply, held_receive, Function.update_of_ne hne, hheld]
  | assign source target =>
    by_cases heq : source = target
    · rwa [Operation.apply, Rack.assign, if_pos heq]
    · have hne : name ≠ target := fun h ↦ hname (by simp [Operation.renewed, heq, h])
      rw [Operation.apply, held_assign _ _ _ heq]
      grind
  | construct source target =>
    have hne : name ≠ target := fun h ↦ hname (List.mem_singleton.mpr h)
    by_cases heq : source = target
    · subst heq
      rwa [Operation.apply, held_construct_self]
    · rw [Operation.apply, held_construct _ _ _ heq]
      grind
  | release other => rw [Operation.apply, held_release]; grind
  | close other => rw [Operation.apply, held_close]; grind
  | destroy other => rw [Operation.apply, held_destroy]; grind

theorem Sound.perform (hs : s.Sound) (hop : s.Admits op) : (s.perform op).Sound where
  books := Sound.books_perform hs.books hop
  emptied name hname := by
    rcases List.mem_append.mp hname with hname | hname
    · exact held_of_emptied hname
    · obtain ⟨hbefore, hrenewed⟩ := List.mem_filter.mp hname
      exact held_of_not_renewed (by simpa using hrenewed) (hs.emptied name hbefore)

/-- Every ledger that operations lead to is sound. -/
theorem Run.sound {ops : List Operation} {s : Ledger} (h : Run ops s) : s.Sound := by
  induction h with
  | start =>
    exact
      { books :=
          { entered := by simp [Rack.held, Rack.handle, Rack.get?, Handle.content, Handle.isValid]
            single := by simp [Rack.held, Rack.handle, Rack.get?, Handle.content, Handle.isValid]
            kept := by simp
            spared := by simp
            once := by simp }
        emptied := by simp }
  | step _ hop ih => exact ih.perform hop

theorem holds_iff {name : Bytes} {d : Int} :
    s.Holds name d ↔ s.rack.held name = some (d, (s.rack.handle name).owned) := by
  simp [Holds, Rack.held, Handle.content]

/-- **Single ownership.**  Whatever is done with handles, no descriptor is held by two of them; what
is held is open and has not been released; an owned descriptor is open exactly as long as a handle
holds it or it has been released; nothing is closed twice, nor by handles that do not own it or have
released it; and a handle that was moved from, released or closed holds nothing, so that destroying
it closes nothing. -/
theorem Run.single_ownership {ops : List Operation} {s : Ledger} (hrun : Run ops s) :
    (∀ m n d, s.Holds m d → s.Holds n d → m = n) ∧
    (∀ n d, s.Holds n d → s.books d = some { owned := (s.rack.handle n).owned }) ∧
    (∀ d o, s.books d = some o → o.owned = true →
      (o.closings = 0 ↔ (∃ n, s.Holds n d) ∨ o.released = true)) ∧
    (∀ d o, s.books d = some o →
      o.closings ≤ 1 ∧ (o.owned = false ∨ o.released = true → o.closings = 0)) ∧
    ∀ n ∈ s.emptied,
      (s.rack.handle n).isValid = false ∧ (s.rack.destroy n).closings = s.rack.closings := by
  have hs := hrun.sound
  refine ⟨fun m n d hm hn ↦ ?single, fun n d hn ↦ ?entered, fun d o ho howned ↦ ?opened,
    fun d o ho ↦ ⟨hs.books.once d o ho, hs.books.spared d o ho⟩, fun n hn ↦ ?emptied⟩
  case single => exact hs.books.single m n d _ _ (holds_iff.mp hm) (holds_iff.mp hn)
  case entered => exact hs.books.entered n d _ (holds_iff.mp hn)
  case opened =>
    constructor
    · intro hopen
      by_cases hreleased : o.released = true
      · exact .inr hreleased
      · have ho' : s.books d = some { owned := true } := by
          obtain ⟨_, _, _⟩ := o
          simp_all
        obtain ⟨n, hn⟩ := hs.books.kept d ho'
        refine .inl ⟨n, ?_⟩
        unfold Rack.held Handle.content at hn
        split at hn
        · next hvalid => exact ⟨hvalid, by simp_all⟩
        · cases hn
    · rintro (⟨n, hn⟩ | hreleased)
      · have hentered := hs.books.entered n d _ (holds_iff.mp hn)
        rw [Option.some.inj (ho.symm.trans hentered)]
      · exact hs.books.spared d o ho (.inr hreleased)
  case emptied =>
    have hnone := hs.emptied n hn
    refine ⟨(content_eq_none _).mp hnone, ?_⟩
    calc (s.rack.destroy n).closings
        = s.rack.closings ++ (s.rack.handle n).closes?.toList := rfl
      _ = s.rack.closings := by rw [closes?_of_content _ hnone]; simp

/-- A number that is handed out again after its handle was given another descriptor belongs to its
new handle, and the empty handle that is then closed leaves it alone. -/
theorem Run.single_ownership_reusedNumber :
    ∃ s : Ledger,
      Run [.adopt [1] 5 true, .adopt [2] 6 true, .assign [2] [1], .assign [1] [1],
        .adopt [3] 5 true, .close [2], .release [1]] s ∧
      s.rack.closings = [5] ∧ [2] ∈ s.emptied ∧ s.Holds [3] 5 ∧
      (∀ n, s.Holds [3] 5 → s.Holds n 5 → [3] = n) ∧
      (s.rack.handle [2]).isValid = false ∧ (s.rack.destroy [2]).closings = [5] := by
  have hreused :=
    @Run.step _ _ (.adopt [3] 5 true)
      (@Run.step _ _ (.assign [1] [1])
        (@Run.step _ _ (.assign [2] [1])
          (@Run.step _ _ (.adopt [2] 6 true)
            (@Run.step _ _ (.adopt [1] 5 true) .start (by decide)) (by decide)) trivial) trivial)
      (by decide)
  have hrun := @Run.step _ _ (.release [1]) (@Run.step _ _ (.close [2]) hreused trivial) trivial
  obtain ⟨hsingle, -, -, -, hempty⟩ := Run.single_ownership hrun
  obtain ⟨hinvalid, hclosings⟩ := hempty [2] (by decide)
  exact ⟨_, hrun, by decide, by decide, ⟨by decide, by decide⟩, fun n ↦ hsingle [3] n 5, hinvalid,
    hclosings⟩

end Ledger

end Conduit.Descriptor
