import Conduit.Holding
import Conduit.Proofs.Holding.Streams
import Conduit.Proofs.Ownership

/-!
# References, Forks and Channels

What making, forking, closing and dropping endpoints, one by one or by the vector, does to other
things than the number of holders: the references that each endpoint counts, which channels are
closed, whether endpoints close their channels, and whether streams are owned.
-/

namespace Conduit

namespace World

variable {w w' w'' : World} {id other : EndpointId}

/-! ## References -/

/-- The number of references that an endpoint counts; none if it does not exist. -/
def referenceCount (w : World) (id : EndpointId) : Nat :=
  ((w.endpoints.get? id).map Endpoint.references).getD 0

theorem referenceCount_of_endpoints (h : w'.endpoints = w.endpoints) (id : EndpointId) :
    w'.referenceCount id = w.referenceCount id := by
  rw [referenceCount, h, referenceCount]

/-- Changing an endpoint changes the references that it counts, and no others. -/
theorem referenceCount_modify {f : Endpoint → Endpoint} {g : Nat → Nat}
    (h : w'.endpoints = w.endpoints.modify id f) (hf : ∀ e, (f e).references = g e.references)
    (other : EndpointId) :
    w'.referenceCount other =
      if id = other ∧ (w.endpoints.get? id).isSome then g (w.referenceCount other)
      else w.referenceCount other := by
  rw [referenceCount, h, Table.get?_modify, referenceCount]
  by_cases hid : id = other
  · subst hid
    cases he : w.endpoints.get? id <;> simp [hf]
  · simp [hid]

theorem referenceCount_newEndpoint (w : World) (e : Endpoint) (id : EndpointId) :
    (w.newEndpoint e).2.referenceCount id =
      w.referenceCount id + if id = w.endpoints.size then e.references else 0 := by
  rw [referenceCount, newEndpoint_endpoints, referenceCount]
  rcases Nat.lt_trichotomy id w.endpoints.size with hlt | heq | hgt
  · rw [Table.get?_push_of_lt hlt, if_neg (Nat.ne_of_lt hlt), Nat.add_zero]
  · rw [heq, Table.get?_push_size, Table.get?_eq_none_of_le (Nat.le_refl _)]
    simp
  · rw [if_neg (Nat.ne_of_gt hgt), Table.get?_eq_none_of_le (by rw [Table.size_push]; omega),
      Table.get?_eq_none_of_le (by omega)]
    rfl

theorem referenceCount_referTo (h : 0 < w.referenceCount id) (other : EndpointId) :
    (w.referTo id).referenceCount other =
      w.referenceCount other + if id = other then 1 else 0 := by
  have hexists : (w.endpoints.get? id).isSome := by
    cases he : w.endpoints.get? id
    · simp [referenceCount, he] at h
    · rfl
  have hendpoints : (w.referTo id).endpoints =
      w.endpoints.modify id fun e ↦ { e with references := e.references + 1 } := rfl
  rw [referenceCount_modify (g := (· + 1)) hendpoints fun _ ↦ rfl]
  split <;> simp_all

theorem referenceCount_closeEndpoint (w : World) (id other : EndpointId) :
    (w.closeEndpoint id).referenceCount other = w.referenceCount other := by
  rw [referenceCount_modify (g := fun n ↦ n) (closeEndpoint_endpoints w id) fun _ ↦ rfl]
  exact ite_self _

theorem referenceCount_dropEndpoint (w : World) (id other : EndpointId) :
    (w.dropEndpoint id).referenceCount other =
      w.referenceCount other - if id = other then 1 else 0 := by
  have hcount : w.referenceCount id ≤ (w.endpoint id).references := by
    cases he : w.endpoints.get? id <;> simp [referenceCount, World.endpoint, he]
  have hnone : (w.endpoints.get? id).isSome = false → w.referenceCount id = 0 := by
    cases he : w.endpoints.get? id <;> simp [referenceCount, he]
  by_cases hle : (w.endpoint id).references ≤ 1
  · have hendpoints : (w.dropEndpoint id).endpoints = w.endpoints.modify id fun e ↦
        { e with stream := none, channel := none, references := 0 } := by
      rw [dropEndpoint_of_le hle, cleared]
    rw [referenceCount_modify (g := fun _ ↦ 0) hendpoints fun _ ↦ rfl]
    grind
  · have hendpoints : (w.dropEndpoint id).endpoints = w.endpoints.modify id fun e ↦
        { e with references := e.references - 1 } := by
      rw [dropEndpoint_of_lt (by omega)]
    rw [referenceCount_modify (g := (· - 1)) hendpoints fun _ ↦ rfl]
    grind

/-- Forks count one reference each. -/
theorem referenceCount_forkEndpoints (w : World) (endpoints : List (Option EndpointId))
    (id : EndpointId) :
    (w.forkEndpoints endpoints).2.referenceCount id =
      w.referenceCount id + (w.forkEndpoints endpoints).1.count (some id) := by
  induction endpoints generalizing w with
  | nil => rfl
  | cons e rest ih =>
    cases e with
    | none =>
      change (w.forkEndpoints rest).2.referenceCount id = _
      rw [ih]
      simp [forkEndpoints]
    | some other =>
      change ((w.forkEndpoint other).2.forkEndpoints rest).2.referenceCount id = _
      have hfork : (w.forkEndpoint other).2.referenceCount id =
          w.referenceCount id + if id = w.endpoints.size then 1 else 0 :=
        referenceCount_newEndpoint w _ id
      have hcount : (w.forkEndpoints (some other :: rest)).1.count (some id) =
          ((w.forkEndpoint other).2.forkEndpoints rest).1.count (some id) +
            if id = w.endpoints.size then 1 else 0 := by
        change (some (w.forkEndpoint other).1 ::
          ((w.forkEndpoint other).2.forkEndpoints rest).1).count (some id) = _
        rw [List.count_cons, forkEndpoint, newEndpoint_fst]
        by_cases hid : id = w.endpoints.size
        · simp [hid]
        · simp [hid, Ne.symm hid]
      rw [ih, hfork, hcount]
      omega

theorem referenceCount_referToAll {endpoints : List (Option EndpointId)}
    (h : ∀ id, some id ∈ endpoints → 0 < w.referenceCount id) (id : EndpointId) :
    (w.referToAll endpoints).referenceCount id =
      w.referenceCount id + endpoints.count (some id) := by
  induction endpoints generalizing w with
  | nil => rfl
  | cons e rest ih =>
    cases e with
    | none =>
      have hrest := ih fun id hid ↦ h id (List.mem_cons_of_mem _ hid)
      have hne : none ≠ some id := nofun
      rw [List.count_cons_of_ne hne]
      exact hrest
    | some other =>
      have hother := h other List.mem_cons_self
      have hrest := ih (w := w.referTo other) fun id hid ↦ by
        have hbefore := h id (List.mem_cons_of_mem _ hid)
        rw [referenceCount_referTo hother]
        omega
      change ((w.referTo other).referToAll rest).referenceCount id = _
      rw [hrest, referenceCount_referTo hother, List.count_cons]
      simp
      omega

theorem referenceCount_closeEndpoints (w : World) (endpoints : List (Option EndpointId))
    (id : EndpointId) : (w.closeEndpoints endpoints).referenceCount id = w.referenceCount id := by
  unfold closeEndpoints
  induction endpoints generalizing w with
  | nil => rfl
  | cons e rest ih =>
    cases e with
    | none => exact ih w
    | some other => exact (ih _).trans (referenceCount_closeEndpoint w other id)

theorem referenceCount_dropEndpoints (w : World) (endpoints : List (Option EndpointId))
    (id : EndpointId) :
    (w.dropEndpoints endpoints).referenceCount id =
      w.referenceCount id - endpoints.count (some id) := by
  unfold dropEndpoints
  induction endpoints generalizing w with
  | nil => rfl
  | cons e rest ih =>
    rw [List.foldl_cons]
    cases e with
    | none => simpa using ih w
    | some other =>
      rw [Option.elim_some, ih, referenceCount_dropEndpoint, List.count_cons]
      simp
      omega

theorem referenceCount_setEndpoint (w : World) (endpoints : List (Option EndpointId)) (n : Nat)
    (e : Option EndpointId) (id : EndpointId) :
    (w.setEndpoint endpoints n e).2.referenceCount id =
      w.referenceCount id - if slot (grow endpoints (n + 1)) n = some id then 1 else 0 := by
  unfold World.setEndpoint
  dsimp only
  cases slot (grow endpoints (n + 1)) n with
  | none => simp
  | some old => simp [referenceCount_dropEndpoint]

/-! ## Channels -/

/-- Closing an endpoint closes a channel: the endpoint is marked for it and still holds it. -/
def Closes (w : World) (id : EndpointId) (channel : ChannelId) : Prop :=
  (w.endpoint id).closesChannel = true ∧ (w.endpoint id).channel = some channel

/-- Every channel of the first state is in the second one, and the ones with a property have been
closed in between, and no others. -/
def ClosesExactly (P : ChannelId → Prop) (w w' : World) : Prop :=
  ∀ channel line, w.channels.get? channel = some line →
    ∃ line', w'.channels.get? channel = some line' ∧
      (line'.channel.closed = true ↔ line.channel.closed = true ∨ P channel)

theorem closeEndpoint_endpoint (w : World) (id other : EndpointId) :
    (w.closeEndpoint id).endpoint other =
      if id = other then emptied (w.endpoint other) else w.endpoint other := by
  rw [World.endpoint, closeEndpoint_endpoints, Table.get?_modify, World.endpoint]
  split
  · cases w.endpoints.get? other <;> rfl
  · rfl

namespace ClosesExactly

variable {P Q : ChannelId → Prop}

theorem of_channels (h : w'.channels = w.channels) : ClosesExactly (fun _ ↦ False) w w' :=
  fun _ line hline ↦ ⟨line, by rw [h, hline], by simp⟩

theorem mono (h : ClosesExactly P w w') (hPQ : ∀ channel, P channel ↔ Q channel) :
    ClosesExactly Q w w' := by
  intro channel line hline
  obtain ⟨line', hline', hclosed⟩ := h channel line hline
  exact ⟨line', hline', by rw [hclosed, hPQ]⟩

theorem trans (h : ClosesExactly P w w') (h' : ClosesExactly Q w' w'') :
    ClosesExactly (fun channel ↦ P channel ∨ Q channel) w w'' := by
  intro channel line hline
  obtain ⟨line', hline', hclosed⟩ := h channel line hline
  obtain ⟨line'', hline'', hclosed'⟩ := h' channel line' hline'
  exact ⟨line'', hline'', by rw [hclosed', hclosed, or_assoc]⟩

theorem closeEndpoint (w : World) (id : EndpointId) :
    ClosesExactly (w.Closes id) w (w.closeEndpoint id) := by
  have hsame : (w.releaseStream (w.endpoint id).stream).channels = w.channels := by
    cases (w.endpoint id).stream <;> rfl
  intro channel line hline
  unfold World.closeEndpoint Closes
  dsimp only
  split
  · next closed hcloses hchannel =>
    rw [closeChannel, modifyChannel, hsame]
    dsimp only
    rw [Table.get?_modify, hline, hcloses, hchannel]
    by_cases h : closed = channel
    · simp [h, Channel.close]
    · simp [h]
  · next hnone =>
    rw [hsame]
    refine ⟨line, hline, ?_⟩
    have hnever : ¬((w.endpoint id).closesChannel = true ∧
        (w.endpoint id).channel = some channel) := fun h ↦ hnone channel h.1 h.2
    simp [hnever]

/-- Closing the endpoints of a vector closes the channels of those that are marked for it. -/
theorem closeEndpoints (w : World) (endpoints : List (Option EndpointId)) :
    ClosesExactly (fun channel ↦ ∃ id, some id ∈ endpoints ∧ w.Closes id channel) w
      (w.closeEndpoints endpoints) := by
  unfold World.closeEndpoints
  induction endpoints generalizing w with
  | nil => exact (of_channels rfl).mono (by simp)
  | cons e rest ih =>
    cases e with
    | none => exact (ih w).mono (by simp)
    | some id =>
      refine ((closeEndpoint w id).trans (ih (w.closeEndpoint id))).mono fun channel ↦ ?_
      -- An endpoint that stands in the vector again has nothing left to close.
      have hlater : ∀ other, (w.closeEndpoint id).Closes other channel ↔
          id ≠ other ∧ w.Closes other channel := by
        intro other
        unfold Closes
        rw [closeEndpoint_endpoint]
        split <;> simp_all [emptied]
      simp only [hlater, List.mem_cons, Option.some.injEq]
      grind

end ClosesExactly

theorem referToAll_channels (w : World) (endpoints : List (Option EndpointId)) :
    (w.referToAll endpoints).channels = w.channels := by
  unfold referToAll
  induction endpoints generalizing w with
  | nil => rfl
  | cons e rest ih => cases e <;> exact (ih _).trans rfl

theorem forkEndpoints_channels (w : World) (endpoints : List (Option EndpointId)) :
    (w.forkEndpoints endpoints).2.channels = w.channels := by
  induction endpoints generalizing w with
  | nil => rfl
  | cons e rest ih =>
    cases e with
    | none => exact ih w
    | some id => exact (ih _).trans (newEndpoint_channels w _)

theorem dropEndpoint_channels (w : World) (id : EndpointId) :
    (w.dropEndpoint id).channels = w.channels := by
  by_cases hle : (w.endpoint id).references ≤ 1
  · rw [dropEndpoint_of_le hle, cleared]
    cases (w.endpoint id).stream <;> rfl
  · rw [dropEndpoint_of_lt (by omega)]

theorem dropEndpoints_channels (w : World) (endpoints : List (Option EndpointId)) :
    (w.dropEndpoints endpoints).channels = w.channels := by
  unfold dropEndpoints
  induction endpoints generalizing w with
  | nil => rfl
  | cons e rest ih =>
    cases e with
    | none => exact ih w
    | some id => exact (ih _).trans (dropEndpoint_channels w id)

theorem setEndpoint_channels (w : World) (endpoints : List (Option EndpointId)) (n : Nat)
    (e : Option EndpointId) : (w.setEndpoint endpoints n e).2.channels = w.channels := by
  unfold World.setEndpoint
  dsimp only
  cases slot (grow endpoints (n + 1)) n with
  | none => rfl
  | some id => exact dropEndpoint_channels w id

/-! ## Forks -/

/-- An endpoint exists and leaves its channel open when it is closed. -/
def SparesChannel (w : World) (id : EndpointId) : Prop :=
  ∃ e, w.endpoints.get? id = some e ∧ e.closesChannel = false

theorem SparesChannel.after (h : w.SparesChannel id) (hloses : Loses w w') :
    w'.SparesChannel id := by
  obtain ⟨e, he, hspares⟩ := h
  obtain ⟨e', he', hsame, -⟩ := hloses id e he
  exact ⟨e', he', hsame.trans hspares⟩

theorem Loses.newEndpoint (w : World) (e : Endpoint) : Loses w (w.newEndpoint e).2 := by
  intro id e' he'
  refine ⟨e', ?_, rfl, fun _ h ↦ h⟩
  rw [newEndpoint_endpoints, Table.get?_push_of_lt (Table.lt_size_of_get? he'), he']

theorem Loses.referTo (w : World) (id : EndpointId) : Loses w (w.referTo id) :=
  .of_modify id (f := fun e ↦ { e with references := e.references + 1 }) rfl
    fun _ ↦ ⟨rfl, fun _ h ↦ h⟩

theorem sparesChannel_forkEndpoint (w : World) (id : EndpointId) :
    (w.forkEndpoint id).2.SparesChannel (w.forkEndpoint id).1 := by
  refine ⟨{ stream := (w.endpoint id).stream, channel := (w.endpoint id).channel }, ?_, rfl⟩
  rw [forkEndpoint, newEndpoint_fst, newEndpoint_endpoints, Table.get?_push_size]

theorem sparesChannel_forkEndpoints (w : World) (endpoints : List (Option EndpointId)) :
    ∀ id, some id ∈ (w.forkEndpoints endpoints).1 →
      (w.forkEndpoints endpoints).2.SparesChannel id := by
  induction endpoints generalizing w with
  | nil => nofun
  | cons e rest ih =>
    intro id hid
    cases e with
    | none => exact ih w id (by simpa [forkEndpoints] using hid)
    | some other =>
      rcases List.mem_cons.mp hid with hid | hid
      · rw [Option.some.inj hid]
        exact (sparesChannel_forkEndpoint w other).after (.of_steady (Steady.forkEndpoints _ rest))
      · exact ih _ id hid

/-! ## Owned streams -/

/-- Every stream of the first state is in the second one, and is owned there if it is here. -/
abbrev KeepsOwners (w w' : World) : Prop := Table.Kept Stream.owned w.streams w'.streams

theorem owned_release (st : Stream) : st.release.owned = st.owned := by
  unfold Stream.release
  split <;> rfl

namespace KeepsOwners

theorem releaseStream (w : World) (sid : Option StreamId) :
    KeepsOwners w (w.releaseStream sid) := by
  cases sid with
  | none => exact .refl _
  | some sid => exact .modify fun st _ ↦ owned_release st

theorem newEndpoint (w : World) (e : Endpoint) : KeepsOwners w (w.newEndpoint e).2 := by
  change Table.Kept Stream.owned w.streams (w.holdStream e.stream).streams
  cases e.stream with
  | none => exact .refl _
  | some sid => exact .modify fun _ _ ↦ rfl

theorem closeEndpoint (w : World) (id : EndpointId) : KeepsOwners w (w.closeEndpoint id) := by
  rw [KeepsOwners, closeEndpoint_streams]
  exact releaseStream w _

theorem dropEndpoint (w : World) (id : EndpointId) : KeepsOwners w (w.dropEndpoint id) := by
  by_cases hle : (w.endpoint id).references ≤ 1
  · rw [dropEndpoint_of_le hle]
    exact releaseStream w _
  · rw [dropEndpoint_of_lt (by omega)]
    exact .refl _

end KeepsOwners

/-! ## Single moves -/

/-- An order on states that making, referring to, closing and dropping single endpoints moves along.
-/
structure Moves (R : World → World → Prop) : Prop where
  refl : ∀ w, R w w
  trans : ∀ {w w' w''}, R w w' → R w' w'' → R w w''
  newChannel : ∀ w line, R w (w.newChannel line).2
  newStream : ∀ w device owned, R w (w.newStream device owned).2
  newEndpoint : ∀ w e, R w (w.newEndpoint e).2
  referTo : ∀ w id, R w (w.referTo id)
  closeEndpoint : ∀ w id, R w (w.closeEndpoint id)
  dropEndpoint : ∀ w id, R w (w.dropEndpoint id)

theorem Loses.moves : Moves Loses where
  refl := Loses.refl
  trans := Loses.trans
  newChannel _ _ := fun _ e he ↦ ⟨e, he, rfl, fun _ h ↦ h⟩
  newStream _ _ _ := fun _ e he ↦ ⟨e, he, rfl, fun _ h ↦ h⟩
  newEndpoint := Loses.newEndpoint
  referTo := Loses.referTo
  closeEndpoint := Loses.closeEndpoint
  dropEndpoint := Loses.dropEndpoint

theorem KeepsOwners.moves : Moves KeepsOwners where
  refl _ := .refl _
  trans := Table.Kept.trans
  newChannel _ _ := .refl _
  newStream _ _ _ := .push _ _
  newEndpoint := KeepsOwners.newEndpoint
  referTo _ _ := .refl _
  closeEndpoint := KeepsOwners.closeEndpoint
  dropEndpoint := KeepsOwners.dropEndpoint

namespace Moves

variable {R : World → World → Prop}

theorem foldl (h : Moves R) {step : World → EndpointId → World} (hstep : ∀ w id, R w (step w id))
    (endpoints : List (Option EndpointId)) (w : World) :
    R w (endpoints.foldl (fun w e ↦ e.elim w (step w)) w) := by
  induction endpoints generalizing w with
  | nil => exact h.refl w
  | cons e rest ih =>
    cases e with
    | none => exact ih w
    | some id => exact h.trans (hstep w id) (ih _)

theorem forkEndpoints (h : Moves R) (w : World) (endpoints : List (Option EndpointId)) :
    R w (w.forkEndpoints endpoints).2 := by
  induction endpoints generalizing w with
  | nil => exact h.refl w
  | cons e rest ih =>
    cases e with
    | none => exact ih w
    | some id => exact h.trans (h.newEndpoint w _) (ih _)

theorem setEndpoint (h : Moves R) (w : World) (endpoints : List (Option EndpointId)) (n : Nat)
    (e : Option EndpointId) : R w ((e.elim w w.referTo).setEndpoint endpoints n e).2 := by
  have hreferred : R w (e.elim w w.referTo) := by
    cases e with
    | none => exact h.refl w
    | some id => exact h.referTo w id
  refine h.trans hreferred ?_
  unfold World.setEndpoint
  dsimp only
  cases slot (grow endpoints (n + 1)) n with
  | none => exact h.refl _
  | some id => exact h.dropEndpoint _ id

end Moves

end World

end Conduit
