import Conduit.Proofs.Holding.Streams
import Conduit.Proofs.Ownership

/-!
# Lent Streams

Whoever makes endpoints over streams that were there before borrows these streams.  A state returns
what it has borrowed from an earlier one if no endpoint made since refers to a stream of the earlier
state; then each of these streams has as many holders as it had, and one that has lost its last
holder on the way is closed.

Only forks borrow: the other endpoints that evaluation makes are for streams that are new.  So it is
enough to keep an eye on the forks until they have been closed or dropped.
-/

namespace Conduit

/-! ## Streams that close with their last holder -/

/-- The stream is owned, and has a holder left or is closed. -/
def Stream.Guarded (s : Stream) : Prop := s.owned = true ∧ (0 < s.holders ∨ s.closed = true)

namespace Stream.Guarded

variable {s s' : Stream}

theorem hold (h : s.Guarded) : s.hold.Guarded := ⟨h.1, .inl (Nat.succ_pos _)⟩

theorem release (h : s.Guarded) : s.release.Guarded := by
  unfold Stream.release
  split
  · refine ⟨h.1, .inr ?_⟩
    rw [h.1, Bool.or_true]
  · exact ⟨h.1, .inl (by simp only; omega)⟩

/-- A stream without holders has been closed. -/
theorem closed (h : s.Guarded) (hholders : s.holders = 0) : s.closed = true :=
  h.2.resolve_left (Nat.not_lt_of_le (Nat.le_of_eq hholders))

end Stream.Guarded

namespace World

variable {w w₀ w' w'' : World} {held endpoints : List (Option EndpointId)} {id : EndpointId}

/-! ## Accounts of holders -/

/-- Every stream of the first state has gained as many holders as endpoints that refer to it, as far
as the first state is counted; and if it has lost its last holder it is closed. -/
structure Accounts (w w' : World) : Prop where
  counted : w.Counted → w'.Counted
  balance : w.Counted → ∀ sid, sid < w.streams.size →
    w'.holders sid + w.references sid = w.holders sid + w'.references sid
  guarded : Table.Follows (fun s s' ↦ s.Guarded → s'.Guarded) w.streams w'.streams

namespace Accounts

theorem size_le (h : Accounts w w') : w.streams.size ≤ w'.streams.size := h.guarded.size_le

protected theorem refl (w : World) : Accounts w w :=
  ⟨fun h ↦ h, fun _ _ _ ↦ rfl, .refl (fun _ h ↦ h) w.streams⟩

/-- Only endpoints and streams are in the accounts. -/
theorem congr (h : Accounts w w') (hendpoints : w''.endpoints = w'.endpoints)
    (hstreams : w''.streams = w'.streams) : Accounts w w'' where
  counted hw sid := by
    have hsound := h.counted hw sid
    simpa only [references, holders, hendpoints, hstreams] using hsound
  balance hw sid hsid := by
    have hbalance := h.balance hw sid hsid
    simpa only [references, holders, hendpoints, hstreams] using hbalance
  guarded := hstreams ▸ h.guarded

theorem of_tables (hendpoints : w'.endpoints = w.endpoints) (hstreams : w'.streams = w.streams) :
    Accounts w w' :=
  (Accounts.refl w).congr hendpoints hstreams

protected theorem trans (h : Accounts w w') (h' : Accounts w' w'') : Accounts w w'' where
  counted := h'.counted ∘ h.counted
  balance hw sid hsid := by
    have hfirst := h.balance hw sid hsid
    have hsecond := h'.balance (h.counted hw) sid (Nat.lt_of_lt_of_le hsid h.size_le)
    omega
  guarded := h.guarded.trans (fun hab hbc ha ↦ hbc (hab ha)) h'.guarded

theorem of_calm {given : Closure → Prop} (h : Calm given w w') : Accounts w w' where
  counted := (Steady.of_calm h).counted
  balance _ sid hsid := by
    obtain ⟨s, hs⟩ := Table.exists_get?_of_lt hsid
    obtain ⟨s', hs', hview⟩ := h.streams sid s hs
    have hholders : s'.holders = s.holders := congrArg Prod.fst hview
    rw [references, references, h.endpoints, holders, holders, hs, hs', Option.map_some,
      Option.map_some, hholders]
  guarded sid s hs := by
    obtain ⟨s', hs', hview⟩ := h.streams sid s hs
    obtain ⟨hholders, hclosed, howned⟩ := by simpa using hview
    refine ⟨s', hs', fun hguarded ↦ ?_⟩
    rwa [Stream.Guarded, hholders, hclosed, howned]

theorem newEndpoint (w : World) {e : Endpoint}
    (he : w.Counted → ∀ sid, e.stream = some sid → (w.streams.get? sid).isSome) :
    Accounts w (w.newEndpoint e).2 where
  counted hw := hw.newEndpoint (he hw)
  balance hw sid _ := by
    rw [references_newEndpoint, holders_newEndpoint (he hw)]
    omega
  guarded := by
    change Table.Follows _ w.streams (w.holdStream e.stream).streams
    cases e.stream with
    | none => exact .refl (fun _ h ↦ h) _
    | some sid => exact .modify (fun _ h ↦ h) fun _ _ h ↦ h.hold

/-- An endpoint that is cleared is one endpoint less and one holder less. -/
theorem cleared (w : World) (id : EndpointId) {f : Endpoint → Endpoint}
    (hf : ∀ e, (f e).stream = none) : Accounts w (w.cleared id f) where
  counted hw := hw.clear id hf
  balance hw sid _ := by
    have hsound := hw sid
    have hreferences := references_cleared w id hf sid
    rw [holders_cleared]
    omega
  guarded := by
    change Table.Follows _ w.streams (w.releaseStream (w.endpoint id).stream).streams
    cases (w.endpoint id).stream with
    | none => exact .refl (fun _ h ↦ h) _
    | some sid => exact .modify (fun _ h ↦ h) fun _ _ h ↦ h.release

theorem closeEndpoint (w : World) (id : EndpointId) : Accounts w (w.closeEndpoint id) :=
  (Accounts.cleared w id (f := emptied) fun _ ↦ rfl).congr (closeEndpoint_endpoints w id)
    (closeEndpoint_streams w id)

/-- An endpoint that has changed and refers to the same stream is counted as before. -/
theorem touched (w : World) (id : EndpointId) {f : Endpoint → Endpoint}
    (hf : ∀ e, (f e).stream = e.stream) :
    Accounts w { w with endpoints := w.endpoints.modify id f } := by
  have hsame : ∀ sid, (w.endpoints.modify id f).count (refersTo sid) = w.references sid :=
    fun sid ↦ Table.count_modify_same _ _ fun e ↦ by rw [refersTo, hf, refersTo]
  refine ⟨fun hw sid ↦ ?_, fun _ sid _ ↦ ?_, .refl (fun _ h ↦ h) w.streams⟩
  · exact Nat.le_trans (Nat.le_of_eq (hsame sid)) (hw sid)
  · exact congrArg (w.holders sid + ·) (hsame sid).symm

theorem dropEndpoint (w : World) (id : EndpointId) : Accounts w (w.dropEndpoint id) := by
  rcases Nat.lt_or_ge 1 (w.endpoint id).references with h | h
  · rw [dropEndpoint_of_lt h]
    exact touched w id fun _ ↦ rfl
  · rw [dropEndpoint_of_le h]
    exact cleared w id fun _ ↦ rfl

end Accounts

/-! ## Lending and returning -/

/-- The endpoints made since the first state that refer to streams of it are among those of a vector,
and nobody else refers to them. -/
structure Lent (w₀ : World) (held : List (Option EndpointId)) (w : World) : Prop where
  accounts : Accounts w₀ w
  lent : ∀ id e sid, w₀.endpoints.size ≤ id → w.endpoints.get? id = some e → e.stream = some sid →
    sid < w₀.streams.size → some id ∈ held ∧ e.references ≤ 1

/-- The second state is steady over the first one, and no endpoint made since refers to a stream
that was there before. -/
structure Returns (w w' : World) : Prop where
  steady : Steady w w'
  lent : Lent w [] w'

namespace Lent

theorem mono {held' : List (Option EndpointId)} (h : Lent w₀ held w)
    (hsub : ∀ id, some id ∈ held → some id ∈ held') : Lent w₀ held' w :=
  ⟨h.accounts, fun id e sid hid he hsid hlt ↦ (h.lent id e sid hid he hsid hlt).imp_left (hsub id)⟩

theorem after (h : Lent w₀ held w) (h' : Returns w w') :
    Lent w₀ held w' where
  accounts := h.accounts.trans h'.lent.accounts
  lent id e sid hid he hsid hlt := by
    rcases Nat.lt_or_ge id w.endpoints.size with hold | hnew
    · obtain ⟨e', he'⟩ := Table.exists_get?_of_lt hold
      obtain rfl : e' = e := Option.some.inj ((h'.steady.get?_endpoints he').symm.trans he)
      exact h.lent id e' sid hid he' hsid hlt
    · have hsid' := Nat.lt_of_lt_of_le hlt h.accounts.size_le
      cases (h'.lent.lent id e sid hnew he hsid hsid').1

theorem newEndpoint (h : Lent w₀ held w) {e : Endpoint}
    (hexists : w.Counted → ∀ sid, e.stream = some sid → (w.streams.get? sid).isSome)
    (he : ∀ sid, e.stream = some sid → sid < w₀.streams.size →
      some w.endpoints.size ∈ held ∧ e.references ≤ 1) :
    Lent w₀ held (w.newEndpoint e).2 where
  accounts := h.accounts.trans (.newEndpoint w hexists)
  lent id e' sid hid he' hsid hlt := by
    rw [newEndpoint_endpoints] at he'
    rcases Table.get?_push_cases he' with he' | ⟨rfl, rfl⟩
    · exact h.lent id e' sid hid he' hsid hlt
    · exact he sid hsid hlt

/-- A new endpoint may borrow its stream as long as it is on the list. -/
theorem lend (h : Lent w₀ held w) {e : Endpoint}
    (hexists : w.Counted → ∀ sid, e.stream = some sid → (w.streams.get? sid).isSome)
    (hone : e.references ≤ 1) : Lent w₀ (some w.endpoints.size :: held) (w.newEndpoint e).2 :=
  (h.mono fun _ hid ↦ List.mem_cons_of_mem _ hid).newEndpoint hexists fun _ _ _ ↦
    ⟨List.mem_cons_self, hone⟩

/-- An endpoint for a stream that is new borrows nothing. -/
theorem newEndpoint_of_new (h : Lent w₀ held w) {e : Endpoint}
    (he : ∀ sid, e.stream = some sid → w₀.streams.size ≤ sid ∧ (w.streams.get? sid).isSome) :
    Lent w₀ held (w.newEndpoint e).2 :=
  h.newEndpoint (fun _ sid hsid ↦ (he sid hsid).2) fun sid hsid hlt ↦
    absurd hlt (Nat.not_lt_of_le (he sid hsid).1)

/-- Channels are not lent. -/
theorem closeChannel (h : Lent w₀ held w) (c : ChannelId) : Lent w₀ held (w.closeChannel c) :=
  ⟨h.accounts.congr rfl rfl, h.lent⟩

/-- An endpoint is off the list once it refers to no stream that was lent. -/
theorem settle (h : Lent w₀ (some id :: held) w) (haccounts : Accounts w w')
    {f : Endpoint → Endpoint} (hendpoints : w'.endpoints = w.endpoints.modify id f)
    (hf : ∀ e sid, w.endpoints.get? id = some e → (f e).stream = some sid →
      e.stream = some sid ∧ 1 < e.references) :
    Lent w₀ held w' where
  accounts := h.accounts.trans haccounts
  lent other e' sid hother he' hsid hlt := by
    rw [hendpoints, Table.get?_modify] at he'
    by_cases hid : id = other
    · subst hid
      rw [if_pos rfl] at he'
      obtain ⟨e, he, rfl⟩ := Option.map_eq_some_iff.mp he'
      obtain ⟨hsid', hreferences⟩ := hf e sid he hsid
      have hone := (h.lent id e sid hother he hsid' hlt).2
      omega
    · rw [if_neg hid] at he'
      obtain ⟨hmem, hone⟩ := h.lent other e' sid hother he' hsid hlt
      exact ⟨(List.mem_cons.mp hmem).resolve_left fun heq ↦ hid (Option.some.inj heq).symm, hone⟩

theorem closeEndpoint (h : Lent w₀ (some id :: held) w) : Lent w₀ held (w.closeEndpoint id) :=
  h.settle (.closeEndpoint w id) (closeEndpoint_endpoints w id) nofun

theorem dropEndpoint (h : Lent w₀ (some id :: held) w) : Lent w₀ held (w.dropEndpoint id) := by
  have haccounts := Accounts.dropEndpoint w id
  rcases Nat.lt_or_ge 1 (w.endpoint id).references with hlt | hle
  · rw [dropEndpoint_of_lt hlt] at haccounts ⊢
    refine h.settle haccounts rfl fun e sid he hsid ↦ ⟨hsid, ?_⟩
    rwa [World.endpoint, he] at hlt
  · rw [dropEndpoint_of_le hle] at haccounts ⊢
    exact h.settle haccounts rfl fun _ _ _ hsid ↦ by cases hsid

/-- The endpoints of a vector are off the list once they have been closed or dropped. -/
theorem foldl {step : World → EndpointId → World}
    (hstep : ∀ w id held, Lent w₀ (some id :: held) w → Lent w₀ held (step w id))
    (h : Lent w₀ (endpoints ++ held) w) :
    Lent w₀ held (endpoints.foldl (fun w e ↦ e.elim w (step w)) w) := by
  induction endpoints generalizing w with
  | nil => exact h
  | cons e rest ih =>
    cases e with
    | none => exact ih (h.mono fun id hid ↦ by simpa using hid)
    | some id => exact ih (hstep w id (rest ++ held) h)

theorem closeEndpoints (h : Lent w₀ (endpoints ++ held) w) :
    Lent w₀ held (w.closeEndpoints endpoints) :=
  foldl (fun _ _ _ ↦ closeEndpoint) h

theorem dropEndpoints (h : Lent w₀ (endpoints ++ held) w) :
    Lent w₀ held (w.dropEndpoints endpoints) :=
  foldl (fun _ _ _ ↦ dropEndpoint) h

/-- Forks borrow what their originals refer to. -/
theorem forkEndpoints (h : Lent w₀ held w) (endpoints : List (Option EndpointId)) :
    Lent w₀ ((w.forkEndpoints endpoints).1 ++ held) (w.forkEndpoints endpoints).2 := by
  induction endpoints generalizing held w with
  | nil => exact h
  | cons e rest ih =>
    cases e with
    | none => exact (ih h).mono fun id hid ↦ by simpa [World.forkEndpoints] using hid
    | some id =>
      have hfork : Lent w₀ (some w.endpoints.size :: held) (w.forkEndpoint id).2 :=
        h.lend (fun hw _ ↦ hw.isSome_stream) (Nat.le_refl 1)
      refine (ih hfork).mono fun other hother ↦ ?_
      have hfst : (w.forkEndpoint id).1 = w.endpoints.size := newEndpoint_fst w _
      simp only [World.forkEndpoints, hfst, List.mem_append, List.mem_cons] at hother ⊢
      tauto

/-- A vector takes an endpoint over, and the one that stood in its place is dropped. -/
theorem setEndpoint (n : Nat) {e : Option EndpointId} (h : Lent w₀ (e :: (endpoints ++ held)) w) :
    Lent w₀ ((w.setEndpoint endpoints n e).1 ++ held) (w.setEndpoint endpoints n e).2 := by
  have hlength : n < (grow endpoints (n + 1)).length := by
    rw [grow, List.length_append, List.length_replicate]
    omega
  have hlisted : ∀ id, some id ∈ e :: (endpoints ++ held) →
      slot (grow endpoints (n + 1)) n = some id ∨
        some id ∈ (grow endpoints (n + 1)).set n e ++ held := by
    intro id hid
    rcases List.mem_cons.mp hid with rfl | hid
    · exact .inr (List.mem_append_left _ (List.mem_set hlength _))
    rcases List.mem_append.mp hid with hid | hid
    · have hmem : some id ∈ grow endpoints (n + 1) := List.mem_append_left _ hid
      obtain ⟨m, hm⟩ := List.mem_iff_getElem?.mp hmem
      by_cases hmn : m = n
      · subst hmn
        exact .inl (by rw [slot, hm]; rfl)
      · refine .inr (List.mem_append_left _ (List.mem_iff_getElem?.mpr ⟨m, ?_⟩))
        rw [List.getElem?_set, if_neg (Ne.symm hmn), hm]
    · exact .inr (List.mem_append_right _ hid)
  unfold World.setEndpoint
  dsimp only
  rcases hslot : slot (grow endpoints (n + 1)) n with _ | replaced
  · exact h.mono fun id hid ↦ (hlisted id hid).resolve_left (by simp [hslot])
  · refine dropEndpoint (h.mono fun id hid ↦ ?_)
    rcases hlisted id hid with heq | hmem
    · exact (hslot.symm.trans heq) ▸ List.mem_cons_self
    · exact List.mem_cons_of_mem _ hmem

end Lent

namespace Returns

theorem of_same (hsteady : Steady w w') (haccounts : Accounts w w')
    (hendpoints : w'.endpoints = w.endpoints) : Returns w w' := by
  refine ⟨hsteady, haccounts, fun id e sid hid he _ _ ↦ ?_⟩
  rw [hendpoints, Table.get?_eq_none_of_le hid] at he
  cases he

theorem of_tables (hendpoints : w'.endpoints = w.endpoints) (hstreams : w'.streams = w.streams)
    (hchannels : w'.channels = w.channels) : Returns w w' :=
  of_same (.of_tables hendpoints hstreams hchannels) (.of_tables hendpoints hstreams) hendpoints

theorem of_calm {given : Closure → Prop} (h : Calm given w w') : Returns w w' :=
  of_same (.of_calm h) (.of_calm h) h.endpoints

theorem note (event : Event) (w : World) : Returns w (w.note event) := of_tables rfl rfl rfl

protected theorem refl (w : World) : Returns w w := of_tables rfl rfl rfl

protected theorem trans (h : Returns w w') (h' : Returns w' w'') : Returns w w'' :=
  ⟨h.steady.trans h'.steady, h.lent.after h'⟩

theorem of_takes {c : ChannelId} (h : Takes c w w') : Returns w w' := by
  have hsteady := Steady.of_takes h
  obtain ⟨f, rfl, -⟩ := h
  exact of_same hsteady (.of_tables rfl rfl) rfl

instance : Mobile Returns where
  move _ _ := of_tables rfl rfl rfl

instance : Receptive Returns where
  refl := Returns.refl
  trans _ _ _ := Returns.trans
  calm := of_calm
  note event w _ := note event w
  newScope _ _ := of_tables rfl rfl rfl
  failedLoad _ _ h := (note _ _).trans (h.trans (note _ _))
  load name id _ h := by
    have hregistered : ∀ w, Returns w (Eval.register name id w) := fun _ ↦ of_tables rfl rfl rfl
    exact (note _ _).trans ((h.trans (hregistered _)).trans (note _ _))
  take _ := of_takes

/-- Every stream is held as often afterwards as before. -/
theorem holders_eq (h : Returns w w') (hw : w.Counted) {sid : StreamId}
    (hsid : sid < w.streams.size) : w'.holders sid = w.holders sid := by
  have hreferences : w'.references sid = w.references sid := by
    obtain ⟨rest, hrest⟩ := h.steady.endpoints
    have hnone : rest.countP (refersTo sid) = 0 := by
      refine List.countP_eq_zero.mpr fun e he hrefers ↦ ?_
      obtain ⟨i, hi⟩ := List.mem_iff_getElem?.mp he
      have hget : w'.endpoints.get? (w.endpoints.size + i) = some e := by
        rw [Table.get?, ← hrest, Table.size, List.getElem?_append_right (Nat.le_add_right _ _),
          Nat.add_sub_cancel_left, hi]
      cases (h.lent.lent _ e sid (Nat.le_add_right _ _) hget (by simpa [refersTo] using hrefers)
        hsid).1
    rw [references, Table.count, ← hrest, List.countP_append, hnone]
    rfl
  have hbalance := h.lent.accounts.balance hw sid hsid
  omega

/-- Every stream that there was is there with the holders that it had, and if it closed with its
last holder it still does. -/
theorem stream (h : Returns w w') (hw : w.Counted) {sid : StreamId} {s : Stream}
    (hs : w.streams.get? sid = some s) :
    ∃ s', w'.streams.get? sid = some s' ∧ s'.holders = s.holders ∧ (s.Guarded → s'.Guarded) := by
  obtain ⟨s', hs', hguarded⟩ := h.lent.accounts.guarded sid s hs
  have hholders := h.holders_eq hw (Table.lt_size_of_get? hs)
  rw [holders, holders, hs, hs'] at hholders
  exact ⟨s', hs', hholders, hguarded⟩

end Returns

end World

end Conduit
