import Conduit.Context
import Conduit.Proofs.Counted
import Conduit.Proofs.Persistent

/-!
# Ownership of Endpoints

A state is steady over an earlier one if every endpoint of the earlier state is still what it was, no
channel of it has been closed, and, as far as the earlier state is counted, the later one is counted
too and every stream that an earlier endpoint refers to is as open as it was.

Only endpoints that were made since may be closed, and among these only those whose channel was made
since, as far as they close it.  Such endpoints are owned.  Forks are owned as soon as they are made.
-/

namespace Conduit

namespace World

/-! ## Steady states -/

/-- The endpoints of the first state, and what they refer to, are in the second one as they were. -/
structure Steady (w w' : World) : Prop where
  endpoints : w.endpoints.rows <+: w'.endpoints.rows
  channels : Table.Kept (fun line ↦ line.channel.closed) w.channels w'.channels
  counted : w.Counted → w'.Counted
  streams : w.Counted → ∀ sid s, w.streams.get? sid = some s → 0 < w.references sid →
    ∃ s', w'.streams.get? sid = some s' ∧ s'.closed = s.closed

namespace Steady

variable {w w₀ w' w'' : World}

theorem get?_endpoints (h : Steady w w') {id : EndpointId} {e : Endpoint}
    (he : w.endpoints.get? id = some e) : w'.endpoints.get? id = some e := by
  obtain ⟨rest, hrest⟩ := h.endpoints
  have he' : w.endpoints.rows[id]? = some e := he
  rw [Table.get?, ← hrest, List.getElem?_append_left (Table.lt_size_of_get? he), he']

theorem size_le (h : Steady w w') : w.endpoints.size ≤ w'.endpoints.size := h.endpoints.length_le

theorem references_le (h : Steady w w') (sid : StreamId) : w.references sid ≤ w'.references sid :=
  h.endpoints.sublist.countP_le

/-- An endpoint made since is counted beside the earlier ones. -/
theorem references_lt (h : Steady w w') {id : EndpointId} {e : Endpoint} {sid : StreamId}
    (hid : w.endpoints.size ≤ id) (he : w'.endpoints.get? id = some e) (hsid : e.stream = some sid) :
    w.references sid < w'.references sid := by
  obtain ⟨rest, hrest⟩ := h.endpoints
  have hmem : e ∈ rest := by
    have he' : w'.endpoints.rows[id]? = some e := he
    rw [← hrest, List.getElem?_append_right hid] at he'
    exact List.mem_of_getElem? he'
  have hpos : 0 < rest.countP (refersTo sid) :=
    List.countP_pos_iff.mpr ⟨e, hmem, by simp [refersTo, hsid]⟩
  have hsum : w'.references sid = w.references sid + rest.countP (refersTo sid) := by
    rw [references, Table.count, ← hrest, List.countP_append]
    rfl
  omega

protected theorem refl (w : World) : Steady w w :=
  ⟨List.prefix_rfl, .refl _, fun h ↦ h, fun _ _ s hs _ ↦ ⟨s, hs, rfl⟩⟩

protected theorem trans (h : Steady w w') (h' : Steady w' w'') : Steady w w'' where
  endpoints := h.endpoints.trans h'.endpoints
  channels := h.channels.trans h'.channels
  counted hw := h'.counted (h.counted hw)
  streams hw sid s hs hpos := by
    obtain ⟨s', hs', hclosed⟩ := h.streams hw sid s hs hpos
    have hpos' := Nat.lt_of_lt_of_le hpos (h.references_le sid)
    obtain ⟨s'', hs'', hclosed'⟩ := h'.streams (h.counted hw) sid s' hs' hpos'
    exact ⟨s'', hs'', hclosed'.trans hclosed⟩

theorem of_calm {given : Closure → Prop} (h : Calm given w w') : Steady w w' where
  endpoints := by simp [h.endpoints]
  channels := h.channels
  counted hw sid := by
    have hreferences : w'.references sid = w.references sid := by
      rw [references, h.endpoints, references]
    rw [hreferences]
    apply Nat.le_trans (hw sid)
    rcases hs : w.streams.get? sid with _ | s
    · simp [holders, hs]
    · obtain ⟨s', hs', hview⟩ := h.streams sid s hs
      simp only [holders, hs, hs', Option.map_some, Option.getD_some]
      exact Nat.le_of_eq (congrArg Prod.fst hview).symm
  streams _ sid s hs _ := by
    obtain ⟨s', hs', hview⟩ := h.streams sid s hs
    exact ⟨s', hs', congrArg (·.2.1) hview⟩

/-- Nothing happens to endpoints where the tables stay as they are. -/
theorem of_tables (hendpoints : w'.endpoints = w.endpoints) (hstreams : w'.streams = w.streams)
    (hchannels : w'.channels = w.channels) : Steady w w' where
  endpoints := by simp [hendpoints]
  channels := by
    rw [hchannels]
    exact .refl _
  counted hw sid := by
    have hsound := hw sid
    rwa [references, holders, ← hendpoints, ← hstreams] at hsound
  streams _ sid s hs _ := ⟨s, by rwa [hstreams], rfl⟩

theorem note (event : Event) (w : World) : Steady w (w.note event) := of_tables rfl rfl rfl

theorem of_takes {id : ChannelId} (h : Takes id w w') : Steady w w' := by
  obtain ⟨f, rfl, hf⟩ := h
  exact
    { endpoints := List.prefix_rfl
      channels := .modify fun line hline ↦ (hf line hline).1
      counted := fun hw ↦ hw
      streams := fun _ _ s hs _ ↦ ⟨s, hs, rfl⟩ }

instance : Mobile Steady where
  move _ _ := of_tables rfl rfl rfl

instance : Receptive Steady where
  refl := Steady.refl
  trans _ _ _ := Steady.trans
  calm := of_calm
  note event w _ := note event w
  newScope _ _ := of_tables rfl rfl rfl
  failedLoad _ _ h := (note _ _).trans (h.trans (note _ _))
  load name id _ h := by
    have hregistered : ∀ w, Steady w (Eval.register name id w) := fun _ ↦ of_tables rfl rfl rfl
    exact (note _ _).trans ((h.trans (hregistered _)).trans (note _ _))
  take _ := of_takes

/-! ## New endpoints -/

theorem newEndpoint (w : World) {e : Endpoint}
    (he : w.Counted → ∀ sid, e.stream = some sid → (w.streams.get? sid).isSome) :
    Steady w (w.newEndpoint e).2 where
  endpoints := by
    rw [newEndpoint_endpoints]
    exact List.prefix_append _ _
  channels := by
    rw [newEndpoint_channels]
    exact .refl _
  counted hw := hw.newEndpoint (he hw)
  streams hw sid s hs _ := by
    change ∃ s', (w.holdStream e.stream).streams.get? sid = some s' ∧ _
    cases e.stream with
    | none => exact ⟨s, hs, rfl⟩
    | some other =>
      change ∃ s', (w.streams.modify other Stream.hold).get? sid = some s' ∧ _
      rw [Table.get?_modify, hs]
      split
      · exact ⟨s.hold, rfl, rfl⟩
      · exact ⟨s, rfl, rfl⟩

theorem forkEndpoint (w : World) (id : EndpointId) : Steady w (w.forkEndpoint id).2 :=
  newEndpoint w fun hw _ ↦ hw.isSome_stream

theorem forkEndpoints (w : World) (endpoints : List (Option EndpointId)) :
    Steady w (w.forkEndpoints endpoints).2 := by
  induction endpoints generalizing w with
  | nil => exact .refl w
  | cons e rest ih =>
    cases e with
    | none => exact ih w
    | some id => exact (forkEndpoint w id).trans (ih _)

/-! ## Closing what was made since -/

theorem closeChannel (h : Steady w₀ w) {channel : ChannelId}
    (hchannel : w₀.channels.size ≤ channel) : Steady w₀ (w.closeChannel channel) where
  endpoints := h.endpoints
  channels id line hline := by
    obtain ⟨line', hline', hclosed⟩ := h.channels id line hline
    have hne : channel ≠ id := Nat.ne_of_gt (Nat.lt_of_lt_of_le (Table.lt_size_of_get? hline) hchannel)
    refine ⟨line', ?_, hclosed⟩
    change (w.channels.modify _ _).get? id = _
    rw [Table.get?_modify, if_neg hne, hline']
  counted := h.counted
  streams := h.streams

/-- A prefix of the endpoints stays where a later one is changed. -/
theorem prefix_modify (h : Steady w₀ w) {id : EndpointId} (hid : w₀.endpoints.size ≤ id)
    (f : Endpoint → Endpoint) : w₀.endpoints.rows <+: (w.endpoints.modify id f).rows := by
  rw [List.prefix_iff_getElem?]
  intro i hi
  have hrow := List.prefix_iff_getElem?.mp h.endpoints i hi
  have hne : id ≠ i := Nat.ne_of_gt (Nat.lt_of_lt_of_le hi hid)
  change (w.endpoints.modify id f).get? i = _
  rw [Table.get?_modify, if_neg hne, ← hrow]
  rfl

/-- An endpoint that was made since may change as long as it refers to its stream. -/
theorem touch (h : Steady w₀ w) {id : EndpointId} (hid : w₀.endpoints.size ≤ id)
    {f : Endpoint → Endpoint} (hf : ∀ e, (f e).stream = e.stream) :
    Steady w₀ { w with endpoints := w.endpoints.modify id f } where
  endpoints := h.prefix_modify hid f
  channels := h.channels
  counted hw sid := by
    have hsame : (w.endpoints.modify id f).count (refersTo sid) = w.references sid :=
      Table.count_modify_same _ _ fun e ↦ by rw [refersTo, hf, refersTo]
    have hsound := h.counted hw sid
    rw [← hsame] at hsound
    exact hsound
  streams := h.streams

/-- Clearing an endpoint that was made since takes nothing from the earlier ones: a stream that one
of them refers to has another holder left. -/
theorem clear (h : Steady w₀ w) {id : EndpointId} (hid : w₀.endpoints.size ≤ id)
    {f : Endpoint → Endpoint} (hf : ∀ e, (f e).stream = none) :
    Steady w₀ { w.releaseStream (w.endpoint id).stream with
      endpoints := w.endpoints.modify id f } where
  endpoints := h.prefix_modify hid f
  channels := by
    have hsame : (w.releaseStream (w.endpoint id).stream).channels = w.channels := by
      cases (w.endpoint id).stream <;> rfl
    change Table.Kept _ w₀.channels (w.releaseStream (w.endpoint id).stream).channels
    rw [hsame]
    exact h.channels
  counted hw := (h.counted hw).clear id hf
  streams hw sid s hs hpos := by
    obtain ⟨s', hs', hclosed⟩ := h.streams hw sid s hs hpos
    change ∃ s'', (w.releaseStream (w.endpoint id).stream).streams.get? sid = some s'' ∧ _
    rcases hstream : (w.endpoint id).stream with _ | other
    · exact ⟨s', hs', hclosed⟩
    · change ∃ s'', (w.streams.modify other Stream.release).get? sid = some s'' ∧ _
      rw [Table.get?_modify, hs']
      by_cases hsid : other = sid
      · subst hsid
        rcases he : w.endpoints.get? id with _ | e
        · simp [World.endpoint, he] at hstream
        · have hendpoint : w.endpoint id = e := by simp [World.endpoint, he]
          rw [hendpoint] at hstream
          obtain ⟨s'', hs'', hholders⟩ := (h.counted hw).exists_stream he hstream
          have heq : s'' = s' := Option.some.inj (hs''.symm.trans hs')
          have hlt := h.references_lt hid he hstream
          rw [heq] at hholders
          refine ⟨s'.release, by simp, ?_⟩
          rw [closed_release (by omega), hclosed]
      · rw [if_neg hsid]
        exact ⟨s', rfl, hclosed⟩

end Steady

/-! ## What endpoints refer to -/

/-- Endpoints stay, and refer to no other channel than before. -/
def Loses (w w' : World) : Prop :=
  ∀ id e, w.endpoints.get? id = some e → ∃ e', w'.endpoints.get? id = some e' ∧
    e'.closesChannel = e.closesChannel ∧
      ∀ channel, e'.channel = some channel → e.channel = some channel

namespace Loses

variable {w w' w'' : World}

protected theorem refl (w : World) : Loses w w := fun _ e he ↦ ⟨e, he, rfl, fun _ h ↦ h⟩

protected theorem trans (h : Loses w w') (h' : Loses w' w'') : Loses w w'' := by
  intro id e he
  obtain ⟨e', he', hcloses, hchannel⟩ := h id e he
  obtain ⟨e'', he'', hcloses', hchannel'⟩ := h' id e' he'
  exact ⟨e'', he'', hcloses'.trans hcloses, fun channel h ↦ hchannel channel (hchannel' channel h)⟩

theorem of_steady (h : Steady w w') : Loses w w' :=
  fun _ e he ↦ ⟨e, h.get?_endpoints he, rfl, fun _ h ↦ h⟩

theorem of_modify (id : EndpointId) {f : Endpoint → Endpoint}
    (hendpoints : w'.endpoints = w.endpoints.modify id f)
    (hf : ∀ e, (f e).closesChannel = e.closesChannel ∧
      ∀ channel, (f e).channel = some channel → e.channel = some channel) : Loses w w' := by
  intro other e he
  rw [hendpoints, Table.get?_modify, he]
  split
  · exact ⟨f e, rfl, hf e⟩
  · exact ⟨e, rfl, rfl, fun _ h ↦ h⟩

theorem closeEndpoint (w : World) (id : EndpointId) : Loses w (w.closeEndpoint id) := by
  refine of_modify id (f := fun e ↦ { e with stream := none, channel := none }) ?_
    fun e ↦ ⟨rfl, nofun⟩
  unfold World.closeEndpoint
  dsimp only
  cases (w.endpoint id).stream <;> split <;> rfl

theorem dropEndpoint (w : World) (id : EndpointId) : Loses w (w.dropEndpoint id) := by
  unfold World.dropEndpoint
  dsimp only
  split
  · refine of_modify id
      (f := fun e ↦ { e with stream := none, channel := none, references := 0 }) ?_
      fun e ↦ ⟨rfl, nofun⟩
    cases (w.endpoint id).stream <;> rfl
  · exact of_modify id rfl fun e ↦ ⟨rfl, fun _ h ↦ h⟩

theorem foldl {step : World → EndpointId → World} (hstep : ∀ w id, Loses w (step w id))
    (endpoints : List (Option EndpointId)) (w : World) :
    Loses w (endpoints.foldl (fun w e ↦ e.elim w (step w)) w) := by
  induction endpoints generalizing w with
  | nil => exact .refl w
  | cons e rest ih =>
    cases e with
    | none => exact ih w
    | some id => exact (hstep w id).trans (ih _)

theorem closeEndpoints (w : World) (endpoints : List (Option EndpointId)) :
    Loses w (w.closeEndpoints endpoints) :=
  foldl closeEndpoint endpoints w

theorem dropEndpoints (w : World) (endpoints : List (Option EndpointId)) :
    Loses w (w.dropEndpoints endpoints) :=
  foldl dropEndpoint endpoints w

theorem setEndpoint (w : World) (endpoints : List (Option EndpointId)) (n : Nat)
    (e : Option EndpointId) : Loses w (w.setEndpoint endpoints n e).2 := by
  unfold World.setEndpoint
  dsimp only
  cases slot (grow endpoints (n + 1)) n with
  | none => exact .refl w
  | some id => exact dropEndpoint w id

end Loses

theorem slot_grow (endpoints : List (Option EndpointId)) (length n : Nat) :
    slot (grow endpoints length) n = slot endpoints n := by
  unfold slot grow
  by_cases hn : n < endpoints.length
  · rw [List.getElem?_append_left hn]
  · rw [List.getElem?_append_right (Nat.le_of_not_lt hn), List.getElem?_replicate,
      List.getElem?_eq_none (Nat.le_of_not_lt hn)]
    split <;> rfl

theorem slot_setEndpoint (w : World) (endpoints : List (Option EndpointId)) (n m : Nat)
    (e : Option EndpointId) :
    slot (w.setEndpoint endpoints n e).1 m =
      if m = n then e else slot endpoints m := by
  change slot ((grow endpoints (n + 1)).set n e) m = _
  have hlength : n < (grow endpoints (n + 1)).length := by
    rw [grow, List.length_append, List.length_replicate]
    omega
  by_cases h : m = n
  · simp [slot, h, hlength]
  · rw [if_neg h, ← slot_grow endpoints (n + 1), slot, List.getElem?_set, if_neg (Ne.symm h), slot]

/-! ## Owned endpoints -/

/-- An endpoint was made since the first state, and the channel that it closes, if it closes one, was
made since as well. -/
def Fresh (w₀ : World) (id : EndpointId) (w : World) : Prop :=
  w₀.endpoints.size ≤ id ∧ ∃ e, w.endpoints.get? id = some e ∧
    (e.closesChannel = true → ∀ channel, e.channel = some channel → w₀.channels.size ≤ channel)

/-- An endpoint was made since the first state, and so was its channel. -/
def Linked (w₀ : World) (id : EndpointId) (w : World) : Prop :=
  w₀.endpoints.size ≤ id ∧ ∃ e, w.endpoints.get? id = some e ∧
    ∀ channel, e.channel = some channel → w₀.channels.size ≤ channel

/-- A state that is steady over the first one, with endpoints of a vector that may be closed. -/
structure Owned (w₀ : World) (endpoints : List (Option EndpointId)) (w : World) : Prop where
  steady : Steady w₀ w
  fresh : ∀ id, some id ∈ endpoints → Fresh w₀ id w

variable {w w₀ w' : World} {endpoints : List (Option EndpointId)} {id : EndpointId}

theorem Fresh.after (h : Fresh w₀ id w) (hloses : Loses w w') : Fresh w₀ id w' := by
  obtain ⟨hid, e, he, hcloses⟩ := h
  obtain ⟨e', he', heq, hchannel⟩ := hloses id e he
  refine ⟨hid, e', he', fun h channel hc ↦ ?_⟩
  rw [heq] at h
  exact hcloses h channel (hchannel channel hc)

theorem Linked.fresh (h : Linked w₀ id w) : Fresh w₀ id w := by
  obtain ⟨hid, e, he, hchannel⟩ := h
  exact ⟨hid, e, he, fun _ ↦ hchannel⟩

theorem Linked.after (h : Linked w₀ id w) (hloses : Loses w w') : Linked w₀ id w' := by
  obtain ⟨hid, e, he, hnew⟩ := h
  obtain ⟨e', he', -, hchannel⟩ := hloses id e he
  exact ⟨hid, e', he', fun channel hc ↦ hnew channel (hchannel channel hc)⟩

/-- The channel of a linked endpoint was made since. -/
theorem Linked.channel (h : Linked w₀ id w) {channel : ChannelId}
    (hc : (w.endpoint id).channel = some channel) : w₀.channels.size ≤ channel := by
  obtain ⟨-, e, he, hnew⟩ := h
  rw [World.endpoint, he] at hc
  exact hnew channel hc

theorem Linked.newEndpoint (h : Steady w₀ w) {e : Endpoint}
    (hchannel : ∀ channel, e.channel = some channel → w₀.channels.size ≤ channel) :
    Linked w₀ (w.newEndpoint e).1 (w.newEndpoint e).2 := by
  refine ⟨?_, e, ?_, hchannel⟩
  · rw [newEndpoint_fst]
    exact h.size_le
  · rw [newEndpoint_fst, newEndpoint_endpoints, Table.get?_push_size]

namespace Owned

theorem after (h : Owned w₀ endpoints w) (hsteady : Steady w w') : Owned w₀ endpoints w' :=
  ⟨h.steady.trans hsteady, fun id hid ↦ (h.fresh id hid).after (.of_steady hsteady)⟩

theorem closeEndpoint (h : Owned w₀ endpoints w) (hid : some id ∈ endpoints) :
    Owned w₀ endpoints (w.closeEndpoint id) := by
  obtain ⟨hnew, e, he, hcloses⟩ := h.fresh id hid
  have hendpoint : w.endpoint id = e := by simp [World.endpoint, he]
  have hcleared := h.steady.clear hnew (f := fun e ↦ { e with stream := none, channel := none })
    fun _ ↦ rfl
  rw [hendpoint] at hcleared
  refine ⟨?_, fun other hother ↦ (h.fresh other hother).after (.closeEndpoint w id)⟩
  unfold World.closeEndpoint
  dsimp only
  rw [hendpoint]
  split
  · rename_i channel hc hchannel
    have hclosed := hcleared.closeChannel (hcloses hc channel hchannel)
    cases hstream : e.stream <;> rw [hstream] at hclosed <;> exact hclosed
  · cases hstream : e.stream <;> rw [hstream] at hcleared <;> exact hcleared

theorem dropEndpoint (h : Owned w₀ endpoints w) (hid : some id ∈ endpoints) :
    Owned w₀ endpoints (w.dropEndpoint id) := by
  obtain ⟨hnew, -⟩ := h.fresh id hid
  refine ⟨?_, fun other hother ↦ (h.fresh other hother).after (.dropEndpoint w id)⟩
  unfold World.dropEndpoint
  dsimp only
  split
  · have hcleared := h.steady.clear hnew
      (f := fun e ↦ { e with stream := none, channel := none, references := 0 }) fun _ ↦ rfl
    cases hstream : (w.endpoint id).stream <;> rw [hstream] at hcleared <;> exact hcleared
  · exact h.steady.touch hnew fun _ ↦ rfl

/-- Endpoints of the vector may be closed or dropped one after another. -/
theorem foldl {step : World → EndpointId → World}
    (hstep : ∀ w id, Owned w₀ endpoints w → some id ∈ endpoints → Owned w₀ endpoints (step w id))
    {part : List (Option EndpointId)} (hpart : ∀ e ∈ part, e ∈ endpoints)
    (h : Owned w₀ endpoints w) :
    Owned w₀ endpoints (part.foldl (fun w e ↦ e.elim w (step w)) w) := by
  induction part generalizing w with
  | nil => exact h
  | cons e rest ih =>
    have hrest : ∀ e ∈ rest, e ∈ endpoints := fun e he ↦ hpart e (List.mem_cons_of_mem _ he)
    cases e with
    | none => exact ih hrest h
    | some id => exact ih hrest (hstep w id h (hpart _ List.mem_cons_self))

theorem closeEndpoints (h : Owned w₀ endpoints w) : Owned w₀ endpoints (w.closeEndpoints endpoints) :=
  foldl (fun _ _ ↦ closeEndpoint) (fun _ he ↦ he) h

theorem dropEndpoints (h : Owned w₀ endpoints w) : Owned w₀ endpoints (w.dropEndpoints endpoints) :=
  foldl (fun _ _ ↦ dropEndpoint) (fun _ he ↦ he) h

/-- A new endpoint is owned beside the others, if the channel that it closes was made since. -/
theorem newEndpoint (h : Owned w₀ endpoints w) {e : Endpoint}
    (hstream : w.Counted → ∀ sid, e.stream = some sid → (w.streams.get? sid).isSome)
    (hcloses : e.closesChannel = true → ∀ channel, e.channel = some channel →
      w₀.channels.size ≤ channel) :
    Owned w₀ (some (w.newEndpoint e).1 :: endpoints) (w.newEndpoint e).2 := by
  have hsteady := Steady.newEndpoint w hstream
  have hget : (w.newEndpoint e).2.endpoints.get? w.endpoints.size = some e := by
    rw [newEndpoint_endpoints, Table.get?_push_size]
  refine ⟨h.steady.trans hsteady, fun id hid ↦ ?_⟩
  rcases List.mem_cons.mp hid with hid | hid
  · rw [Option.some.inj hid, newEndpoint_fst]
    exact ⟨h.steady.size_le, e, hget, hcloses⟩
  · exact (h.fresh id hid).after (.of_steady hsteady)

theorem mono {endpoints' : List (Option EndpointId)} (h : Owned w₀ endpoints w)
    (hsub : ∀ id, some id ∈ endpoints' → some id ∈ endpoints) : Owned w₀ endpoints' w :=
  ⟨h.steady, fun id hid ↦ h.fresh id (hsub id hid)⟩

theorem cons (h : Owned w₀ endpoints w) (hid : Fresh w₀ id w) :
    Owned w₀ (some id :: endpoints) w := by
  refine ⟨h.steady, fun other hother ↦ ?_⟩
  rcases List.mem_cons.mp hother with hother | hother
  · exact Option.some.inj hother ▸ hid
  · exact h.fresh other hother

/-- Forks are owned, since they close no channel. -/
theorem forkEndpoints (h : Steady w₀ w) (endpoints : List (Option EndpointId)) :
    Owned w₀ (w.forkEndpoints endpoints).1 (w.forkEndpoints endpoints).2 := by
  induction endpoints generalizing w with
  | nil => exact ⟨h, nofun⟩
  | cons e rest ih =>
    cases e with
    | none => exact (ih h).mono fun id hid ↦ by simpa [World.forkEndpoints] using hid
    | some id =>
      have hfork := Steady.forkEndpoint w id
      have hrest := ih (h.trans hfork)
      refine ⟨hrest.steady, fun other hother ↦ ?_⟩
      rcases List.mem_cons.mp hother with hother | hother
      · have hfresh : Fresh w₀ (w.forkEndpoint id).1 (w.forkEndpoint id).2 := by
          refine ⟨?_, { stream := (w.endpoint id).stream, channel := (w.endpoint id).channel },
            ?_, nofun⟩
          · rw [World.forkEndpoint, newEndpoint_fst]
            exact h.size_le
          · rw [World.forkEndpoint, newEndpoint_fst, newEndpoint_endpoints, Table.get?_push_size]
        rw [Option.some.inj hother]
        exact hfresh.after (.of_steady (Steady.forkEndpoints _ rest))
      · exact hrest.fresh other hother

/-- A vector takes an owned endpoint over, and the one that stood in its place is dropped. -/
theorem setEndpoint (h : Owned w₀ endpoints w) (n : Nat) {e : Option EndpointId}
    (he : ∀ id, e = some id → Fresh w₀ id w) :
    Owned w₀ (w.setEndpoint endpoints n e).1 (w.setEndpoint endpoints n e).2 := by
  have hgrown : Owned w₀ (e :: grow endpoints (n + 1)) w := by
    refine ⟨h.steady, fun id hid ↦ ?_⟩
    rcases List.mem_cons.mp hid with hid | hid
    · exact he id hid.symm
    · rcases List.mem_append.mp hid with hid | hid
      · exact h.fresh id hid
      · cases (List.mem_replicate.mp hid).2
  have hset : ∀ {w}, Owned w₀ (e :: grow endpoints (n + 1)) w →
      Owned w₀ ((grow endpoints (n + 1)).set n e) w := by
    intro w h
    apply h.mono
    intro id hid
    rcases List.mem_or_eq_of_mem_set hid with hid | hid
    · exact List.mem_cons_of_mem _ hid
    · exact hid ▸ List.mem_cons_self
  unfold World.setEndpoint
  dsimp only
  rcases hslot : slot (grow endpoints (n + 1)) n with _ | id
  · exact hset hgrown
  · have hmem : some id ∈ grow endpoints (n + 1) :=
      List.mem_of_getElem? (Option.join_eq_some_iff.mp hslot)
    exact hset (hgrown.dropEndpoint (List.mem_cons_of_mem _ hmem))

end Owned

end World

end Conduit
