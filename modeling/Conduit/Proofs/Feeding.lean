import Conduit.Proofs.Holding.References

/-!
# Feeding a Channel

A channel is fed from one state to another if what was queued on it is still queued there, in front
of what has been added; nothing is printed meanwhile, and no endpoint comes to refer to a channel
that it did not refer to.  Only the endpoint at the input of a context is ever received from.  So a
channel is fed by whatever runs in contexts that are deaf to it: their input endpoint, if they have
one, refers to another channel.
-/

namespace Conduit

namespace World

variable {c : ChannelId} {w w₀ w' w'' : World} {endpoints : List (Option EndpointId)}

/-! ## Changes that feed a channel -/

/-- What was queued on the channel is still in front of its queue, nothing has been printed, and
endpoints refer to no other channel than before. -/
structure Feeds (c : ChannelId) (w w' : World) : Prop where
  printed : w'.printed = w.printed
  loses : Loses w w'
  queue : ∀ line, w.channels.get? c = some line →
    ∃ line', w'.channels.get? c = some line' ∧ line.Extends line'

namespace Feeds

protected theorem refl (w : World) : Feeds c w w :=
  ⟨rfl, .refl w, fun line h ↦ ⟨line, h, .refl line⟩⟩

protected theorem trans (h : Feeds c w w') (h' : Feeds c w' w'') : Feeds c w w'' where
  printed := h'.printed.trans h.printed
  loses := h.loses.trans h'.loses
  queue line hline := by
    obtain ⟨line', hline', hextends⟩ := h.queue line hline
    obtain ⟨line'', hline'', hextends'⟩ := h'.queue line' hline'
    exact ⟨line'', hline'', hextends.trans hextends'⟩

theorem of_calm {given : Closure → Prop} (h : Calm given w w') : Feeds c w w' :=
  ⟨h.printed, .of_steady (.of_calm h), h.queues c⟩

theorem of_loses (hprinted : w'.printed = w.printed) (hchannels : w'.channels = w.channels)
    (h : Loses w w') : Feeds c w w' :=
  ⟨hprinted, h, fun line hline ↦ ⟨line, hchannels ▸ hline, .refl line⟩⟩

/-- A change that endpoints and channels have no part in. -/
theorem of_tables (hprinted : w'.printed = w.printed) (hendpoints : w'.endpoints = w.endpoints)
    (hchannels : w'.channels = w.channels) : Feeds c w w' :=
  of_loses hprinted hchannels fun _ e he ↦ ⟨e, hendpoints ▸ he, rfl, fun _ h ↦ h⟩

/-- Any other channel may change, and the one that is fed may be closed. -/
theorem modifyChannel (w : World) {id : ChannelId} {f : Channel Value → Channel Value}
    (hf : id = c → ∀ channel, (f channel).queue = channel.queue) :
    Feeds c w (w.modifyChannel id f) := by
  refine ⟨rfl, fun _ e he ↦ ⟨e, he, rfl, fun _ h ↦ h⟩, fun line hline ↦ ?_⟩
  change ∃ line', (w.channels.modify id _).get? c = some line' ∧ _
  rw [Table.get?_modify, hline]
  split
  · rename_i heq
    have hqueue : (f line.channel).queue = line.channel.queue := hf heq line.channel
    exact ⟨_, rfl, rfl, hqueue.symm ▸ List.prefix_rfl⟩
  · exact ⟨line, rfl, .refl line⟩

theorem closeChannel (w : World) (id : ChannelId) : Feeds c w (w.closeChannel id) :=
  modifyChannel w fun _ _ ↦ rfl

theorem of_takes {id : ChannelId} (hid : id ≠ c) (h : Takes id w w') : Feeds c w w' := by
  obtain ⟨f, rfl, -⟩ := h
  exact modifyChannel w fun heq ↦ absurd heq hid

theorem newChannel (w : World) (line : Line) : Feeds c w (w.newChannel line).2 := by
  refine ⟨rfl, fun _ e he ↦ ⟨e, he, rfl, fun _ h ↦ h⟩, fun other hother ↦ ⟨other, ?_, .refl other⟩⟩
  exact (Table.get?_push_of_lt (Table.lt_size_of_get? hother)).trans hother

theorem releaseStream (w : World) (sid : Option StreamId) : Feeds c w (w.releaseStream sid) := by
  cases sid with
  | none => exact .refl w
  | some sid => exact of_tables rfl rfl rfl

theorem newEndpoint (w : World) (e : Endpoint) : Feeds c w (w.newEndpoint e).2 := by
  refine of_loses ?_ (newEndpoint_channels w e) (.newEndpoint w e)
  unfold World.newEndpoint
  cases e.stream <;> rfl

theorem closeEndpoint (w : World) (id : EndpointId) : Feeds c w (w.closeEndpoint id) := by
  have hrelease : Feeds c w (w.releaseStream (w.endpoint id).stream) := releaseStream w _
  have hloses : Loses w (w.closeEndpoint id) := .closeEndpoint w id
  unfold World.closeEndpoint at hloses ⊢
  dsimp only at hloses ⊢
  split at hloses
  · rename_i channel _ _
    have hclose := hrelease.trans (closeChannel _ channel)
    exact ⟨hclose.printed, hloses, hclose.queue⟩
  · exact ⟨hrelease.printed, hloses, hrelease.queue⟩

theorem dropEndpoint (w : World) (id : EndpointId) : Feeds c w (w.dropEndpoint id) := by
  refine of_loses ?_ (dropEndpoint_channels w id) (.dropEndpoint w id)
  by_cases hle : (w.endpoint id).references ≤ 1
  · rw [dropEndpoint_of_le hle]
    exact (releaseStream (c := c) w (w.endpoint id).stream).printed
  · rw [dropEndpoint_of_lt (by omega)]

theorem moves (c : ChannelId) : Moves (Feeds c) where
  refl := .refl
  trans := .trans
  newChannel := newChannel
  newStream _ _ _ := of_tables rfl rfl rfl
  newEndpoint := newEndpoint
  referTo w id := of_loses rfl rfl (.referTo w id)
  closeEndpoint := closeEndpoint
  dropEndpoint := dropEndpoint

theorem setEndpoint (w : World) (endpoints : List (Option EndpointId)) (n : Nat)
    (e : Option EndpointId) : Feeds c w (w.setEndpoint endpoints n e).2 := by
  unfold World.setEndpoint
  dsimp only
  cases slot (grow endpoints (n + 1)) n with
  | none => exact .refl w
  | some id => exact dropEndpoint w id

theorem dropEndpoints (w : World) (endpoints : List (Option EndpointId)) :
    Feeds c w (w.dropEndpoints endpoints) :=
  (moves c).foldl dropEndpoint endpoints w

theorem closeEndpoints (w : World) (endpoints : List (Option EndpointId)) :
    Feeds c w (w.closeEndpoints endpoints) :=
  (moves c).foldl closeEndpoint endpoints w

end Feeds

/-! ## Deaf endpoints -/

/-- The endpoint exists and does not refer to the channel. -/
def Avoids (c : ChannelId) (id : EndpointId) (w : World) : Prop :=
  ∃ e, w.endpoints.get? id = some e ∧ e.channel ≠ some c

/-- The channel exists, and the endpoint at the input of the vector, if there is one, does not refer
to it. -/
structure Deaf (c : ChannelId) (endpoints : List (Option EndpointId)) (w : World) : Prop where
  channel : c < w.channels.size
  input : ∀ id, slot endpoints 0 = some id → Avoids c id w

theorem Avoids.after {id : EndpointId} (h : Avoids c id w) (hloses : Loses w w') :
    Avoids c id w' := by
  obtain ⟨e, he, hne⟩ := h
  obtain ⟨e', he', -, hchannel⟩ := hloses id e he
  exact ⟨e', he', fun heq ↦ hne (hchannel c heq)⟩

theorem Avoids.channel_ne {id : EndpointId} (h : Avoids c id w) :
    (w.endpoint id).channel ≠ some c := by
  obtain ⟨e, he, hne⟩ := h
  rwa [World.endpoint, he]

theorem avoids_newEndpoint (w : World) {e : Endpoint} (he : e.channel ≠ some c) :
    Avoids c (w.newEndpoint e).1 (w.newEndpoint e).2 := by
  refine ⟨e, ?_, he⟩
  rw [newEndpoint_fst, newEndpoint_endpoints, Table.get?_push_size]

namespace Deaf

theorem after (h : Deaf c endpoints w) (hfeeds : Feeds c w w') : Deaf c endpoints w' := by
  obtain ⟨line, hline⟩ := Table.exists_get?_of_lt h.channel
  obtain ⟨line', hline', -⟩ := hfeeds.queue line hline
  exact ⟨Table.lt_size_of_get? hline', fun id hid ↦ (h.input id hid).after hfeeds.loses⟩

/-- Forks refer to the channels that the endpoints refer to. -/
theorem forkEndpoints (h : Deaf c endpoints w) :
    Deaf c (w.forkEndpoints endpoints).1 (w.forkEndpoints endpoints).2 := by
  refine ⟨(h.after ((Feeds.moves c).forkEndpoints w endpoints)).channel, fun id hid ↦ ?_⟩
  rcases endpoints with _ | ⟨_ | first, rest⟩
  · cases hid
  · cases hid
  · obtain rfl : (w.forkEndpoint first).1 = id := Option.some.inj hid
    have hfork : Avoids c (w.forkEndpoint first).1 (w.forkEndpoint first).2 :=
      avoids_newEndpoint w (h.input first rfl).channel_ne
    exact hfork.after (Loses.moves.forkEndpoints _ rest)

/-- An endpoint may be put at any position, but one that does not refer to the channel at the input.
-/
theorem setEndpoint (h : Deaf c endpoints w) {n : Nat} {e : Option EndpointId}
    (he : n = 0 → ∀ id, e = some id → Avoids c id w) :
    Deaf c (w.setEndpoint endpoints n e).1 (w.setEndpoint endpoints n e).2 := by
  have hfeeds : Feeds c w (w.setEndpoint endpoints n e).2 := .setEndpoint w endpoints n e
  refine ⟨(h.after hfeeds).channel, fun id hid ↦ ?_⟩
  rw [slot_setEndpoint] at hid
  split at hid
  · rename_i hn
    exact (he hn.symm id hid).after hfeeds.loses
  · exact (h.input id hid).after hfeeds.loses

end Deaf

/-! ## Feeding along a run -/

/-- As far as the endpoints are deaf to the channel, it is fed. -/
def FeedsFrom (c : ChannelId) (endpoints : List (Option EndpointId)) (w w' : World) : Prop :=
  Deaf c endpoints w → Feeds c w w'

instance : Mobile (FeedsFrom c endpoints) where
  move _ _ _ := .of_tables rfl rfl rfl

instance : Persistent (FeedsFrom c endpoints) where
  refl w _ := .refl w
  trans _ _ _ h h' hdeaf := (h hdeaf).trans (h' (hdeaf.after (h hdeaf)))
  calm h _ := .of_calm h
  note _ _ _ _ := .of_tables rfl rfl rfl
  newScope _ _ _ := .of_tables rfl rfl rfl
  failedLoad _ _ h hdeaf :=
    have hfeeds := h ⟨hdeaf.channel, hdeaf.input⟩
    ⟨hfeeds.printed, hfeeds.loses, hfeeds.queue⟩
  load _ _ _ h hdeaf :=
    have hfeeds := h ⟨hdeaf.channel, hdeaf.input⟩
    ⟨hfeeds.printed, hfeeds.loses, hfeeds.queue⟩

/-- The channel has been fed since the first state, and the endpoints are deaf to it. -/
structure Fed (c : ChannelId) (w₀ : World) (endpoints : List (Option EndpointId)) (w : World) :
    Prop where
  feeds : Feeds c w₀ w
  deaf : Deaf c endpoints w

namespace Fed

theorem start (h : Deaf c endpoints w) : Fed c w endpoints w := ⟨.refl w, h⟩

theorem after (h : Fed c w₀ endpoints w) (hfeeds : Feeds c w w') : Fed c w₀ endpoints w' :=
  ⟨h.feeds.trans hfeeds, h.deaf.after hfeeds⟩

theorem forkEndpoints (h : Fed c w₀ endpoints w) :
    Fed c w₀ (w.forkEndpoints endpoints).1 (w.forkEndpoints endpoints).2 :=
  ⟨h.feeds.trans ((Feeds.moves c).forkEndpoints w endpoints), h.deaf.forkEndpoints⟩

theorem setEndpoint (h : Fed c w₀ endpoints w) {n : Nat} {e : Option EndpointId}
    (he : n = 0 → ∀ id, e = some id → Avoids c id w) :
    Fed c w₀ (w.setEndpoint endpoints n e).1 (w.setEndpoint endpoints n e).2 :=
  ⟨h.feeds.trans (.setEndpoint w endpoints n e), h.deaf.setEndpoint he⟩

end Fed

end World

end Conduit
