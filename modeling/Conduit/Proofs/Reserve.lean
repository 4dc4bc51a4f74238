import Conduit.Proofs.Dry
import Conduit.Proofs.Ownership.Slots

/-!
# Reserved Channels, Pipes and Files

A reserve lists channels, pipes, streams and files with what is not to be done to them: a channel is
not to be received from, or not to be sent on and closed; a pipe is not to be read, or not to be
written to; the offset of a stream is not to be moved; and a file is not to be changed.  A change
respects the reserve if values and bytes have only been added where they are not to be taken, have
only been taken where they are not to be added, and the rest is as it was.

Channels, pipes, streams and files without a path are reached through endpoints only.  So a reserve
is respected by whatever runs in contexts that are clear of it: at each position stands an endpoint
that gives no access to what is reserved, where the first position is for receiving and the second
one for sending.  Files that are opened and links that are made meanwhile give no access to it
either.
-/

namespace Conduit

/-! ## Files without a path -/

namespace Host.FileTree

variable {tree tree' : FileTree} {node other : NodeId}

/-- The object exists and has no path. -/
def Anonymous (tree : FileTree) (node : NodeId) : Prop :=
  node < tree.nodes.size ∧ ∀ path, (path, node) ∉ tree.entries

/-- An object without a path is found under none. -/
theorem Anonymous.ne_of_find? (h : tree.Anonymous node) {path : Path}
    (hfind : tree.find? path = some other) : other ≠ node := by
  rintro rfl
  obtain ⟨before, after, hentries, -⟩ := List.lookup_eq_some_iff.mp hfind
  exact h.2 path (hentries ▸ List.mem_append_right _ List.mem_cons_self)

theorem Anonymous.setContent (h : tree.Anonymous node) (other : NodeId) (content : Bytes) :
    (tree.setContent other content).Anonymous node :=
  ⟨Nat.lt_of_lt_of_eq h.1 (Table.size_modify _ _ _).symm, h.2⟩

theorem node?_setContent (h : other ≠ node) (content : Bytes) :
    (tree.setContent other content).node? node = tree.node? node :=
  (Table.get?_modify _ _ _ _).trans (if_neg h)

theorem Anonymous.add (h : tree.Anonymous node) (path : Path) (object : Node) :
    (tree.add path object).Anonymous node := by
  refine ⟨Nat.lt_of_lt_of_eq (Nat.lt_succ_of_lt h.1) (Table.size_push _ _).symm,
    fun other hmem ↦ ?_⟩
  rcases List.mem_append.mp hmem with hmem | hmem
  · exact h.2 other hmem
  · obtain ⟨-, rfl⟩ := Prod.mk.inj (List.mem_singleton.mp hmem)
    exact Nat.lt_irrefl _ h.1

/-- Opening a file changes no object without a path, and does not come to one. -/
theorem Anonymous.openFile (h : tree.Anonymous node) {current : Path} {mode : OpenMode}
    {text : Bytes} (hopen : tree.openFile current mode text = .ok (tree', other)) :
    (tree'.Anonymous node ∧ tree'.node? node = tree.node? node) ∧ other ≠ node := by
  simp only [FileTree.openFile, bind, Except.bind] at hopen
  split at hopen
  · cases hopen
  · split at hopen
    · split at hopen <;> cases hopen
    · split at hopen
      · cases hopen
      · split at hopen
        case h_1 =>
          split at hopen <;> cases hopen
          exact ⟨⟨h.add _ _, Table.get?_push_of_lt h.1⟩, Nat.ne_of_gt h.1⟩
        case h_2 id hfind =>
          have hne : id ≠ node := h.ne_of_find? hfind
          split at hopen
          · split at hopen <;> cases hopen
            exact ⟨⟨h, rfl⟩, hne⟩
          · split at hopen
            · cases hopen
            · split at hopen <;> cases hopen
              · exact ⟨⟨h.setContent _ _, node?_setContent hne _⟩, hne⟩
              · exact ⟨⟨h, rfl⟩, hne⟩

end Host.FileTree

/-! ## Reserves -/

/-- What is not to be done to some channels, pipes, streams and files. -/
structure Reserve where
  receiving : ChannelId → Prop
  sending : ChannelId → Prop
  reading : PipeId → Prop
  writing : PipeId → Prop
  moving : StreamId → Prop
  filling : Host.NodeId → Prop

/-- The first reserve has nothing that the second one has not. -/
structure Reserve.Within (r r' : Reserve) : Prop where
  receiving : ∀ c, r.receiving c → r'.receiving c
  sending : ∀ c, r.sending c → r'.sending c
  reading : ∀ pipe, r.reading pipe → r'.reading pipe
  writing : ∀ pipe, r.writing pipe → r'.writing pipe
  moving : ∀ sid, r.moving sid → r'.moving sid
  filling : ∀ node, r.filling node → r'.filling node

/-- The device without its offset in a file, which moves. -/
def Device.rewound : Device → Device
  | .file node _ access => .file node 0 access
  | device => device

/-- The device gives no access to a pipe or a file that is reserved. -/
def Device.Respects (r : Reserve) : Device → Prop
  | .file node _ _ => ¬ r.filling node
  | .pipeReader pipe => ¬ r.reading pipe
  | .pipeWriter pipe => ¬ r.writing pipe
  | .terminal => True

/-- The second endpoint has at most the channel and the stream of the first one, and closes its
channel only if that one does. -/
structure Endpoint.Narrows (e e' : Endpoint) : Prop where
  channel : ∀ c, e'.channel = some c → e.channel = some c
  stream : ∀ sid, e'.stream = some sid → e.stream = some sid
  closes : e'.closesChannel = true → e.closesChannel = true

/-- A line from which values have been taken in front, at most. -/
structure Line.Drains (line line' : Line) : Prop where
  closed : line'.channel.closed = line.channel.closed
  queue : line'.channel.queue <:+ line.channel.queue

variable {r : Reserve}

protected theorem Reserve.Within.refl (r : Reserve) : r.Within r :=
  ⟨fun _ h ↦ h, fun _ h ↦ h, fun _ h ↦ h, fun _ h ↦ h, fun _ h ↦ h, fun _ h ↦ h⟩

namespace Device

theorem respects_of_rewound {d d' : Device} (h : d'.rewound = d.rewound) (hd : d.Respects r) :
    d'.Respects r := by
  cases d <;> cases d' <;> simp_all [rewound, Respects]

/-- Two devices that differ in the offset at most are the same unless they are for files. -/
theorem eq_of_rewound {d d' : Device} (h : d'.rewound = d.rewound)
    (hd : ∀ node offset access, d ≠ .file node offset access) : d' = d := by
  cases d <;> cases d' <;> simp_all [rewound]

end Device

namespace Endpoint.Narrows

protected theorem refl (e : Endpoint) : e.Narrows e := ⟨fun _ h ↦ h, fun _ h ↦ h, fun h ↦ h⟩

protected theorem trans {e e' e'' : Endpoint} (h : e.Narrows e') (h' : e'.Narrows e'') :
    e.Narrows e'' where
  channel c hc := h.channel c (h'.channel c hc)
  stream sid hsid := h.stream sid (h'.stream sid hsid)
  closes hcloses := h.closes (h'.closes hcloses)

theorem forked (e : Endpoint) : e.Narrows e.forked := ⟨fun _ h ↦ h, fun _ h ↦ h, nofun⟩

end Endpoint.Narrows

namespace Line.Drains

protected theorem refl (line : Line) : line.Drains line := ⟨rfl, List.suffix_rfl⟩

protected theorem trans {line line' line'' : Line} (h : line.Drains line')
    (h' : line'.Drains line'') : line.Drains line'' :=
  ⟨h'.closed.trans h.closed, h'.queue.trans h.queue⟩

end Line.Drains

namespace World

variable {w w₀ w' w'' : World} {endpoints : List (Option EndpointId)} {id : EndpointId}
  {c : ChannelId} {pipe : PipeId} {sid : StreamId} {n : Nat}

/-! ## Changes that respect a reserve -/

/-- What is reserved exists, and the files have no path. -/
structure Includes (w : World) (r : Reserve) : Prop where
  channels : ∀ c, r.receiving c ∨ r.sending c → c < w.channels.size
  pipes : ∀ pipe, r.reading pipe ∨ r.writing pipe → pipe < w.pipes.size
  streams : ∀ sid, r.moving sid → sid < w.streams.size
  files : ∀ node, r.filling node → w.files.Anonymous node

/-- The stream exists, is not reserved and gives no access to what is reserved. -/
def RespectsStream (r : Reserve) (sid : StreamId) (w : World) : Prop :=
  ∃ s, w.streams.get? sid = some s ∧ s.device.Respects r ∧ ¬ r.moving sid

/-- What is reserved has been respected.  Meanwhile endpoints have come to refer to nothing else,
and streams to nothing but another offset. -/
structure Respects (r : Reserve) (w w' : World) : Prop where
  channels : ∀ c line, w.channels.get? c = some line → ∃ line', w'.channels.get? c = some line' ∧
    (r.receiving c → line.Extends line') ∧ (r.sending c → line.Drains line')
  pipes : ∀ pipe bytes, w.pipes.get? pipe = some bytes → ∃ bytes',
    w'.pipes.get? pipe = some bytes' ∧ (r.reading pipe → bytes <+: bytes') ∧
      (r.writing pipe → bytes' <:+ bytes)
  offsets : ∀ sid s, r.moving sid → w.streams.get? sid = some s →
    ∃ s', w'.streams.get? sid = some s' ∧ s'.device = s.device
  files : ∀ node, r.filling node → w.files.Anonymous node →
    w'.files.Anonymous node ∧ w'.files.node? node = w.files.node? node
  endpoints : Table.Follows Endpoint.Narrows w.endpoints w'.endpoints
  streams : Table.Kept (fun s ↦ s.device.rewound) w.streams w'.streams
  channelCount : w.channels.size ≤ w'.channels.size
  pipeCount : w.pipes.size ≤ w'.pipes.size

namespace Respects

/-- A change of endpoints, and of what streams are besides their devices. -/
theorem of_tables (hchannels : w'.channels = w.channels) (hpipes : w'.pipes = w.pipes)
    (hfiles : w'.files = w.files)
    (hendpoints : Table.Follows Endpoint.Narrows w.endpoints w'.endpoints)
    (hstreams : Table.Kept Stream.device w.streams w'.streams) : Respects r w w' where
  channels _ line hline := ⟨line, hchannels ▸ hline, fun _ ↦ .refl line, fun _ ↦ .refl line⟩
  pipes _ bytes hbytes := ⟨bytes, hpipes ▸ hbytes, fun _ ↦ List.prefix_rfl, fun _ ↦ List.suffix_rfl⟩
  offsets sid s _ hs := hstreams sid s hs
  files _ _ h := ⟨hfiles ▸ h, by rw [hfiles]⟩
  endpoints := hendpoints
  streams sid s hs := (hstreams sid s hs).imp fun _ h ↦ ⟨h.1, congrArg Device.rewound h.2⟩
  channelCount := Nat.le_of_eq (by rw [hchannels])
  pipeCount := Nat.le_of_eq (by rw [hpipes])

theorem of_dry (h : Dry w w') : Respects r w w' :=
  of_tables h.channels h.pipes h.files (h.endpoints ▸ .refl .refl _) (h.streams ▸ .refl _)

protected theorem refl (w : World) : Respects r w w := of_dry (.refl w)

theorem note (event : Event) (w : World) : Respects r w (w.note event) :=
  of_dry ⟨rfl, rfl, rfl, rfl, rfl⟩

protected theorem trans (h : Respects r w w') (h' : Respects r w' w'') : Respects r w w'' where
  channels c line hline := by
    obtain ⟨line', hline', hextends, hdrains⟩ := h.channels c line hline
    obtain ⟨line'', hline'', hextends', hdrains'⟩ := h'.channels c line' hline'
    exact ⟨line'', hline'', fun hr ↦ (hextends hr).trans (hextends' hr),
      fun hs ↦ (hdrains hs).trans (hdrains' hs)⟩
  pipes pipe bytes hbytes := by
    obtain ⟨bytes', hbytes', hfront, hback⟩ := h.pipes pipe bytes hbytes
    obtain ⟨bytes'', hbytes'', hfront', hback'⟩ := h'.pipes pipe bytes' hbytes'
    exact ⟨bytes'', hbytes'', fun hr ↦ (hfront hr).trans (hfront' hr),
      fun hw ↦ (hback' hw).trans (hback hw)⟩
  offsets sid s hr hs := by
    obtain ⟨s', hs', hdevice⟩ := h.offsets sid s hr hs
    obtain ⟨s'', hs'', hdevice'⟩ := h'.offsets sid s' hr hs'
    exact ⟨s'', hs'', hdevice'.trans hdevice⟩
  files node hr hnode := by
    obtain ⟨hnode', hsame⟩ := h.files node hr hnode
    obtain ⟨hnode'', hsame'⟩ := h'.files node hr hnode'
    exact ⟨hnode'', hsame'.trans hsame⟩
  endpoints := h.endpoints.trans .trans h'.endpoints
  streams := h.streams.trans h'.streams
  channelCount := Nat.le_trans h.channelCount h'.channelCount
  pipeCount := Nat.le_trans h.pipeCount h'.pipeCount

/-- A change that respects a reserve respects a smaller one. -/
theorem mono {r' : Reserve} (h : Respects r w w') (hr : r'.Within r) : Respects r' w w' where
  channels c line hline := by
    obtain ⟨line', hline', hextends, hdrains⟩ := h.channels c line hline
    exact ⟨line', hline', fun hc ↦ hextends (hr.receiving c hc), fun hc ↦ hdrains (hr.sending c hc)⟩
  pipes pipe bytes hbytes := by
    obtain ⟨bytes', hbytes', hfront, hback⟩ := h.pipes pipe bytes hbytes
    exact ⟨bytes', hbytes', fun hpipe ↦ hfront (hr.reading pipe hpipe),
      fun hpipe ↦ hback (hr.writing pipe hpipe)⟩
  offsets sid s hsid := h.offsets sid s (hr.moving sid hsid)
  files node hnode := h.files node (hr.filling node hnode)
  endpoints := h.endpoints
  streams := h.streams
  channelCount := h.channelCount
  pipeCount := h.pipeCount

instance : Std.Refl (Respects r) := ⟨Respects.refl⟩

instance : IsTrans World (Respects r) := ⟨fun _ _ _ ↦ Respects.trans⟩

theorem newStream (w : World) (device : Device) (owned : Bool) :
    Respects r w (w.newStream device owned).2 :=
  of_tables rfl rfl rfl (.refl .refl _) (.push _ _)

theorem newPipe (w : World) : Respects r w w.newPipe.2 where
  channels := (Respects.refl w).channels
  pipes pipe bytes hbytes := by
    have hkept : w.newPipe.2.pipes.get? pipe = some bytes :=
      (Table.get?_push_of_lt (Table.lt_size_of_get? hbytes)).trans hbytes
    exact ⟨bytes, hkept, fun _ ↦ List.prefix_rfl, fun _ ↦ List.suffix_rfl⟩
  offsets sid s _ hs := by
    have hkept : Table.Kept Stream.device w.streams w.newPipe.2.streams :=
      (Table.Kept.push _ _).trans (.push _ _)
    exact hkept sid s hs
  files _ _ h := ⟨h, rfl⟩
  endpoints := .refl .refl _
  streams := (Table.Kept.push _ _).trans (.push _ _)
  channelCount := Nat.le_refl _
  pipeCount := by simp [World.newPipe, World.newStream]

/-- Channels may be changed in ways that the reserve allows. -/
theorem changeChannels (w : World) {channels : Table Line}
    (h : ∀ c line, w.channels.get? c = some line → ∃ line', channels.get? c = some line' ∧
      (r.receiving c → line.Extends line') ∧ (r.sending c → line.Drains line'))
    (hcount : w.channels.size ≤ channels.size) : Respects r w { w with channels } :=
  { Respects.refl w with channels := h, channelCount := hcount }

theorem newChannel (w : World) (line : Line) : Respects r w (w.newChannel line).2 := by
  refine changeChannels w (fun c other hother ↦ ?_) (by simp)
  have hkept : (w.channels.push line).get? c = some other :=
    (Table.get?_push_of_lt (Table.lt_size_of_get? hother)).trans hother
  exact ⟨other, hkept, fun _ ↦ .refl other, fun _ ↦ .refl other⟩

theorem modifyChannel (w : World) {f : Channel Value → Channel Value}
    (hf : ∀ line, w.channels.get? c = some line →
      (r.receiving c → line.Extends { line with channel := f line.channel }) ∧
        (r.sending c → line.Drains { line with channel := f line.channel })) :
    Respects r w (w.modifyChannel c f) := by
  refine changeChannels w (fun other line hline ↦ ?_) (by simp)
  rw [Table.get?_modify, hline]
  split
  case isTrue heq =>
    subst heq
    exact ⟨_, rfl, hf line hline⟩
  case isFalse => exact ⟨line, rfl, fun _ ↦ .refl line, fun _ ↦ .refl line⟩

theorem closeChannel (w : World) (hc : ¬ r.sending c) : Respects r w (w.closeChannel c) :=
  modifyChannel w fun _ _ ↦ ⟨fun _ ↦ ⟨rfl, List.prefix_rfl⟩, fun hs ↦ absurd hs hc⟩

theorem enqueue (w : World) (hc : ¬ r.sending c) (v : Value) :
    Respects r w (w.modifyChannel c fun channel ↦ channel.enqueue v) :=
  modifyChannel w fun _ _ ↦ ⟨fun _ ↦ ⟨rfl, List.prefix_append _ _⟩, fun hs ↦ absurd hs hc⟩

theorem of_takes (hc : ¬ r.receiving c) (h : Takes c w w') : Respects r w w' := by
  obtain ⟨f, rfl, hf⟩ := h
  refine modifyChannel w fun line hline ↦ ⟨fun hr ↦ absurd hr hc, fun _ ↦ ?_⟩
  exact ⟨(hf line hline).1, (hf line hline).2⟩

theorem modifyPipe (w : World) {f : Bytes → Bytes}
    (hf : ∀ bytes, (r.reading pipe → bytes <+: f bytes) ∧ (r.writing pipe → f bytes <:+ bytes)) :
    Respects r w { w with pipes := w.pipes.modify pipe f } :=
  { Respects.refl w with
    pipes := fun other bytes hbytes ↦ by
      rw [Table.get?_modify, hbytes]
      split
      case isTrue heq =>
        subst heq
        exact ⟨_, rfl, hf bytes⟩
      case isFalse => exact ⟨bytes, rfl, fun _ ↦ List.prefix_rfl, fun _ ↦ List.suffix_rfl⟩
    pipeCount := by simp }

/-! ## Endpoints -/

theorem device_release (s : Stream) : s.release.device = s.device := by
  unfold Stream.release
  split <;> rfl

theorem releaseStream (w : World) (sid : Option StreamId) : Respects r w (w.releaseStream sid) := by
  cases sid with
  | none => exact .refl w
  | some sid => exact of_tables rfl rfl rfl (.refl .refl _) (.modify fun s _ ↦ device_release s)

theorem newEndpoint (w : World) (e : Endpoint) : Respects r w (w.newEndpoint e).2 := by
  have hendpoints : Table.Follows Endpoint.Narrows w.endpoints (w.newEndpoint e).2.endpoints := by
    rw [newEndpoint_endpoints]
    exact .push .refl _ _
  have hrest : (w.newEndpoint e).2.pipes = w.pipes ∧ (w.newEndpoint e).2.files = w.files := by
    unfold World.newEndpoint
    cases e.stream <;> exact ⟨rfl, rfl⟩
  refine of_tables (newEndpoint_channels w e) hrest.1 hrest.2 hendpoints ?_
  change Table.Kept _ w.streams (w.holdStream e.stream).streams
  cases e.stream with
  | none => exact .refl _
  | some sid => exact .modify fun s _ ↦ rfl

/-- An endpoint may be narrowed. -/
theorem modifyEndpoint (w : World) (id : EndpointId) {f : Endpoint → Endpoint}
    (hf : ∀ e : Endpoint, e.Narrows (f e)) :
    Respects r w { w with endpoints := w.endpoints.modify id f } :=
  of_tables rfl rfl rfl (.modify .refl fun e _ ↦ hf e) (.refl _)

theorem dropEndpoint (w : World) (id : EndpointId) : Respects r w (w.dropEndpoint id) := by
  unfold World.dropEndpoint
  dsimp only
  split
  · exact (releaseStream w _).trans (modifyEndpoint _ id fun _ ↦ ⟨nofun, nofun, fun h ↦ h⟩)
  · exact modifyEndpoint w id fun _ ↦ ⟨fun _ h ↦ h, fun _ h ↦ h, fun h ↦ h⟩

/-- An endpoint may be closed unless it closes a channel that is reserved for sending. -/
theorem closeEndpoint (w : World) {id : EndpointId}
    (hid : (w.endpoint id).closesChannel = true → ∀ c, (w.endpoint id).channel = some c →
      ¬ r.sending c) :
    Respects r w (w.closeEndpoint id) := by
  have hrelease : Respects r w (w.releaseStream (w.endpoint id).stream) := releaseStream w _
  have hclear : ∀ w' : World, Respects r w'
      { w' with endpoints := w'.endpoints.modify id fun e ↦
          { e with stream := none, channel := none } } :=
    fun w' ↦ modifyEndpoint w' id fun e ↦ ⟨nofun, nofun, fun h ↦ h⟩
  unfold World.closeEndpoint
  dsimp only
  split
  case h_1 channel hcloses hchannel =>
    exact (hrelease.trans (closeChannel _ (hid hcloses channel hchannel))).trans (hclear _)
  case h_2 => exact hrelease.trans (hclear _)

theorem forkEndpoints (w : World) (endpoints : List (Option EndpointId)) :
    Respects r w (w.forkEndpoints endpoints).2 := by
  induction endpoints generalizing w with
  | nil => exact .refl w
  | cons e rest ih =>
    cases e with
    | none => exact ih w
    | some id => exact (newEndpoint w _).trans (ih _)

theorem setEndpoint (w : World) (endpoints : List (Option EndpointId)) (n : Nat)
    (e : Option EndpointId) : Respects r w (w.setEndpoint endpoints n e).2 := by
  unfold World.setEndpoint
  dsimp only
  cases slot (grow endpoints (n + 1)) n with
  | none => exact .refl w
  | some id => exact dropEndpoint w id

theorem dropEndpoints (w : World) (endpoints : List (Option EndpointId)) :
    Respects r w (w.dropEndpoints endpoints) := by
  unfold World.dropEndpoints
  induction endpoints generalizing w with
  | nil => exact .refl w
  | cons e rest ih =>
    cases e with
    | none => exact ih w
    | some id => exact (dropEndpoint w id).trans (ih _)

/-! ## Bytes -/

/-- Files may be changed as far as they are not reserved. -/
theorem changeFiles (w : World) {files : Host.FileTree}
    (h : ∀ node, r.filling node → w.files.Anonymous node →
      files.Anonymous node ∧ files.node? node = w.files.node? node) :
    Respects r w { w with files } :=
  { Respects.refl w with files := h }

theorem writeNode (w : World) {node : Host.NodeId} (hnode : ¬ r.filling node) (offset : Nat)
    (bytes : Bytes) : Respects r w (w.writeNode node offset bytes) :=
  changeFiles w fun other hr h ↦ by
    have hne : node ≠ other := fun heq ↦ hnode (heq ▸ hr)
    exact ⟨h.setContent _ _, Host.FileTree.node?_setContent hne _⟩

theorem skip {id : StreamId} (h : RespectsStream r id w) (count : Nat) :
    Respects r w (w.skip id count) := by
  obtain ⟨s, hs, hrespects, hmoving⟩ := h
  unfold World.skip
  rw [hs, Option.map_some]
  split
  case h_1 node offset access hdevice =>
    have hstreams : ∀ f : Stream → Stream, (∀ other, w.streams.get? id = some other →
        (f other).device.rewound = other.device.rewound) →
        Respects r w { w with streams := w.streams.modify id f } := fun f hf ↦
      { Respects.refl w with
        offsets := fun other s' hr hs' ↦ by
          have hne : id ≠ other := fun heq ↦ hmoving (heq ▸ hr)
          exact ⟨s', (Table.get?_modify _ _ _ _).trans ((if_neg hne).trans hs'), rfl⟩
        streams := .modify hf }
    refine hstreams _ fun other hother ↦ ?_
    obtain rfl : s = other := Option.some.inj (hs.symm.trans hother)
    rw [Option.some.inj hdevice]
    rfl
  case h_2 pipe hdevice =>
    rw [Option.some.inj hdevice] at hrespects
    exact modifyPipe w fun _ ↦ ⟨fun hr ↦ absurd hr hrespects, fun _ ↦ List.drop_suffix _ _⟩
  case h_3 => exact .refl w

theorem write {id : StreamId} {bytes : Bytes} (hid : RespectsStream r id w)
    (h : w.write id bytes = .ok w') : Respects r w w' := by
  obtain ⟨s, hs, hrespects, hmoving⟩ := hid
  have hskip : ∀ node offset, RespectsStream r id (w.writeNode node offset bytes) :=
    fun node offset ↦ ⟨s, hs, hrespects, hmoving⟩
  unfold World.write at h
  rw [hs, Option.map_some] at h
  split at h
  case h_1 hdevice =>
    rw [Option.some.inj hdevice] at hrespects
    cases h
    exact writeNode w hrespects _ _
  case h_2 hdevice =>
    rw [Option.some.inj hdevice] at hrespects
    cases h
    exact (writeNode w hrespects _ _).trans (skip (hskip _ _) _)
  case h_3 hdevice =>
    rw [Option.some.inj hdevice] at hrespects
    cases h
    exact (writeNode w hrespects _ _).trans (skip (hskip _ _) _)
  case h_4 pipe hdevice =>
    rw [Option.some.inj hdevice] at hrespects
    split at h <;> cases h
    exact modifyPipe w fun _ ↦ ⟨fun _ ↦ List.prefix_append _ _, fun hw ↦ absurd hw hrespects⟩
  case h_5 =>
    cases h
    exact .refl w
  case h_6 => cases h

end Respects

/-! ## Endpoints that are clear of a reserve -/

/-- An endpoint like this one gives no access, at a position, to what is reserved. -/
structure Harmless (r : Reserve) (n : Nat) (e : Endpoint) (w : World) : Prop where
  receiving : n = 0 → ∀ c, e.channel = some c → ¬ r.receiving c
  sending : n = 1 ∨ e.closesChannel = true → ∀ c, e.channel = some c → ¬ r.sending c
  stream : ∀ sid, e.stream = some sid → RespectsStream r sid w

/-- The endpoint exists and gives no access, at a position, to what is reserved. -/
def Outside (r : Reserve) (n : Nat) (id : EndpointId) (w : World) : Prop :=
  ∃ e, w.endpoints.get? id = some e ∧ Harmless r n e w

/-- What is reserved exists, and no endpoint of the vector gives access to it. -/
structure Clear (r : Reserve) (endpoints : List (Option EndpointId)) (w : World) : Prop where
  includes : w.Includes r
  outside : ∀ n id, slot endpoints n = some id → Outside r n id w

theorem Includes.after (h : w.Includes r) (hrespects : Respects r w w') : w'.Includes r where
  channels c hc := Nat.lt_of_lt_of_le (h.channels c hc) hrespects.channelCount
  pipes pipe hpipe := Nat.lt_of_lt_of_le (h.pipes pipe hpipe) hrespects.pipeCount
  streams sid hsid := Nat.lt_of_lt_of_le (h.streams sid hsid) hrespects.streams.size_le
  files node hnode := (hrespects.files node hnode (h.files node hnode)).1

theorem RespectsStream.after (h : RespectsStream r sid w) (hrespects : Respects r w w') :
    RespectsStream r sid w' := by
  obtain ⟨s, hs, hdevice, hmoving⟩ := h
  obtain ⟨s', hs', hrewound⟩ := hrespects.streams sid s hs
  exact ⟨s', hs', Device.respects_of_rewound hrewound hdevice, hmoving⟩

namespace Harmless

variable {e e' : Endpoint}

theorem narrow (h : Harmless r n e w) (hnarrows : e.Narrows e') : Harmless r n e' w where
  receiving hn c hc := h.receiving hn c (hnarrows.channel c hc)
  sending hn c hc := h.sending (hn.imp_right hnarrows.closes) c (hnarrows.channel c hc)
  stream sid hsid := h.stream sid (hnarrows.stream sid hsid)

theorem after (h : Harmless r n e w) (hrespects : Respects r w w') : Harmless r n e w' :=
  { h with stream := fun sid hsid ↦ (h.stream sid hsid).after hrespects }

end Harmless

namespace Outside

theorem harmless (h : Outside r n id w) : Harmless r n (w.endpoint id) w := by
  obtain ⟨e, he, hharmless⟩ := h
  rwa [endpoint_eq he]

theorem after (h : Outside r n id w) (hrespects : Respects r w w') : Outside r n id w' := by
  obtain ⟨e, he, hharmless⟩ := h
  obtain ⟨e', he', hnarrows⟩ := hrespects.endpoints id e he
  exact ⟨e', he', (hharmless.narrow hnarrows).after hrespects⟩

theorem newEndpoint {e : Endpoint} (h : Harmless r n e w) :
    Outside r n (w.newEndpoint e).1 (w.newEndpoint e).2 := by
  refine ⟨e, ?_, h.after (.newEndpoint w e)⟩
  rw [newEndpoint_fst, newEndpoint_endpoints, Table.get?_push_size]

end Outside

namespace Clear

theorem after (h : Clear r endpoints w) (hrespects : Respects r w w') : Clear r endpoints w' :=
  ⟨h.includes.after hrespects, fun n id hid ↦ (h.outside n id hid).after hrespects⟩

/-- Forks refer to what the endpoints refer to. -/
theorem forkEndpoints (h : Clear r endpoints w) :
    Clear r (w.forkEndpoints endpoints).1 (w.forkEndpoints endpoints).2 := by
  have hrespects : Respects r w (w.forkEndpoints endpoints).2 := .forkEndpoints w endpoints
  refine ⟨h.includes.after hrespects, fun n id hid ↦ ?_⟩
  have hexist : ∀ id, some id ∈ endpoints → id < w.endpoints.size := by
    intro id hmem
    obtain ⟨n, hn⟩ := List.mem_iff_getElem?.mp hmem
    obtain ⟨e, he, -⟩ := h.outside n id (by rw [slot, hn]; rfl)
    exact Table.lt_size_of_get? he
  obtain ⟨-, -, -, hslots⟩ := forkEndpoints_slots hexist
  have hslot := hslots n
  rw [hid, Option.map_some] at hslot
  obtain ⟨other, hother, hforked⟩ := Option.map_eq_some_iff.mp hslot.symm
  obtain ⟨-, e, he, -⟩ :=
    (Owned.forkEndpoints (.refl w) endpoints).fresh id (mem_of_slot hid)
  rw [endpoint_eq he] at hforked
  subst hforked
  exact ⟨_, he, ((h.outside n other hother).harmless.narrow (.forked _)).after hrespects⟩

theorem setEndpoint (h : Clear r endpoints w) {e : Option EndpointId}
    (he : ∀ id, e = some id → Outside r n id w) :
    Clear r (w.setEndpoint endpoints n e).1 (w.setEndpoint endpoints n e).2 := by
  have hrespects : Respects r w (w.setEndpoint endpoints n e).2 := .setEndpoint w endpoints n e
  refine ⟨h.includes.after hrespects, fun m id hid ↦ ?_⟩
  rw [slot_setEndpoint] at hid
  split at hid
  case isTrue hm => exact (hm ▸ he id hid).after hrespects
  case isFalse => exact (h.outside m id hid).after hrespects

theorem closeEndpoints (h : Clear r endpoints w) : Respects r w (w.closeEndpoints endpoints) := by
  have hmembers : ∀ id, some id ∈ endpoints → ∃ n, Outside r n id w := by
    intro id hmem
    obtain ⟨n, hn⟩ := List.mem_iff_getElem?.mp hmem
    exact ⟨n, h.outside n id (by rw [slot, hn]; rfl)⟩
  clear h
  unfold World.closeEndpoints
  induction endpoints generalizing w with
  | nil => exact .refl w
  | cons e rest ih =>
    have hrest : ∀ id, some id ∈ rest → ∃ n, Outside r n id w :=
      fun id hid ↦ hmembers id (List.mem_cons_of_mem _ hid)
    cases e with
    | none => exact ih hrest
    | some id =>
      obtain ⟨n, houtside⟩ := hmembers id List.mem_cons_self
      have hclose : Respects r w (w.closeEndpoint id) :=
        .closeEndpoint w fun hcloses ↦ houtside.harmless.sending (.inr hcloses)
      exact hclose.trans (ih fun other hother ↦ (hrest other hother).imp fun _ h ↦ h.after hclose)

end Clear

/-! ## Reserves along a run -/

/-- As far as the endpoints are clear of the reserve, it is respected. -/
def RespectsFrom (r : Reserve) (endpoints : List (Option EndpointId)) (w w' : World) : Prop :=
  Clear r endpoints w → Respects r w w'

instance : Mobile (RespectsFrom r endpoints) where
  move _ _ _ := .of_dry ⟨rfl, rfl, rfl, rfl, rfl⟩

instance : Enduring (RespectsFrom r endpoints) where
  refl w _ := .refl w
  trans _ _ _ h h' hclear := (h hclear).trans (h' (hclear.after (h hclear)))
  data _ h _ := .of_dry h
  note event w _ _ := .note event w
  newScope _ _ _ := .of_dry ⟨rfl, rfl, rfl, rfl, rfl⟩
  failedLoad _ _ h hclear :=
    have hnote : ∀ w event, Respects r w (w.note event) := fun w event ↦ .note event w
    ((hnote _ _).trans (h (hclear.after (hnote _ _)))).trans (hnote _ _)
  load name id _ h hclear :=
    have hnote : ∀ w event, Respects r w (w.note event) := fun w event ↦ .note event w
    have hregister : ∀ w : World, Respects r w (Eval.register name id w) :=
      fun _ ↦ .of_dry ⟨rfl, rfl, rfl, rfl, rfl⟩
    (((hnote _ _).trans (h (hclear.after (hnote _ _)))).trans (hregister _)).trans (hnote _ _)

/-- The reserve has been respected since the first state, and the endpoints are clear of it. -/
structure Respected (r : Reserve) (w₀ : World) (endpoints : List (Option EndpointId)) (w : World) :
    Prop where
  respects : Respects r w₀ w
  clear : Clear r endpoints w

namespace Respected

theorem start (h : Clear r endpoints w) : Respected r w endpoints w := ⟨.refl w, h⟩

theorem after (h : Respected r w₀ endpoints w) (hrespects : Respects r w w') :
    Respected r w₀ endpoints w' :=
  ⟨h.respects.trans hrespects, h.clear.after hrespects⟩

theorem forkEndpoints (h : Respected r w₀ endpoints w) :
    Respected r w₀ (w.forkEndpoints endpoints).1 (w.forkEndpoints endpoints).2 :=
  ⟨h.respects.trans (.forkEndpoints w endpoints), h.clear.forkEndpoints⟩

theorem setEndpoint (h : Respected r w₀ endpoints w) {e : Option EndpointId}
    (he : ∀ id, e = some id → Outside r n id w) :
    Respected r w₀ (w.setEndpoint endpoints n e).1 (w.setEndpoint endpoints n e).2 :=
  ⟨h.respects.trans (.setEndpoint w endpoints n e), h.clear.setEndpoint he⟩

end Respected

end World

end Conduit
