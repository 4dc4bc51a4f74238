import Conduit.Proofs.Relay.Runs

/-!
# Messages over a Relay

A reader that takes exactly the data of a message, byte by byte, and then receives as many
descriptors as it has, gets what was sent, one message after another, whenever it reads and in
whatever pieces the data is written.

Each packet is meant for one read.  The reader never fetches a packet ahead of its read, so between
reads its buffer and its stash are empty, and the packets that are on their way or still to be sent
are those of the reads that are left.
-/

namespace Conduit.Relay

variable {δ : Type} {e : End δ} {messages : List (Message δ)} {t t' : Talk δ}

namespace Packet

/-- The read that a packet is meant for. -/
def readBy (q : Packet δ) : Read := if q.descriptors.isEmpty then .get else .receive

/-- What a packet brings to that read. -/
def item (q : Packet δ) : Item δ :=
  match q.descriptors with
  | [d] => .descriptor d
  | _ => .byte q.byte

/-- A packet is one that a sender of messages makes. -/
def Regular (q : Packet δ) : Prop := (∃ b, q = plain b) ∨ ∃ d, q = ⟨0, [d]⟩

theorem Regular.single {q : Packet δ} (h : q.Regular) : q.descriptors.length ≤ 1 := by
  rcases h with ⟨b, rfl⟩ | ⟨d, rfl⟩
  · exact Nat.zero_le _
  · exact Nat.le_refl _

end Packet

namespace Message

variable (m : Message δ)

theorem regular_packets : ∀ q ∈ m.packets, q.Regular := by
  intro q hq
  rcases List.mem_append.mp hq with hq | hq
  · obtain ⟨b, -, rfl⟩ := List.mem_map.mp hq
    exact .inl ⟨b, rfl⟩
  · obtain ⟨d, -, rfl⟩ := List.mem_map.mp hq
    exact .inr ⟨d, rfl⟩

theorem map_readBy_packets : m.packets.map Packet.readBy = m.reads := by
  simp [packets, reads, Function.comp_def, Packet.readBy, Packet.plain]

theorem map_item_packets : m.packets.map Packet.item = m.items := by
  simp [packets, items, Function.comp_def, Packet.item, Packet.plain]

end Message

namespace Talk

/-- The packets that are on their way or still to be sent. -/
def left (t : Talk δ) : List (Packet δ) := t.pair.right.incoming ++ t.toSend

/-- Between reads nothing is kept at the reading end, and each packet that is left is meant for one
of the reads that are left. -/
structure Sound (messages : List (Message δ)) (t : Talk δ) : Prop where
  wasReset : t.pair.right.wasReset = false
  ended : t.pair.right.ended = false
  sendsEnded : t.pair.left.sendsEnded = false
  buffer : t.pair.right.buffer = none
  stash : t.pair.right.stash = []
  regular : ∀ q ∈ t.left, q.Regular
  reads : t.left.map Packet.readBy = t.toRead
  answered : t.answers ++ t.left.map (some ∘ Packet.item) =
    (messages.flatMap Message.items).map some

namespace Sound

theorem calm (h : Sound messages t) : Calm t.pair.right where
  wasReset := h.wasReset
  single q hq := (h.regular q (List.mem_append_left _ hq)).single

theorem about (messages : List (Message δ)) : Sound messages (about messages) where
  wasReset := rfl
  ended := rfl
  sendsEnded := rfl
  buffer := rfl
  stash := rfl
  regular q hq := by
    obtain ⟨m, -, hm⟩ := List.mem_flatMap.mp hq
    exact m.regular_packets q hm
  reads := by
    simp [left, Talk.about, List.map_flatMap, Message.map_readBy_packets]
  answered := by
    simp only [left, Talk.about, List.nil_append, ← List.map_map, List.map_flatMap,
      Message.map_item_packets]

/-- Sending moves packets from the sender into the socket. -/
theorem send (h : Sound messages t) {packets rest : List (Packet δ)}
    (hsend : t.toSend = packets ++ rest) {p : Pair δ} (hleft : p.left = t.pair.left)
    (hright : p.right = { t.pair.right with incoming := t.pair.right.incoming ++ packets }) :
    Sound messages { t with pair := p, toSend := rest } := by
  have hsame : left { t with pair := p, toSend := rest } = t.left := by
    simp only [left, hright, hsend, List.append_assoc]
  exact
    { wasReset := by rw [hright]; exact h.wasReset
      ended := by rw [hright]; exact h.ended
      sendsEnded := by rw [hleft]; exact h.sendsEnded
      buffer := by rw [hright]; exact h.buffer
      stash := by rw [hright]; exact h.stash
      regular := hsame ▸ h.regular
      reads := hsame ▸ h.reads
      answered := hsame ▸ h.answered }

/-- A read that does not wait has a packet to read. -/
theorem exists_packet (h : Sound messages t) {r : Read} (hwaits : t.pair.right.waits r = false) :
    ∃ q rest, t.pair.right.incoming = q :: rest := by
  rcases hcons : t.pair.right.incoming with _ | ⟨q, rest⟩
  · cases r <;> simp [End.waits, hcons, h.buffer, h.stash, h.ended, h.wasReset] at hwaits
  · exact ⟨q, rest, rfl⟩

/-- A read takes the packet that is meant for it, and keeps nothing back. -/
theorem read_eq (h : Calm e) (hbuffer : e.buffer = none) (hstash : e.stash = []) {q : Packet δ}
    {rest : List (Packet δ)} (hregular : q.Regular) (hcons : e.incoming = q :: rest) :
    ∃ lines readError,
      e.read q.readBy = (some q.item, { e with incoming := rest, lines, readError }) := by
  rcases hregular with ⟨b, rfl⟩ | ⟨d, rfl⟩
  · have hread : e.read .get =
        (some (.byte b), { fetch e (Packet.plain b) rest with buffer := none }) := by
      unfold End.read
      rw [get_eq h, peek_cons h hbuffer hcons]
      rfl
    refine ⟨(fetch e (Packet.plain b) rest).lines, none, hread.trans ?_⟩
    simp [fetch, Packet.plain, Packet.item, hbuffer]
  · have hread : e.read .receive = (some (.descriptor d), { e with incoming := rest }) := by
      unfold End.read
      rw [receiveDescriptor_one h hstash hcons]
      rfl
    exact ⟨_, _, hread⟩

theorem step (h : Sound messages t) (hstep : Step t t') : Sound messages t' := by
  cases hstep with
  | @write bytes rest _ hsend =>
    refine h.send hsend (left_write _ _) ?_
    rw [right_write, h.sendsEnded]
    rfl
  | @send d rest hsend =>
    have hsend' : t.toSend = [⟨0, [d]⟩] ++ rest := hsend
    refine h.send hsend' (left_sendDescriptor _ _) ?_
    rw [right_sendDescriptor, h.sendsEnded]
    rfl
  | @read r rest hread hwaits =>
    obtain ⟨q, incoming, hcons⟩ := h.exists_packet hwaits
    have hleft : t.left = q :: (incoming ++ t.toSend) := by rw [left, hcons]; rfl
    have hreads := h.reads
    rw [hleft, hread] at hreads
    obtain ⟨rfl, hrest⟩ := List.cons.inj hreads
    obtain ⟨lines, readError, heq⟩ := read_eq h.calm h.buffer h.stash
      (h.regular q (hleft ▸ List.mem_cons_self)) hcons
    rw [heq]
    exact
      { wasReset := h.wasReset
        ended := h.ended
        sendsEnded := h.sendsEnded
        buffer := h.buffer
        stash := h.stash
        regular := fun q' hq' ↦ h.regular q' (hleft ▸ List.mem_cons_of_mem _ hq')
        reads := hrest
        answered := by
          have hanswered := h.answered
          rw [hleft] at hanswered
          rw [← hanswered, List.append_assoc]
          rfl }

end Sound

theorem Reached.sound (h : Reached messages t) : Sound messages t := by
  induction h with
  | start => exact .about messages
  | step _ hstep ih => exact ih.step hstep

/-- A talk goes on until everything has been read. -/
theorem Sound.exists_step (h : Sound messages t) (hread : t.toRead ≠ []) : ∃ t', Step t t' := by
  rcases hsend : t.toSend with _ | ⟨q, rest⟩
  · obtain ⟨r, reads, hcons⟩ := List.exists_cons_of_ne_nil hread
    refine ⟨_, .read hcons ?_⟩
    have hincoming : t.pair.right.incoming ≠ [] := by
      intro hnil
      have hreads := h.reads
      rw [left, hnil, hsend] at hreads
      exact hread hreads.symm
    cases r <;> simp [End.waits, hincoming]
  · rcases h.regular q (by rw [left, hsend]; simp) with ⟨b, rfl⟩ | ⟨d, rfl⟩
    · have hsend' : t.toSend = [b].map Packet.plain ++ rest := hsend
      exact ⟨_, .write (List.cons_ne_nil b []) hsend'⟩
    · exact ⟨_, .send hsend⟩

/-- Every step leaves less to send and to read. -/
theorem Step.lt (h : Step t t') :
    t'.toSend.length + t'.toRead.length < t.toSend.length + t.toRead.length := by
  cases h with
  | @write bytes rest hne hsend =>
    have hpos := List.length_pos_iff.mpr hne
    simp only [hsend, List.length_append, List.length_map]
    omega
  | send hsend => simp [hsend]
  | read hread _ => simp [hread]

end Talk

/-- **Everything in order.**  Whatever a sender and a reader do, in any order: the descriptors
received, those in the stash and those still in the socket are the descriptors sent; the packets
that were fetched or passed over and those still in the socket are the packets sent; the bytes got
and the one in the buffer are those of the packets fetched; and the lines are the newlines fetched
since the last reset.

Hence a reader that knows the sizes of the messages gets them exactly: its reads give the data and
the descriptors of one message after another, none fails, there is always a step to take until it
has read everything, and then nothing is left over. -/
theorem carried_in_order :
    (∀ ops : List (Operation δ),
      let log := (Pair.play {} ops).1
      let e := (Pair.play {} ops).2.right
      log.filterMap Event.received? ++ e.stash ++ e.incoming.flatMap Packet.descriptors =
          (sent ops).flatMap Packet.descriptors ∧
        log.filterMap Event.taken? ++ e.incoming = sent ops ∧
        log.filterMap Event.got? ++ e.buffer.toList =
          (log.filterMap Event.fetched?).map Packet.byte ∧
        e.lines =
          ((sinceReset log).filterMap Event.fetched?).countP fun q ↦ q.byte = Bytes.newline) ∧
    ∀ (messages : List (Message δ)) (t : Talk δ), Talk.Reached messages t →
      t.answers <+: (messages.flatMap Message.items).map some ∧
        (t.toRead ≠ [] → ∃ t', Talk.Step t t') ∧
        (∀ t', Talk.Step t t' →
          t'.toSend.length + t'.toRead.length < t.toSend.length + t.toRead.length) ∧
        (t.toRead = [] →
          t.answers = (messages.flatMap Message.items).map some ∧ t.toSend = [] ∧
            t.pair.right.incoming = [] ∧ t.pair.right.stash = [] ∧
            t.pair.right.buffer = none) := by
  constructor
  · intro ops log e
    have hflow : Flow {} (sent ops) log e := flow_play ops {} ⟨rfl, by simp⟩
    have hpackets : log.filterMap Event.taken? ++ e.incoming = sent ops := hflow.packets
    have hdescriptors : log.filterMap Event.received? ++ e.stash =
        (log.filterMap Event.taken?).flatMap Packet.descriptors := hflow.descriptors
    refine ⟨?_, hpackets, hflow.bytes, hflow.lines.trans (countLines_zero log)⟩
    rw [hdescriptors, ← List.flatMap_append, hpackets]
  · intro messages t ht
    have hs := ht.sound
    refine ⟨⟨_, hs.answered⟩, hs.exists_step, fun t' hstep ↦ hstep.lt, fun hread ↦ ?_⟩
    have hleft : t.left = [] := List.map_eq_nil_iff.mp (hs.reads.trans hread)
    have hanswered := hs.answered
    rw [hleft, List.map_nil, List.append_nil] at hanswered
    obtain ⟨hincoming, hsend⟩ := List.append_eq_nil_iff.mp hleft
    exact ⟨hanswered, hsend, hincoming, hs.stash, hs.buffer⟩

/-- The first of two messages is read while the second one is being sent. -/
theorem carried_in_order_twoMessages :
    ∃ t : Talk Nat, Talk.Reached [⟨[65], [7]⟩, ⟨[66, 10], []⟩] t ∧ t.toRead = [] ∧
      t.answers = [some (.byte 65), some (.descriptor 7), some (.byte 66), some (.byte 10)] ∧
      t.pair.right.incoming = [] := by
  have hfirst : Talk.Reached [⟨[65], [7]⟩, ⟨[66, 10], []⟩] _ :=
    ((Talk.Reached.start.step (.write (List.cons_ne_nil 65 []) rfl)).step (.send rfl)).step
      (.write (List.cons_ne_nil 66 []) rfl)
  have hread := (hfirst.step (.read rfl (by decide))).step (.read rfl (by decide))
  have hlast := ((hread.step (.write (List.cons_ne_nil 10 []) rfl)).step
    (.read rfl (by decide))).step (.read rfl (by decide))
  obtain ⟨-, -, -, hdone⟩ := carried_in_order.2 _ _ hlast
  obtain ⟨hanswers, -, hincoming, -⟩ := hdone rfl
  exact ⟨_, hlast, rfl, hanswers, hincoming⟩

end Conduit.Relay
