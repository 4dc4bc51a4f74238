import Mathlib.Data.List.Induction
import Mathlib.Tactic.Common
import Conduit.Relay.Runs

/-!
# Relays Keep Bytes and Descriptors in Order

Bytes and descriptors share a stream, but the reader has two ways into it: bytes go through a
buffer, which takes descriptors along into a stash, and receiving a descriptor looks into the stash
before it goes to the socket.  However these are interleaved with each other and with what the
sender does, nothing is lost, repeated or moved.

What an operation does is described by a flow from one state of the reading end to another: which
packets entered the socket, which left it, and what was handed out.  Flows follow one another, so
the accounts of a run add up.
-/

namespace Conduit.Relay

variable {δ : Type} {e e' e'' : End δ} {p : Pair δ}

/-! ## Single reads -/

/-- A reading end in which no reset is pending and no packet carries more than one descriptor. -/
structure Calm (e : End δ) : Prop where
  wasReset : e.wasReset = false
  single : ∀ p ∈ e.incoming, p.descriptors.length ≤ 1

/-- Taking a byte from an empty socket takes nothing, and otherwise it takes the first packet. -/
theorem receive_nil (h : Calm e) (hnil : e.incoming = []) :
    e.receive = (if e.ended then .ended else .failed .tryAgain, e) := by
  simp only [End.receive, hnil, h.wasReset, Bool.false_eq_true, if_false]
  split <;> rfl

theorem receive_cons (h : Calm e) {q : Packet δ} {rest : List (Packet δ)}
    (hcons : e.incoming = q :: rest) :
    e.receive = (.byte q.byte q.descriptors false, { e with incoming := rest }) := by
  have hsingle : q.descriptors.length ≤ 1 := h.single q (by simp [hcons])
  have htake : q.descriptors.take descriptorLimit = q.descriptors :=
    List.take_of_length_le (by unfold descriptorLimit; omega)
  have hwhole : decide (descriptorLimit < q.descriptors.length) = false :=
    decide_eq_false (by unfold descriptorLimit; omega)
  simp only [End.receive, hcons, htake, hwhole]

/-- The end after a packet has been fetched into the buffer. -/
def fetch (e : End δ) (q : Packet δ) (rest : List (Packet δ)) : End δ :=
  { e with
    incoming := rest
    readError := none
    stash := e.stash ++ q.descriptors
    buffer := some q.byte
    lines := if q.byte = Bytes.newline then e.lines + 1 else e.lines }

theorem peek_some {b : UInt8} (hbuffer : e.buffer = some b) : e.peek = (some b, e) := by
  simp only [End.peek, hbuffer]

theorem peek_nil (h : Calm e) (hbuffer : e.buffer = none) (hnil : e.incoming = []) :
    ∃ readError, e.peek = (none, { e with readError }) := by
  have hreceive := receive_nil (e := { e with readError := none }) ⟨h.wasReset, h.single⟩ hnil
  unfold End.peek
  rw [hbuffer] at hreceive ⊢
  rw [hreceive]
  cases e.ended
  · exact ⟨_, rfl⟩
  · exact ⟨_, rfl⟩

theorem peek_cons (h : Calm e) (hbuffer : e.buffer = none) {q : Packet δ} {rest : List (Packet δ)}
    (hcons : e.incoming = q :: rest) : e.peek = (some q.byte, fetch e q rest) := by
  have hreceive :=
    receive_cons (e := { e with readError := none }) ⟨h.wasReset, h.single⟩ hcons
  unfold End.peek
  rw [hbuffer] at hreceive ⊢
  rw [hreceive]
  rfl

theorem receiveDescriptor_stash {d : δ} {rest : List δ} (hstash : e.stash = d :: rest) :
    e.receiveDescriptor = (.ok d, { e with stash := rest }) := by
  simp only [End.receiveDescriptor, hstash]

theorem receiveDescriptor_nil (h : Calm e) (hstash : e.stash = []) (hnil : e.incoming = []) :
    ∃ error, e.receiveDescriptor = (.error error, e) := by
  unfold End.receiveDescriptor
  rw [hstash, receive_nil h hnil]
  cases e.ended
  · exact ⟨_, rfl⟩
  · exact ⟨_, rfl⟩

theorem receiveDescriptor_plain (h : Calm e) (hstash : e.stash = []) {b : UInt8}
    {rest : List (Packet δ)} (hcons : e.incoming = ⟨b, []⟩ :: rest) :
    ∃ error, e.receiveDescriptor = (.error error, { e with incoming := rest }) := by
  have hreceive := receive_cons h hcons
  unfold End.receiveDescriptor
  rw [hreceive, hstash]
  exact ⟨_, rfl⟩

theorem receiveDescriptor_one (h : Calm e) (hstash : e.stash = []) {b : UInt8} {d : δ}
    {rest : List (Packet δ)} (hcons : e.incoming = ⟨b, [d]⟩ :: rest) :
    e.receiveDescriptor = (.ok d, { e with incoming := rest }) := by
  have hreceive := receive_cons h hcons
  unfold End.receiveDescriptor
  rw [hreceive, hstash]

/-! ## Flows -/

/-- The count of lines after some events. -/
def countLines (n : Nat) (log : List (Event δ)) : Nat :=
  log.foldl (fun n event =>
    match event with
    | .fetched q => if q.byte = Bytes.newline then n + 1 else n
    | .resetLines => 0
    | _ => n) n

/-- What became of a reading end, whose socket was given packets in the meantime. -/
structure Flow (e : End δ) (given : List (Packet δ)) (log : List (Event δ)) (e' : End δ) :
    Prop where
  packets : log.filterMap Event.taken? ++ e'.incoming = e.incoming ++ given
  descriptors : log.filterMap Event.received? ++ e'.stash =
    e.stash ++ (log.filterMap Event.taken?).flatMap Packet.descriptors
  bytes : log.filterMap Event.got? ++ e'.buffer.toList =
    e.buffer.toList ++ (log.filterMap Event.fetched?).map Packet.byte
  lines : e'.lines = countLines e.lines log
  wasReset : e'.wasReset = e.wasReset

namespace Flow

variable {given given' : List (Packet δ)} {log log' : List (Event δ)}

/-- Flows follow one another: what is given while the first one lasts is taken before what is given
later. -/
theorem trans (h : Flow e given log e') (h' : Flow e' given' log' e'') :
    Flow e (given ++ given') (log ++ log') e'' where
  packets := by
    rw [List.filterMap_append, List.append_assoc, h'.packets, ← List.append_assoc, h.packets,
      List.append_assoc]
  descriptors := by
    rw [List.filterMap_append, List.filterMap_append, List.append_assoc, h'.descriptors,
      ← List.append_assoc, h.descriptors, List.flatMap_append, List.append_assoc]
  bytes := by
    rw [List.filterMap_append, List.filterMap_append, List.append_assoc, h'.bytes,
      ← List.append_assoc, h.bytes, List.map_append, List.append_assoc]
  lines := by rw [h'.lines, h.lines, countLines, countLines, countLines, List.foldl_append]
  wasReset := h'.wasReset.trans h.wasReset

/-- Nothing happens at the reading end, apart from notes about errors and the end of the stream. -/
theorem still (hincoming : e'.incoming = e.incoming) (hstash : e'.stash = e.stash)
    (hbuffer : e'.buffer = e.buffer) (hlines : e'.lines = e.lines)
    (hwasReset : e'.wasReset = e.wasReset) : Flow e [] [] e' where
  packets := by simp [hincoming]
  descriptors := by simp [hstash]
  bytes := by simp [hbuffer]
  lines := hlines
  wasReset := hwasReset

/-- Packets are put into the socket. -/
theorem give (e : End δ) (given : List (Packet δ)) :
    Flow e given [] { e with incoming := e.incoming ++ given } where
  packets := rfl
  descriptors := by simp
  bytes := by simp
  lines := rfl
  wasReset := rfl

end Flow

/-- What left a socket is what is missing from it. -/
theorem taken_append (front : List (Packet δ)) (before after : End δ)
    (h : before.incoming = front ++ after.incoming) : before.taken after = front := by
  unfold End.taken
  rw [h, List.length_append, Nat.add_sub_cancel, List.take_left]

/-- A flow into an empty buffer. -/
theorem flow_fetch {q : Packet δ} {rest : List (Packet δ)} (hbuffer : e.buffer = none)
    (hcons : e.incoming = q :: rest) : Flow e [] [.fetched q] (fetch e q rest) where
  packets := by simp [Event.taken?, fetch, hcons]
  descriptors := by simp [Event.taken?, Event.received?, fetch]
  bytes := by simp [Event.fetched?, Event.got?, fetch, hbuffer]
  lines := rfl
  wasReset := rfl

/-- Looking at a byte fetches at most one packet, and hands nothing out. -/
theorem flow_peek (h : Calm e) :
    Flow e [] ((e.taken e.peek.2).map .fetched) e.peek.2 ∧ e.peek.1 = e.peek.2.buffer := by
  rcases hbuffer : e.buffer with _ | b
  · rcases hcons : e.incoming with _ | ⟨q, rest⟩
    · obtain ⟨readError, hpeek⟩ := peek_nil h hbuffer hcons
      rw [hpeek, taken_append [] e { e with readError } rfl]
      exact ⟨.still rfl rfl rfl rfl rfl, hbuffer.symm⟩
    · rw [peek_cons h hbuffer hcons, taken_append [q] e (fetch e q rest) hcons]
      exact ⟨flow_fetch hbuffer hcons, rfl⟩
  · rw [peek_some hbuffer, taken_append [] e e rfl]
    exact ⟨.still rfl rfl rfl rfl rfl, hbuffer.symm⟩

/-- Taking a byte is looking at it and emptying the buffer. -/
theorem get_eq (h : Calm e) : e.get = (e.peek.1, { e.peek.2 with buffer := none }) := by
  have hbuffer := (flow_peek h).2
  unfold End.get
  rcases hpeek : e.peek with ⟨_ | b, e'⟩
  · rw [hpeek] at hbuffer
    obtain ⟨_, _, _, _, buffer, _, _, _⟩ := e'
    obtain rfl : none = buffer := hbuffer
    rfl
  · rfl

/-- Emptying the buffer hands out what was in it. -/
theorem flow_got (e : End δ) :
    Flow e [] (e.buffer.toList.map .got) { e with buffer := none } := by
  cases hbuffer : e.buffer with
  | none =>
    exact .still rfl rfl hbuffer.symm rfl rfl
  | some b =>
    exact
      { packets := (List.append_nil _).symm
        descriptors := (List.append_nil _).symm
        bytes := by rw [hbuffer]; rfl
        lines := rfl
        wasReset := rfl }

theorem flow_get (h : Calm e) :
    Flow e [] ((e.taken e.get.2).map .fetched ++ e.get.1.toList.map .got) e.get.2 := by
  obtain ⟨hflow, hbuffer⟩ := flow_peek h
  rw [get_eq h]
  have hgot := flow_got e.peek.2
  rw [← hbuffer] at hgot
  exact hflow.trans hgot

/-- Receiving a descriptor takes it from the stash, or a packet from the socket when the stash is
empty. -/
theorem flow_receive (h : Calm e) :
    Flow e []
      ((e.taken e.receiveDescriptor.2).map .passed ++
        e.receiveDescriptor.1.toOption.toList.map .received) e.receiveDescriptor.2 := by
  rcases hstash : e.stash with _ | ⟨d, stash⟩
  · rcases hcons : e.incoming with _ | ⟨⟨b, descriptors⟩, rest⟩
    · obtain ⟨error, hreceive⟩ := receiveDescriptor_nil h hstash hcons
      rw [hreceive, taken_append [] e e rfl]
      exact .still rfl rfl rfl rfl rfl
    · have htaken : e.taken { e with incoming := rest } = [⟨b, descriptors⟩] :=
        taken_append [⟨b, descriptors⟩] e { e with incoming := rest } hcons
      rcases descriptors with _ | ⟨d, _ | ⟨d', more⟩⟩
      · obtain ⟨error, hreceive⟩ := receiveDescriptor_plain h hstash hcons
        rw [hreceive, htaken]
        exact
          { packets := hcons.symm.trans (List.append_nil _).symm
            descriptors := (List.append_nil _).symm
            bytes := (List.append_nil _).symm
            lines := rfl
            wasReset := rfl }
      · rw [receiveDescriptor_one h hstash hcons, htaken]
        exact
          { packets := hcons.symm.trans (List.append_nil _).symm
            descriptors := by rw [hstash]; rfl
            bytes := (List.append_nil _).symm
            lines := rfl
            wasReset := rfl }
      · have htwo := h.single ⟨b, d :: d' :: more⟩ (by rw [hcons]; exact List.mem_cons_self)
        simp at htwo
  · rw [receiveDescriptor_stash hstash, taken_append [] e { e with stash := stash } rfl]
    exact
      { packets := (List.append_nil _).symm
        descriptors := by rw [hstash]; exact (List.append_nil _).symm
        bytes := (List.append_nil _).symm
        lines := rfl
        wasReset := rfl }

theorem flow_resetLines (e : End δ) : Flow e [] [.resetLines] e.resetLines where
  packets := (List.append_nil _).symm
  descriptors := (List.append_nil _).symm
  bytes := (List.append_nil _).symm
  lines := rfl
  wasReset := rfl

/-! ## Runs -/

/-- A flow leaves in the socket only what was there before or has been given. -/
theorem Flow.calm {given : List (Packet δ)} {log : List (Event δ)} (h : Flow e given log e')
    (hcalm : Calm e) (hgiven : ∀ q ∈ given, q.descriptors.length ≤ 1) : Calm e' where
  wasReset := h.wasReset.trans hcalm.wasReset
  single q hq := by
    have hmem : q ∈ e.incoming ++ given := h.packets ▸ List.mem_append_right _ hq
    rcases List.mem_append.mp hmem with hmem | hmem
    · exact hcalm.single q hmem
    · exact hgiven q hmem

/-- Whatever is sent, a packet carries one descriptor at most. -/
theorem single_packets (op : Operation δ) : ∀ q ∈ op.packets, q.descriptors.length ≤ 1 := by
  intro q hq
  cases op with
  | write bytes =>
    obtain ⟨b, -, rfl⟩ := List.mem_map.mp hq
    exact Nat.zero_le _
  | send d =>
    obtain rfl := List.mem_singleton.mp hq
    exact Nat.le_refl _
  | endSending | peek | get | receive | resetLines => cases hq

theorem sent_cons (op : Operation δ) (ops : List (Operation δ)) :
    sent (op :: ops) = op.packets ++ if op.ends then [] else sent ops := by
  unfold sent
  cases hends : op.ends with
  | true => cases op <;> simp_all [Operation.ends, Operation.packets]
  | false => simp [hends]

/-- Data that is written arrives in the socket, unless the stream has been ended. -/
theorem right_write (p : Pair δ) (bytes : Bytes) :
    (p.write bytes).2.right =
      { p.right with
        incoming := p.right.incoming ++
          if p.left.sendsEnded then [] else bytes.map Packet.plain } := by
  unfold Pair.write
  cases p.left.sendsEnded <;> cases bytes <;> simp [Pair.deliver, Packet.plain]

/-- A descriptor that is sent arrives in the socket, unless the stream has been ended. -/
theorem right_sendDescriptor (p : Pair δ) (d : δ) :
    (p.sendDescriptor (some d)).2.right =
      { p.right with
        incoming := p.right.incoming ++ if p.left.sendsEnded then [] else [⟨0, [d]⟩] } := by
  unfold Pair.sendDescriptor
  cases p.left.sendsEnded <;> simp [Pair.deliver]

theorem left_write (p : Pair δ) (bytes : Bytes) : (p.write bytes).2.left = p.left := by
  unfold Pair.write
  cases p.left.sendsEnded <;> cases bytes <;> rfl

theorem left_sendDescriptor (p : Pair δ) (d : δ) :
    (p.sendDescriptor (some d)).2.left = p.left := by
  unfold Pair.sendDescriptor
  cases p.left.sendsEnded <;> rfl

/-- What one operation does to the reading end. -/
theorem flow_perform (h : Calm p.right) (op : Operation δ) :
    Flow p.right (if p.left.sendsEnded then [] else op.packets) (p.perform op).1
      (p.perform op).2.right := by
  cases op with
  | write bytes =>
    dsimp only [Pair.perform]
    rw [right_write]
    exact .give p.right _
  | send d =>
    dsimp only [Pair.perform]
    rw [right_sendDescriptor]
    exact .give p.right _
  | endSending =>
    simp only [Operation.packets, ite_self]
    exact .still rfl rfl rfl rfl rfl
  | peek =>
    simp only [Operation.packets, ite_self]
    exact (flow_peek h).1
  | get =>
    simp only [Operation.packets, ite_self]
    exact flow_get h
  | receive =>
    simp only [Operation.packets, ite_self]
    exact flow_receive h
  | resetLines =>
    simp only [Operation.packets, ite_self]
    exact flow_resetLines _

/-- Sending ends with the operation that ends it, and for good. -/
theorem sendsEnded_perform (p : Pair δ) (op : Operation δ) :
    (p.perform op).2.left.sendsEnded = (p.left.sendsEnded || op.ends) := by
  cases op with
  | write bytes => simp [Pair.perform, left_write, Operation.ends]
  | send d => simp [Pair.perform, left_sendDescriptor, Operation.ends]
  | endSending => simp [Pair.perform, Pair.endSending, Operation.ends]
  | peek | get | receive | resetLines => simp [Pair.perform, Operation.ends]

/-- The flow of a run is put together from those of its operations. -/
theorem flow_play (ops : List (Operation δ)) (p : Pair δ) (h : Calm p.right) :
    Flow p.right (if p.left.sendsEnded then [] else sent ops) (p.play ops).1
      (p.play ops).2.right := by
  induction ops generalizing p with
  | nil =>
    have hnil : sent ([] : List (Operation δ)) = [] := rfl
    rw [hnil, ite_self]
    exact .still rfl rfl rfl rfl rfl
  | cons op ops ih =>
    have hnow := flow_perform h op
    have hcalm := hnow.calm h fun q hq ↦ single_packets op q (by grind)
    have hlater := ih (p.perform op).2 hcalm
    rw [sendsEnded_perform] at hlater
    have hgiven : (if p.left.sendsEnded then [] else sent (op :: ops)) =
        (if p.left.sendsEnded then [] else op.packets) ++
          if p.left.sendsEnded || op.ends then [] else sent ops := by
      rw [sent_cons]
      cases p.left.sendsEnded <;> simp
    rw [hgiven]
    exact hnow.trans hlater

/-- Counting the lines as they come gives the newlines fetched since the last reset. -/
theorem countLines_zero (log : List (Event δ)) :
    countLines 0 log =
      ((sinceReset log).filterMap Event.fetched?).countP fun q ↦ q.byte = Bytes.newline := by
  induction log using List.reverseRecOn with
  | nil => rfl
  | append_singleton log event ih =>
    have hsince : sinceReset (log ++ [event]) =
        if event.isReset then [] else sinceReset log ++ [event] := by
      unfold sinceReset
      cases h : event.isReset <;> simp [h]
    have hcount : countLines 0 (log ++ [event]) = countLines (countLines 0 log) [event] := by
      unfold countLines
      rw [List.foldl_append]
    rw [hcount, hsince, ih]
    cases event with
    | fetched q =>
      simp only [Event.isReset, Bool.false_eq_true, if_false, List.filterMap_append,
        List.countP_append, countLines, List.foldl_cons, List.foldl_nil]
      simp [Event.fetched?, List.countP_singleton]
      split <;> rfl
    | resetLines => rfl
    | passed q | got b | received d =>
      simp [Event.isReset, Event.fetched?, countLines, List.filterMap_append]

end Conduit.Relay
