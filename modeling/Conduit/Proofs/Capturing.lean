import Conduit.Eval.Capturing
import Conduit.Proofs.Channel
import Conduit.Proofs.Pieces

/-!
# How a Capture Goes

Whatever order the threads of a capture take their steps in, the values that have been gathered,
the one in the hands of the taker and the queued ones are the values sent, in order; and the lines
that have been gathered, each with its newline, the beginning of a line that the reader keeps, the
rest of its block and what is in the pipe are the bytes written.  No gathered line has a newline
inside, so cutting the written bytes at newlines gives back the gathered lines, wherever the blocks
ended.
-/

namespace Conduit

namespace Eval.Capturing

variable {room : Nat} {s s' : Capturing} {agent : Agent} {how : Outcome Unit}

/-! ## Threads -/

/-- How the threads stand to each other. -/
structure Ordered (s : Capturing) : Prop where
  closed : s.output.closed = s.phase.hasClosed
  room : 0 < s.output.capacity
  finished : s.taker = .done → s.output.closed = true ∧ s.output.queue = []
  emptied : s.reader = .done → s.phase.isWriting = false ∧ s.pipe = []
  awaitedTaker : s.phase.hasDrained = true → s.taker = .done
  awaitedReader : s.phase.hasLeft = true → s.reader = .done

namespace Ordered

theorem start : Ordered {} where
  closed := rfl
  room := by decide
  finished := nofun
  emptied := nofun
  awaitedTaker := nofun
  awaitedReader := nofun

/-- While the function runs the channel is open, and the reader has not stopped. -/
theorem isOpen (h : Ordered s) (hphase : s.phase = .calling) :
    s.output.closed = false ∧ s.reader ≠ .done := by
  refine ⟨by rw [h.closed, hphase]; rfl, fun hdone ↦ ?_⟩
  have hwriting := (h.emptied hdone).1
  rw [hphase] at hwriting
  cases hwriting

theorem functionStep (h : Ordered s) (hstep : FunctionStep room s s') : Ordered s' := by
  cases hstep with
  | send hphase hsend =>
    have hopen := (h.isOpen hphase).1
    obtain ⟨-, rfl⟩ := Channel.send?_of_open hopen hsend
    exact { h with
      finished := fun hdone ↦ by simp [(h.finished hdone).1] at hopen }
  | write hphase _ =>
    exact { h with emptied := fun hdone ↦ absurd hdone (h.isOpen hphase).2 }
  | finish how hphase =>
    exact { h with
      closed := by rw [h.closed, hphase]; rfl
      emptied := fun hdone ↦ absurd hdone (h.isOpen hphase).2
      awaitedTaker := nofun
      awaitedReader := nofun }

theorem mainStep (h : Ordered s) (hstep : MainStep s s') : Ordered s' := by
  cases hstep with
  | release hphase =>
    exact { h with
      closed := by rw [h.closed, hphase]; rfl
      emptied := fun hdone ↦ ⟨rfl, (h.emptied hdone).2⟩
      awaitedTaker := nofun
      awaitedReader := nofun }
  | close hphase =>
    exact { h with
      closed := rfl
      finished := fun hdone ↦ ⟨rfl, (h.finished hdone).2⟩
      emptied := fun hdone ↦ ⟨rfl, (h.emptied hdone).2⟩
      awaitedTaker := nofun
      awaitedReader := nofun }
  | awaitTaker hphase hdone =>
    exact { h with
      closed := by rw [h.closed, hphase]; rfl
      emptied := fun hdone ↦ ⟨rfl, (h.emptied hdone).2⟩
      awaitedTaker := fun _ ↦ hdone
      awaitedReader := nofun }
  | awaitReader hphase hdone =>
    exact { h with
      closed := by rw [h.closed, hphase]; rfl
      emptied := fun hdone ↦ ⟨rfl, (h.emptied hdone).2⟩
      awaitedTaker := fun _ ↦ h.awaitedTaker (by rw [hphase]; rfl)
      awaitedReader := fun _ ↦ hdone }

theorem takerStep (h : Ordered s) (hstep : TakerStep s s') : Ordered s' := by
  have hundone : ∀ {taker}, s.taker = taker → taker ≠ .done → s.phase.hasDrained ≠ true :=
    fun htaker hne hdrained ↦ hne (htaker.symm.trans (h.awaitedTaker hdrained))
  cases hstep with
  | take htaker hrecv =>
    exact { h with
      closed := (Channel.queue_of_recv? hrecv).1.trans h.closed
      room := Nat.lt_of_lt_of_eq h.room (Channel.capacity_of_recv? hrecv).symm
      finished := nofun
      awaitedTaker := fun hdrained ↦ absurd hdrained (hundone htaker nofun) }
  | keep htaker =>
    exact { h with
      finished := nofun
      awaitedTaker := fun hdrained ↦ absurd hdrained (hundone htaker nofun) }
  | finish htaker hrecv =>
    obtain ⟨hclosed, hqueue⟩ := Channel.queue_of_recv? hrecv
    obtain ⟨hwasClosed, hempty⟩ := Channel.closed_of_recv?_none hrecv
    exact { h with
      closed := hclosed.trans h.closed
      room := Nat.lt_of_lt_of_eq h.room (Channel.capacity_of_recv? hrecv).symm
      finished := fun _ ↦ ⟨hclosed.trans hwasClosed, hqueue.symm.trans hempty⟩
      awaitedTaker := fun _ ↦ rfl }

theorem readerStep (h : Ordered s) (hstep : ReaderStep s s') : Ordered s' := by
  have hundone : ∀ {reader}, s.reader = reader → reader ≠ .done → s.phase.hasLeft ≠ true :=
    fun hreader hne hleft ↦ hne (hreader.symm.trans (h.awaitedReader hleft))
  cases hstep with
  | read hreader _ _ _ =>
    exact { h with
      emptied := nofun
      awaitedReader := fun hleft ↦ absurd hleft (hundone hreader nofun) }
  | extend hreader _ =>
    exact { h with
      emptied := nofun
      awaitedReader := fun hleft ↦ absurd hleft (hundone hreader nofun) }
  | keep hreader =>
    exact { h with
      emptied := nofun
      awaitedReader := fun hleft ↦ absurd hleft (hundone hreader nofun) }
  | next hreader =>
    exact { h with
      emptied := nofun
      awaitedReader := fun hleft ↦ absurd hleft (hundone hreader nofun) }
  | finish _ hpipe hwriting =>
    exact { h with
      emptied := fun _ ↦ ⟨hwriting, hpipe⟩
      awaitedReader := fun _ ↦ rfl }

theorem step (h : Ordered s) (hstep : Step room s agent s') : Ordered s' := by
  cases hstep with
  | function hstep => exact h.functionStep hstep
  | main hstep => exact h.mainStep hstep
  | taker hstep => exact h.takerStep hstep
  | reader hstep => exact h.readerStep hstep

end Ordered

theorem Reached.ordered (h : Reached room {} s) : Ordered s := by
  induction h with
  | start => exact .start
  | step _ hstep ih => exact ih.step hstep

/-! ## Values -/

/-- What has been gathered, is in the hands of the taker and is queued makes up the values sent, all
of which were accepted. -/
structure Flows (s : Capturing) : Prop where
  accepted : ∀ v accepted, .sent v accepted ∈ s.history → accepted = true
  balance : s.values ++ s.taker.held ++ s.output.queue = s.sent

namespace Flows

theorem start : Flows {} := ⟨nofun, rfl⟩

theorem functionStep (h : Flows s) (hordered : Ordered s) (hstep : FunctionStep room s s') :
    Flows s' := by
  cases hstep with
  | @send v output accepted hphase hsend =>
    obtain ⟨rfl, rfl⟩ := Channel.send?_of_open (hordered.isOpen hphase).1 hsend
    refine ⟨fun u accepted hmem ↦ ?_, ?_⟩
    · rcases List.mem_append.mp hmem with hmem | hmem
      · exact h.accepted u accepted hmem
      · cases List.mem_singleton.mp hmem
        rfl
    · have hsent : sent { s with
          output := s.output.enqueue v, history := s.history ++ [.sent v true] } =
        s.sent ++ [v] := by
        simp [sent, Deed.sent?]
      rw [hsent, ← h.balance]
      exact (List.append_assoc _ _ _).symm
  | @write bytes hphase _ =>
    refine ⟨fun u accepted hmem ↦ ?_, ?_⟩
    · rcases List.mem_append.mp hmem with hmem | hmem
      · exact h.accepted u accepted hmem
      · cases List.mem_singleton.mp hmem
    · have hsent : sent { s with
          pipe := s.pipe ++ bytes, history := s.history ++ [.wrote bytes] } = s.sent := by
        simp [sent, Deed.sent?]
      rw [hsent]
      exact h.balance
  | finish => exact ⟨h.accepted, h.balance⟩

theorem mainStep (h : Flows s) (hstep : MainStep s s') : Flows s' := by
  cases hstep with
  | release | close | awaitTaker | awaitReader => exact ⟨h.accepted, h.balance⟩

theorem takerStep (h : Flows s) (hstep : TakerStep s s') : Flows s' := by
  cases hstep with
  | take htaker hrecv =>
    refine ⟨h.accepted, Eq.trans ?_ h.balance⟩
    rw [(Channel.queue_of_recv? hrecv).2, htaker]
    simp [values, Taker.held]
  | keep htaker =>
    refine ⟨h.accepted, Eq.trans ?_ h.balance⟩
    rw [htaker]
    simp [values, Taker.held, Gathered.value?]
  | finish htaker hrecv =>
    refine ⟨h.accepted, Eq.trans ?_ h.balance⟩
    rw [(Channel.queue_of_recv? hrecv).2, htaker]
    simp [values, Taker.held]

/-- The reader gathers lines, which are no values. -/
theorem readerStep (h : Flows s) (hstep : ReaderStep s s') : Flows s' := by
  cases hstep with
  | read | extend | next => exact ⟨h.accepted, h.balance⟩
  | keep hreader =>
    refine ⟨h.accepted, Eq.trans ?_ h.balance⟩
    simp [values, Gathered.value?]
  | finish hreader _ _ =>
    refine ⟨h.accepted, Eq.trans ?_ h.balance⟩
    dsimp only
    split <;> simp [values, Gathered.value?]

theorem step (h : Flows s) (hordered : Ordered s) (hstep : Step room s agent s') : Flows s' := by
  cases hstep with
  | function hstep => exact h.functionStep hordered hstep
  | main hstep => exact h.mainStep hstep
  | taker hstep => exact h.takerStep hstep
  | reader hstep => exact h.readerStep hstep

end Flows

theorem Reached.flows (h : Reached room {} s) : Flows s := by
  induction h with
  | start => exact .start
  | step hreached hstep ih => exact ih.step hreached.ordered hstep

/-! ## Lines -/

/-- The bytes written are some lines with their newlines, the beginning of another line, what
remains of a block, and what is in the pipe.  The lines have been gathered, and the reader keeps the
beginning of the other one until it stops and gathers it, unless there is nothing to gather. -/
structure Cut (s : Capturing) (ended : List Bytes) (last : Bytes) : Prop where
  whole : ∀ part ∈ ended, Bytes.newline ∉ part
  begun : Bytes.newline ∉ last
  balance : ended.flatMap (· ++ [Bytes.newline]) ++ last ++ s.reader.rest ++ s.pipe = s.written
  reading : s.reader ≠ .done → s.lines = ended ∧ s.reader.line = last
  stopped : s.reader = .done → s.lines = ended ++ if last = [] then [] else [last]

namespace Cut

variable {ended : List Bytes} {last : Bytes}

theorem start : Cut {} [] [] := ⟨nofun, nofun, rfl, fun _ ↦ ⟨rfl, rfl⟩, nofun⟩

theorem functionStep (h : Cut s ended last) (hstep : FunctionStep room s s') :
    Cut s' ended last := by
  cases hstep with
  | @send v output accepted _ _ =>
    have hwritten : written { s with output, history := s.history ++ [.sent v accepted] } =
        s.written := by
      simp [written, Deed.written]
    exact ⟨h.whole, h.begun, h.balance.trans hwritten.symm, h.reading, h.stopped⟩
  | @write bytes _ _ =>
    have hwritten : written { s with
        pipe := s.pipe ++ bytes, history := s.history ++ [.wrote bytes] } = s.written ++ bytes := by
      simp [written, Deed.written]
    refine ⟨h.whole, h.begun, ?_, h.reading, h.stopped⟩
    rw [hwritten, ← h.balance]
    exact (List.append_assoc _ _ _).symm
  | finish => exact ⟨h.whole, h.begun, h.balance, h.reading, h.stopped⟩

theorem mainStep (h : Cut s ended last) (hstep : MainStep s s') : Cut s' ended last := by
  cases hstep with
  | release | close | awaitTaker | awaitReader =>
    exact ⟨h.whole, h.begun, h.balance, h.reading, h.stopped⟩

/-- The taker gathers values, which are no lines. -/
theorem takerStep (h : Cut s ended last) (hstep : TakerStep s s') : Cut s' ended last := by
  cases hstep with
  | take | finish => exact ⟨h.whole, h.begun, h.balance, h.reading, h.stopped⟩
  | @keep v _ =>
    have hlines : lines { s with gathered := s.gathered ++ [.value v], taker := .waiting } =
        s.lines := by
      simp [lines, Gathered.line?]
    refine ⟨h.whole, h.begun, h.balance, ?_, ?_⟩
    · rw [hlines]
      exact h.reading
    · rw [hlines]
      exact h.stopped

/-- A newline ends the line that the reader keeps; any other byte goes to its end. -/
theorem readerStep (h : Cut s ended last) (hstep : ReaderStep s s') :
    ∃ ended last, Cut s' ended last := by
  cases hstep with
  | @read line block later hreader hpipe _ _ =>
    obtain ⟨hlines, hline⟩ := h.reading (by rw [hreader]; nofun)
    have hbalance := h.balance
    rw [hreader] at hline hbalance
    refine ⟨ended, last, h.whole, h.begun, Eq.trans ?_ hbalance, fun _ ↦ ⟨hlines, hline⟩, nofun⟩
    simp [Reader.rest, hpipe]
  | @extend line rest byte hreader hbyte =>
    obtain ⟨hlines, rfl⟩ := h.reading (by rw [hreader]; nofun)
    have hbalance := h.balance
    have hlast := h.begun
    rw [hreader] at hbalance hlast
    refine ⟨ended, line ++ [byte], h.whole, ?_, Eq.trans ?_ hbalance, fun _ ↦ ⟨hlines, rfl⟩, nofun⟩
    · simpa [Reader.line, Ne.symm hbyte] using hlast
    · simp [Reader.line, Reader.rest]
  | @keep line rest hreader =>
    obtain ⟨hlines, rfl⟩ := h.reading (by rw [hreader]; nofun)
    have hbalance := h.balance
    have hlast := h.begun
    rw [hreader] at hbalance hlast
    refine ⟨ended ++ [line], [], fun part hpart ↦ ?_, nofun, Eq.trans ?_ hbalance,
      fun _ ↦ ⟨?_, rfl⟩, nofun⟩
    · rcases List.mem_append.mp hpart with hpart | hpart
      · exact h.whole part hpart
      · rw [List.mem_singleton.mp hpart]
        exact hlast
    · simp [Reader.line, Reader.rest]
    · simpa [lines, Gathered.line?] using hlines
  | @next line hreader =>
    obtain ⟨hlines, hline⟩ := h.reading (by rw [hreader]; nofun)
    have hbalance := h.balance
    rw [hreader] at hline hbalance
    exact ⟨ended, last, h.whole, h.begun, hbalance, fun _ ↦ ⟨hlines, hline⟩, nofun⟩
  | @finish line hreader hpipe _ =>
    obtain ⟨hlines, rfl⟩ := h.reading (by rw [hreader]; nofun)
    have hbalance := h.balance
    have hlast := h.begun
    rw [hreader] at hbalance hlast
    refine ⟨ended, line, h.whole, hlast, hbalance, fun hundone ↦ absurd rfl hundone, fun _ ↦ ?_⟩
    rw [← hlines]
    by_cases hempty : line = [] <;> simp [lines, hempty, Gathered.line?]

end Cut

theorem Reached.cut (h : Reached room {} s) : ∃ ended last, Cut s ended last := by
  induction h with
  | start => exact ⟨[], [], .start⟩
  | step _ hstep ih =>
    obtain ⟨ended, last, hcut⟩ := ih
    cases hstep with
    | function hstep => exact ⟨ended, last, hcut.functionStep hstep⟩
    | main hstep => exact ⟨ended, last, hcut.mainStep hstep⟩
    | taker hstep => exact ⟨ended, last, hcut.takerStep hstep⟩
    | reader hstep => exact hcut.readerStep hstep

/-! ## Captures that have been left -/

theorem Phase.hasDrained_of_hasLeft {phase : Phase} (h : phase.hasLeft = true) :
    phase.hasDrained = true := by
  cases phase with
  | drained | left => rfl
  | calling | ended | released | closed => cases h

/-- At the end the gathered values are the values sent, and the gathered lines are the lines of the
bytes written. -/
theorem Reached.complete (h : Reached room {} s) (hleft : s.phase.hasLeft = true) :
    s.values = s.sent ∧ s.lines = Bytes.lines s.written := by
  have htaker : s.taker = .done := h.ordered.awaitedTaker (Phase.hasDrained_of_hasLeft hleft)
  have hreader : s.reader = .done := h.ordered.awaitedReader hleft
  constructor
  · have hbalance := h.flows.balance
    rw [htaker, (h.ordered.finished htaker).2] at hbalance
    simpa [Taker.held] using hbalance
  · obtain ⟨ended, last, hcut⟩ := h.cut
    have hbalance := hcut.balance
    rw [hreader, (h.ordered.emptied hreader).2] at hbalance
    rw [hcut.stopped hreader, ← hbalance]
    simpa [Reader.rest] using (Bytes.lines_flatMap hcut.whole hcut.begun).symm

end Eval.Capturing

end Conduit
