import Conduit.Proofs.Capturing

/-!
# Captures Go On

No thread of a capture waits for good.  While the function runs, a send that has to wait waits for
the taker, which has a value to take or to gather, and a write that has to wait waits for the
reader, which has bytes to read or to go through.  Once the function has ended, one of the main
thread, the taker and the reader can always take a step until the capture has been left, and
together they have only so many steps to take.
-/

namespace Conduit.Eval.Capturing

variable {room : Nat} {s s' : Capturing} {agent : Agent} {how : Outcome Unit}

/-! ## What is left to be done -/

/-- The most steps that a taker takes for what it has in its hands, and to stop. -/
def takerSteps : Taker → Nat
  | .waiting => 1
  | .holding _ => 2
  | .done => 0

/-- The most steps that a reader takes for what remains of its block, and to stop. -/
def readerSteps : Reader → Nat
  | .waiting _ => 1
  | .splitting _ rest => rest.length + 2
  | .done => 0

/-- The steps that the main thread takes once the function has ended. -/
def closingSteps : Phase → Nat
  | .calling => 0
  | .ended _ => 4
  | .released _ => 3
  | .closed _ => 2
  | .drained _ => 1
  | .left _ => 0

/-- The most steps that the taker and the reader take for what is there.  A queued value is taken
and gathered; a byte in the pipe is read and gone through, and its block is begun and ended. -/
def backlog (s : Capturing) : Nat :=
  takerSteps s.taker + 2 * s.output.queue.length + readerSteps s.reader + 3 * s.pipe.length

/-- The most steps that the threads take once the function has ended. -/
def remaining (s : Capturing) : Nat := closingSteps s.phase + backlog s

theorem TakerStep.backlog_lt (h : TakerStep s s') : backlog s' < backlog s := by
  cases h with
  | take htaker hrecv =>
    have hqueue := congrArg List.length (Channel.queue_of_recv? hrecv).2
    simp only [Option.toList_some, List.length_append, List.length_singleton] at hqueue
    simp only [backlog, htaker, takerSteps]
    omega
  | keep htaker =>
    simp only [backlog, htaker, takerSteps]
    omega
  | finish htaker hrecv =>
    have hqueue := congrArg List.length (Channel.queue_of_recv? hrecv).2
    simp only [Option.toList_none, List.nil_append] at hqueue
    simp only [backlog, htaker, takerSteps]
    omega

theorem ReaderStep.backlog_lt (h : ReaderStep s s') : backlog s' < backlog s := by
  cases h with
  | @read line block later hreader hpipe hblock _ =>
    have hpositive : 0 < block.length := List.length_pos_iff.mpr hblock
    simp only [backlog, hreader, hpipe, readerSteps, List.length_append]
    omega
  | extend hreader _ | keep hreader =>
    simp only [backlog, hreader, readerSteps, List.length_cons]
    omega
  | next hreader =>
    simp only [backlog, hreader, readerSteps, List.length_nil]
    omega
  | finish hreader _ _ =>
    simp only [backlog, hreader, readerSteps]
    omega

/-! ## While the function runs -/

/-- A taker that has not stopped can take a step if it holds a value, if one is queued, or if the
channel is closed. -/
theorem takes (hundone : s.taker ≠ .done)
    (hready : s.output.closed = true ∨ s.output.queue ≠ []) : ∃ s', TakerStep s s' := by
  cases htaker : s.taker with
  | waiting =>
    rcases hrecv : s.output.recv? with _ | ⟨output, _ | v⟩
    · obtain ⟨hopen, hempty⟩ := Channel.recv?_eq_none_iff.mp hrecv
      rcases hready with hclosed | hqueued
      · simp [hopen] at hclosed
      · exact absurd hempty hqueued
    · exact ⟨_, .finish htaker hrecv⟩
    · exact ⟨_, .take htaker hrecv⟩
  | holding v => exact ⟨_, .keep htaker⟩
  | done => exact absurd htaker hundone

/-- A reader that has not stopped can take a step if there is something to read or to go through, or
if the writing end is closed. -/
theorem reads (hundone : s.reader ≠ .done) (hready : s.phase.isWriting = false ∨ s.pipe ≠ []) :
    ∃ s', ReaderStep s s' := by
  cases hreader : s.reader with
  | waiting line =>
    rcases hpipe : s.pipe with _ | ⟨byte, later⟩
    · exact ⟨_, .finish hreader hpipe (hready.resolve_right fun hne ↦ hne hpipe)⟩
    · have hsplit : s.pipe = [byte] ++ later := hpipe
      exact ⟨_, .read hreader hsplit (List.cons_ne_nil byte []) (by simp [blockSize])⟩
  | splitting line rest =>
    rcases rest with _ | ⟨byte, rest⟩
    · exact ⟨_, .next hreader⟩
    · by_cases hbyte : byte = Bytes.newline
      · exact ⟨_, .keep (hbyte ▸ hreader)⟩
      · exact ⟨_, .extend hreader hbyte⟩
  | done => exact absurd hreader hundone

/-- While the function runs, a value can be sent unless there is something for the taker to do. -/
theorem Ordered.accepts_or_takes (h : Ordered s) (hphase : s.phase = .calling) (v : Value) :
    s.output.send? v = some (s.output.enqueue v, true) ∨ ∃ s', TakerStep s s' := by
  have hopen := (h.isOpen hphase).1
  rcases hsend : s.output.send? v with _ | ⟨output, accepted⟩
  · -- The channel is full; as it has room for one value at least, it is not empty.
    refine .inr (takes (fun hdone ↦ ?_) (.inr fun hempty ↦ ?_))
    · simp [(h.finished hdone).1] at hopen
    · have hfull := (Channel.send?_eq_none_iff.mp hsend).2
      rw [hempty] at hfull
      exact absurd h.room (Nat.not_lt_of_le hfull)
  · obtain ⟨rfl, rfl⟩ := Channel.send?_of_open hopen hsend
    exact .inl rfl

/-- While the function runs, a byte can be written unless there is something for the reader to
do. -/
theorem Ordered.fits_or_reads (h : Ordered s) (hphase : s.phase = .calling) (hroom : 0 < room) :
    s.pipe.length < room ∨ ∃ s', ReaderStep s s' := by
  rcases hpipe : s.pipe with _ | ⟨byte, later⟩
  · exact .inl hroom
  · exact .inr (reads (h.isOpen hphase).2 (.inr (by rw [hpipe]; nofun)))

/-! ## Leaving -/

/-- Once the function has ended and until the capture has been left, the main thread can take a
step, or one of the two that it may wait for can. -/
theorem Ordered.advances (h : Ordered s) (hcalling : s.phase ≠ .calling)
    (hleft : s.phase.hasLeft = false) :
    ∃ agent s', agent ≠ .function ∧ Step room s agent s' := by
  cases hphase : s.phase with
  | calling => exact absurd hphase hcalling
  | ended how => exact ⟨.main, _, nofun, .main (.release hphase)⟩
  | released how => exact ⟨.main, _, nofun, .main (.close hphase)⟩
  | closed how =>
    by_cases hdone : s.taker = .done
    · exact ⟨.main, _, nofun, .main (.awaitTaker hphase hdone)⟩
    · have hclosed : s.output.closed = true := h.closed.trans (by rw [hphase]; rfl)
      obtain ⟨s', hstep⟩ := takes hdone (.inl hclosed)
      exact ⟨.taker, s', nofun, .taker hstep⟩
  | drained how =>
    by_cases hdone : s.reader = .done
    · exact ⟨.main, _, nofun, .main (.awaitReader hphase hdone)⟩
    · obtain ⟨s', hstep⟩ := reads hdone (.inl (by rw [hphase]; rfl))
      exact ⟨.reader, s', nofun, .reader hstep⟩
  | left how => simp [hphase, Phase.hasLeft] at hleft

/-- Once the function has ended, it takes no step, and every step is one less to take. -/
theorem Step.remaining_lt (h : Step room s agent s') (hcalling : s.phase ≠ .calling) :
    s'.phase.how? = s.phase.how? ∧ s'.history = s.history ∧ remaining s' < remaining s := by
  cases h with
  | function hstep =>
    cases hstep with
    | send hphase | write hphase | finish _ hphase => exact absurd hphase hcalling
  | main hstep =>
    cases hstep with
    | release hphase | awaitTaker hphase _ | awaitReader hphase _ =>
      refine ⟨by rw [hphase]; rfl, rfl, ?_⟩
      simp only [remaining, backlog, hphase, closingSteps]
      omega
    | close hphase =>
      refine ⟨by rw [hphase]; rfl, rfl, ?_⟩
      simp only [remaining, backlog, hphase, closingSteps, Channel.close]
      omega
  | taker hstep =>
    have hbacklog := hstep.backlog_lt
    have hsame : s'.phase = s.phase ∧ s'.history = s.history := by
      cases hstep <;> exact ⟨rfl, rfl⟩
    refine ⟨by rw [hsame.1], hsame.2, ?_⟩
    simp only [remaining, hsame.1]
    omega
  | reader hstep =>
    have hbacklog := hstep.backlog_lt
    have hsame : s'.phase = s.phase ∧ s'.history = s.history := by
      cases hstep <;> exact ⟨rfl, rfl⟩
    refine ⟨by rw [hsame.1], hsame.2, ?_⟩
    simp only [remaining, hsame.1]
    omega

theorem Phase.calling_iff {phase : Phase} : phase = .calling ↔ phase.how? = none := by
  cases phase <;> simp [Phase.how?]

/-- The captures that a number of steps lead to. -/
inductive Ran (room : Nat) (s : Capturing) : Nat → Capturing → Prop
  | start : Ran room s 0 s
  | step {n : Nat} {s' s'' : Capturing} {agent : Agent} : Ran room s n s' →
      Step room s' agent s'' → Ran room s (n + 1) s''

/-- Once the function has ended, only so many steps are taken, in whatever order. -/
theorem Ran.bounded {n : Nat} (h : Ran room s n s') (hcalling : s.phase ≠ .calling) :
    s'.phase.how? = s.phase.how? ∧ s'.history = s.history ∧ n + remaining s' ≤ remaining s := by
  induction h with
  | start => exact ⟨rfl, rfl, by omega⟩
  | @step n s' s'' agent _ hstep ih =>
    obtain ⟨hhow, hhistory, hbound⟩ := ih
    have hcalling' : s'.phase ≠ .calling := by
      rwa [ne_eq, Phase.calling_iff, hhow, ← Phase.calling_iff]
    obtain ⟨hhow', hhistory', hlt⟩ := hstep.remaining_lt hcalling'
    exact ⟨hhow'.trans hhow, hhistory'.trans hhistory, by omega⟩

/-! ## A capture that goes in order -/

/-- The function runs, and the others have nothing to do. -/
structure Resting (s : Capturing) : Prop where
  phase : s.phase = .calling
  taker : s.taker = .waiting
  queue : s.output.queue = []
  pipe : s.pipe = []
  reader : ∃ line, s.reader = .waiting line

/-- A value may be sent and gathered at once. -/
theorem Reached.sends (h : Reached room {} s) (hresting : Resting s) (v : Value) :
    ∃ s', Reached room {} s' ∧ Resting s' ∧ s'.gathered = s.gathered ++ [.value v] ∧
      s'.history = s.history ++ [.sent v true] := by
  have hopen := (h.ordered.isOpen hresting.phase).1
  have hroom : s.output.hasRoom = true := by
    simpa [Channel.hasRoom, hresting.queue] using h.ordered.room
  have hsend : s.output.send? v = some (s.output.enqueue v, true) := by
    simp [Channel.send?, hopen, hroom]
  have hrecv : (s.output.enqueue v).recv? = some ({ s.output with queue := [] }, some v) := by
    simp [Channel.recv?, Channel.pop, Channel.enqueue, hresting.queue]
  have hsent := h.step (.function (.send hresting.phase hsend))
  have htaken := hsent.step (.taker (.take hresting.taker hrecv))
  exact ⟨_, htaken.step (.taker (.keep rfl)),
    ⟨hresting.phase, rfl, rfl, hresting.pipe, hresting.reader⟩, rfl, rfl⟩

theorem Reached.sendsAll (h : Reached room {} s) (hresting : Resting s) (values : List Value) :
    ∃ s', Reached room {} s' ∧ Resting s' ∧ s'.gathered = s.gathered ++ values.map .value ∧
      s'.history = s.history ++ values.map (.sent · true) := by
  induction values generalizing s with
  | nil => exact ⟨s, h, hresting, (List.append_nil _).symm, (List.append_nil _).symm⟩
  | cons v rest ih =>
    obtain ⟨s₁, h₁, hresting₁, hgathered₁, hhistory₁⟩ := h.sends hresting v
    obtain ⟨s', h', hresting', hgathered, hhistory⟩ := ih h₁ hresting₁
    refine ⟨s', h', hresting', ?_, ?_⟩
    · rw [hgathered, hgathered₁]
      simp
    · rw [hhistory, hhistory₁]
      simp

/-- A byte may be written, read and gone through at once. -/
theorem Reached.writes (h : Reached room {} s) (hresting : Resting s) (hroom : 0 < room)
    (byte : UInt8) :
    ∃ (s' : Capturing) (more : List Bytes), Reached room {} s' ∧ Resting s' ∧
      s'.gathered = s.gathered ++ more.map .line ∧ s'.history = s.history ++ [.wrote [byte]] := by
  obtain ⟨line, hreader⟩ := hresting.reader
  have hfits : s.pipe.length + [byte].length ≤ room := by
    rw [hresting.pipe]
    exact hroom
  have hpipe : s.pipe ++ [byte] = [byte] ++ [] := by rw [hresting.pipe]; rfl
  have hwritten := h.step (.function (.write hresting.phase hfits))
  have hread := hwritten.step
    (.reader (.read hreader hpipe (List.cons_ne_nil byte []) (by simp [blockSize])))
  by_cases hbyte : byte = Bytes.newline
  · subst hbyte
    have hkept := hread.step (.reader (.keep rfl))
    exact ⟨_, [line], hkept.step (.reader (.next rfl)),
      ⟨hresting.phase, hresting.taker, hresting.queue, rfl, [], rfl⟩, rfl, rfl⟩
  · have hextended := hread.step (.reader (.extend rfl hbyte))
    exact ⟨_, [], hextended.step (.reader (.next rfl)),
      ⟨hresting.phase, hresting.taker, hresting.queue, rfl, _, rfl⟩,
      (List.append_nil _).symm, rfl⟩

theorem Reached.writesAll (h : Reached room {} s) (hresting : Resting s) (hroom : 0 < room)
    (bytes : Bytes) :
    ∃ (s' : Capturing) (more : List Bytes), Reached room {} s' ∧ Resting s' ∧
      s'.gathered = s.gathered ++ more.map .line ∧
      s'.history = s.history ++ bytes.map fun byte ↦ .wrote [byte] := by
  induction bytes generalizing s with
  | nil => exact ⟨s, [], h, hresting, (List.append_nil _).symm, (List.append_nil _).symm⟩
  | cons byte rest ih =>
    obtain ⟨s₁, more₁, h₁, hresting₁, hgathered₁, hhistory₁⟩ := h.writes hresting hroom byte
    obtain ⟨s', more', h', hresting', hgathered, hhistory⟩ := ih h₁ hresting₁
    refine ⟨s', more₁ ++ more', h', hresting', ?_, ?_⟩
    · rw [hgathered, hgathered₁]
      simp
    · rw [hhistory, hhistory₁]
      simp

/-- A function that ends while the others have nothing to do is left in six steps. -/
theorem Reached.leaves (h : Reached room {} s) (hresting : Resting s) (how : Outcome Unit) :
    ∃ (s' : Capturing) (more : List Bytes), Reached room {} s' ∧ s'.phase = .left how ∧
      s'.gathered = s.gathered ++ more.map .line ∧ s'.history = s.history := by
  obtain ⟨line, hreader⟩ := hresting.reader
  have hrecv : s.output.close.recv? = some (s.output.close, none) := by
    simp [Channel.recv?, Channel.pop, Channel.close, hresting.queue]
  have hended := h.step (.function (.finish how hresting.phase))
  have hclosed := (hended.step (.main (.release rfl))).step (.main (.close rfl))
  have htaker := hclosed.step (.taker (.finish hresting.taker hrecv))
  have hdrained := htaker.step (.main (.awaitTaker rfl rfl))
  have hread := hdrained.step (.reader (.finish hreader hresting.pipe rfl))
  refine ⟨_, if line = [] then [] else [line], hread.step (.main (.awaitReader rfl rfl)), rfl, ?_,
    rfl⟩
  dsimp only
  split <;> rfl

/-- There is a capture of a function that sends given values, writes given bytes and ends in a given
way, in which the values are gathered in front of the lines. -/
theorem exists_left (hroom : 0 < room) (values : List Value) (bytes : Bytes)
    (how : Outcome Unit) :
    ∃ s, Reached room {} s ∧ s.phase = .left how ∧ s.sent = values ∧ s.written = bytes ∧
      s.gathered = values.map .value ++ (Bytes.lines bytes).map .line := by
  have hstart : Resting {} := ⟨rfl, rfl, rfl, rfl, [], rfl⟩
  obtain ⟨s₁, h₁, hresting₁, hgathered₁, hhistory₁⟩ := Reached.start.sendsAll hstart values
  obtain ⟨s₂, more₂, h₂, hresting₂, hgathered₂, hhistory₂⟩ := h₁.writesAll hresting₁ hroom bytes
  obtain ⟨s, more, h, hleft, hgathered, hhistory⟩ := h₂.leaves hresting₂ how
  rw [hhistory₂, hhistory₁] at hhistory
  rw [hgathered₂, hgathered₁] at hgathered
  have hsent : s.sent = values := by
    rw [sent, hhistory]
    simp [Deed.sent?, Function.comp_def]
  have hwritten : s.written = bytes := by
    rw [written, hhistory]
    simp [Deed.written, List.flatMap_map]
  have hlines : s.lines = more₂ ++ more := by
    rw [lines, hgathered]
    simp [Gathered.line?, Function.comp_def]
  rw [(h.complete (by rw [hleft]; rfl)).2, hwritten] at hlines
  refine ⟨s, h, hleft, hsent, hwritten, ?_⟩
  rw [hgathered, hlines]
  simp

/-! ## All captures -/

theorem map_toValue_of_lines {gathered : List Gathered}
    (h : gathered.filterMap Gathered.line? = []) :
    gathered.map Gathered.toValue = gathered.filterMap Gathered.value? := by
  induction gathered with
  | nil => rfl
  | cons g rest ih =>
    cases g with
    | value v => simpa [Gathered.toValue, Gathered.value?] using ih h
    | line text => simp [Gathered.line?] at h

theorem map_toValue_of_values {gathered : List Gathered}
    (h : gathered.filterMap Gathered.value? = []) :
    gathered.map Gathered.toValue = (gathered.filterMap Gathered.line?).map .text := by
  induction gathered with
  | nil => rfl
  | cons g rest ih =>
    cases g with
    | value v => simp [Gathered.value?] at h
    | line text => simpa [Gathered.toValue, Gathered.line?] using ih h

/-- A run of the threads of a capture is over: the function has sent given values, written given
bytes and ended in a given way, and the capture has been left. -/
structure Ending (room : Nat) (how : Outcome Unit) (values : List Value) (bytes : Bytes)
    (s : Capturing) : Prop where
  reached : Reached room {} s
  left : s.phase = .left how
  sent : s.sent = values
  written : s.written = bytes

/-- What holds of a capture at any time: nothing that was sent has been refused; no send and no
write waits for good, and neither does anyone once the function has ended; and where the capture has
been left, all values and lines have been gathered, nothing is left in the channel, which is closed,
and in the pipe, and both threads have stopped. -/
structure Sound (room : Nat) (s : Capturing) : Prop where
  accepted : ∀ v accepted, .sent v accepted ∈ s.history → accepted = true
  sending : s.phase = .calling → ∀ v,
    s.output.send? v = some (s.output.enqueue v, true) ∨ ∃ s', Step room s .taker s'
  writing : s.phase = .calling → s.pipe.length < room ∨ ∃ s', Step room s .reader s'
  taking : ∀ s', Step room s .taker s' → backlog s' < backlog s
  reading : ∀ s', Step room s .reader s' → backlog s' < backlog s
  advancing : s.phase ≠ .calling → s.phase.hasLeft = false →
    ∃ agent s', agent ≠ .function ∧ Step room s agent s'
  ending : s.phase ≠ .calling → ∀ n s', Ran room s n s' → n ≤ remaining s
  complete : s.phase.hasLeft = true → s.values = s.sent ∧ s.lines = Bytes.lines s.written
  onlyValues : s.phase.hasLeft = true → s.written = [] → s.result (.done ()) = .done s.sent
  onlyLines : s.phase.hasLeft = true → s.sent = [] →
    s.result (.done ()) = .done (lineValues s.written)
  emptied : s.phase.hasLeft = true → s.output.closed = true ∧ s.output.queue = [] ∧ s.pipe = [] ∧
    s.taker = .done ∧ s.reader = .done

theorem Reached.sound (h : Reached room {} s) (hroom : 0 < room) : Sound room s where
  accepted := h.flows.accepted
  sending hphase v :=
    (h.ordered.accepts_or_takes hphase v).imp_right fun ⟨s', hstep⟩ ↦ ⟨s', .taker hstep⟩
  writing hphase :=
    (h.ordered.fits_or_reads hphase hroom).imp_right fun ⟨s', hstep⟩ ↦ ⟨s', .reader hstep⟩
  taking s' hstep := by
    cases hstep with
    | taker hstep => exact hstep.backlog_lt
  reading s' hstep := by
    cases hstep with
    | reader hstep => exact hstep.backlog_lt
  advancing := h.ordered.advances
  ending hcalling n s' hran := by
    obtain ⟨-, -, hbound⟩ := hran.bounded hcalling
    omega
  complete := h.complete
  onlyValues hleft hwritten := by
    obtain ⟨hvalues, hlines⟩ := h.complete hleft
    rw [hwritten] at hlines
    exact congrArg Outcome.done ((map_toValue_of_lines hlines).trans hvalues)
  onlyLines hleft hsent := by
    obtain ⟨hvalues, hlines⟩ := h.complete hleft
    rw [hsent] at hvalues
    exact congrArg Outcome.done ((map_toValue_of_values hvalues).trans (congrArg _ hlines))
  emptied hleft := by
    have htaker : s.taker = .done := h.ordered.awaitedTaker (Phase.hasDrained_of_hasLeft hleft)
    have hreader : s.reader = .done := h.ordered.awaitedReader hleft
    obtain ⟨hclosed, hqueue⟩ := h.ordered.finished htaker
    exact ⟨hclosed, hqueue, (h.ordered.emptied hreader).2, htaker, hreader⟩

end Conduit.Eval.Capturing
