import Conduit.Proofs.Channel
import Conduit.Shell.Session

/-!
# How a Session Goes

Whatever order the threads of a line take their steps in, three things are kept.  The threads stand
to each other as the main one has left them: a forwarder is at work only until it has been waited
for, the channel is open until it is closed, and the drainer stops only when it is closed and
drained.  What has been printed, the rest of the line that is being printed and the lines of the
queued values make up the lines of the values sent so far.  And where the interrupt flag is set, the
evaluation has set it or an interrupt signal has come since the line began.
-/

namespace Conduit.Shell

/-! ## Stages -/

namespace Stage

variable {stage : Stage}

theorem not_isOver_of_isPreparing (h : stage.isPreparing = true) : stage.isOver = false := by
  cases stage <;> simp [isPreparing, isOver] at h ⊢

theorem of_not_isOver (h : stage.isOver = false) : stage.hasJoined = false ∧
    stage.hasClosed = false ∧ stage.hasDrained = false ∧ stage.hasLeft = false := by
  cases stage <;> simp [isOver, hasJoined, hasClosed, hasDrained, hasLeft] at h ⊢

theorem of_hasLeft (h : stage.hasLeft = true) : stage.hasJoined = true ∧
    stage.hasClosed = true ∧ stage.hasDrained = true ∧ stage.isOver = true := by
  cases stage <;> simp [isOver, hasJoined, hasClosed, hasDrained, hasLeft] at h ⊢

end Stage

namespace Session

variable {p : Prompt} {s s' : Session} {agent : Agent}

/-! ## Threads -/

/-- How the threads stand to each other. -/
structure Ordered (s : Session) : Prop where
  cancelled : s.cancelled = s.stage.isOver
  closed : s.output.closed = s.stage.hasClosed
  room : 0 < s.output.capacity
  finished : s.drainer = .done → s.output.closed = true ∧ s.output.queue = []
  awaited : s.stage.hasDrained = true → s.drainer = .done
  unstarted : s.stage.isPreparing = true → s.forwarder = .absent
  joined : s.stage.hasJoined = true → s.forwarder.isIdle = true
  attached : s.stage = .dropping ∨ s.forwarder.isIdle = false → s.stub.isSome = true

namespace Ordered

theorem start (p : Prompt) (w : World) : Ordered (start p w) where
  cancelled := rfl
  closed := rfl
  room := Nat.lt_of_lt_of_le Nat.one_pos (Nat.le_max_left 1 p.capacity)
  finished := nofun
  awaited := nofun
  unstarted _ := rfl
  joined := nofun
  attached := by simp [Session.start, Forwarder.isIdle]

/-- Until the line has ended, the main thread may go on to any stage of that time. -/
theorem advance (h : Ordered s) (stage : Stage) (hbefore : s.stage.isOver = false)
    (hafter : stage.isOver = false)
    (hunstarted : stage.isPreparing = true → s.stage.isPreparing = true)
    (hattached : stage = .dropping → s.stub.isSome = true) : Ordered { s with stage } := by
  obtain ⟨-, hwasOpen, -⟩ := Stage.of_not_isOver hbefore
  obtain ⟨hunjoined, hopen, hundrained, -⟩ := Stage.of_not_isOver hafter
  exact { h with
    cancelled := by rw [h.cancelled, hbefore, hafter]
    closed := by rw [h.closed, hwasOpen, hopen]
    awaited := fun hdrained ↦ by simp [hundrained] at hdrained
    unstarted := fun hpreparing ↦ h.unstarted (hunstarted hpreparing)
    joined := fun hjoined ↦ by simp [hunjoined] at hjoined
    attached := fun hwhen ↦ hwhen.elim hattached fun hbusy ↦ h.attached (.inr hbusy) }

/-- Until the line has ended, it may be stopped. -/
theorem stop (h : Ordered s) (hbefore : s.stage.isOver = false) (how : Ending) :
    Ordered (s.stop how) := by
  obtain ⟨-, hopen, -⟩ := Stage.of_not_isOver hbefore
  exact { h with
    cancelled := rfl
    closed := h.closed.trans hopen
    awaited := nofun
    unstarted := nofun
    joined := nofun
    attached := fun hwhen ↦ h.attached (.inr (hwhen.resolve_left nofun)) }

/-- Once the line has ended, the main thread may go on to any stage whose threads have been waited
for. -/
theorem conclude (h : Ordered s) (stage : Stage) (hbefore : s.stage.isOver = true)
    (hafter : stage.isOver = true) (hclosed : s.stage.hasClosed = stage.hasClosed)
    (hjoined : stage.hasJoined = true → s.forwarder.isIdle = true)
    (hdrained : stage.hasDrained = true → s.drainer = .done) : Ordered { s with stage } := by
  have hlate : stage.isPreparing ≠ true ∧ stage ≠ .dropping := by
    cases stage <;> simp [Stage.isOver, Stage.isPreparing] at hafter ⊢
  exact { h with
    cancelled := by rw [h.cancelled, hbefore, hafter]
    closed := h.closed.trans hclosed
    awaited := hdrained
    unstarted := fun hpreparing ↦ absurd hpreparing hlate.1
    joined := hjoined
    attached := fun hwhen ↦ h.attached (.inr (hwhen.resolve_left hlate.2)) }

theorem mainStep (h : Ordered s) (hstep : MainStep p s s') : Ordered s' := by
  cases hstep with
  | clear hstage =>
    have hpreparing : s.stage.isPreparing = true := by rw [hstage]; rfl
    exact { h.advance .cleared (by rw [hstage]; rfl) rfl (fun _ ↦ hpreparing) nofun with }
  | @engage stub failed hstage hstub hengages =>
    have hpreparing : s.stage.isPreparing = true := by rw [hstage]; rfl
    have hsome : s.stub.isSome = true := by rw [hstub]; rfl
    exact { h.advance .dropping (by rw [hstage]; rfl) rfl (fun _ ↦ hpreparing) fun _ ↦ hsome with
      attached := fun _ ↦ rfl }
  | proceed hstage hengages =>
    exact h.advance .evaluating (by rw [hstage]; rfl) rfl nofun nofun
  | drop hstage hstub hsignal => exact { h with attached := fun _ ↦ rfl }
  | forward hstage hstub hnone =>
    have hsome : s.stub.isSome = true := by rw [hstub]; rfl
    exact { h.advance .evaluating (by rw [hstage]; rfl) rfl nofun nofun with
      unstarted := nofun
      joined := nofun
      attached := fun _ ↦ hsome }
  | breakOff what hpreparing =>
    exact h.stop (Stage.not_isOver_of_isPreparing hpreparing) _
  | @join how hstage hidle =>
    exact h.conclude (.stopped how) (by rw [hstage]; rfl) rfl (by rw [hstage]; rfl)
      (fun _ ↦ hidle) nofun
  | close hstage =>
    have hidle : s.forwarder.isIdle = true := h.joined (by rw [hstage]; rfl)
    exact { h with
      cancelled := by rw [h.cancelled, hstage]; rfl
      closed := rfl
      finished := fun hdone ↦ ⟨rfl, (h.finished hdone).2⟩
      awaited := nofun
      unstarted := nofun
      joined := fun _ ↦ hidle
      attached := fun hwhen ↦ h.attached (.inr (hwhen.resolve_left nofun)) }
  | @await how hstage hdone =>
    have hidle : s.forwarder.isIdle = true := h.joined (by rw [hstage]; rfl)
    exact h.conclude (.drained how) (by rw [hstage]; rfl) rfl (by rw [hstage]; rfl)
      (fun _ ↦ hidle) fun _ ↦ hdone
  | @leave how failed hstage =>
    have hidle : s.forwarder.isIdle = true := h.joined (by rw [hstage]; rfl)
    have hdone : s.drainer = .done := h.awaited (by rw [hstage]; rfl)
    exact { h.conclude (.left how) (by rw [hstage]; rfl) rfl (by rw [hstage]; rfl)
      (fun _ ↦ hidle) fun _ ↦ hdone with }

/-- While the line is evaluated the channel is open. -/
theorem isOpen (h : Ordered s) (hstage : s.stage = .evaluating) : s.output.closed = false := by
  rw [h.closed, hstage]
  rfl

theorem evaluationStep (h : Ordered s) (hstep : EvaluationStep s s') : Ordered s' := by
  cases hstep with
  | send hstage hsend =>
    have hopen := h.isOpen hstage
    obtain ⟨-, rfl⟩ := Channel.send?_of_open hopen hsend
    exact { h with
      finished := fun hdone ↦ by simp [(h.finished hdone).1] at hopen }
  | poll hstage => exact { h with }
  | trip hstage => exact { h with }
  | finish how hstage => exact h.stop (by rw [hstage]; rfl) how

theorem drainerStep (h : Ordered s) (hstep : DrainerStep p s s') : Ordered s' := by
  have hundone : ∀ {drainer}, s.drainer = drainer → drainer ≠ .done → s.stage.hasDrained ≠ true :=
    fun hdrainer hne hdrained ↦ hne (hdrainer.symm.trans (h.awaited hdrained))
  cases hstep with
  | take hdrainer hrecv =>
    exact { h with
      closed := (Channel.queue_of_recv? hrecv).1.trans h.closed
      room := Nat.lt_of_lt_of_eq h.room (Channel.capacity_of_recv? hrecv).symm
      finished := nofun
      awaited := fun hdrained ↦ absurd hdrained (hundone hdrainer nofun) }
  | print hdrainer hnow =>
    exact { h with
      finished := nofun
      awaited := fun hdrained ↦ absurd hdrained (hundone hdrainer nofun) }
  | next hdrainer =>
    exact { h with
      finished := nofun
      awaited := fun hdrained ↦ absurd hdrained (hundone hdrainer nofun) }
  | finish hdrainer hrecv =>
    obtain ⟨hclosed, hqueue⟩ := Channel.queue_of_recv? hrecv
    obtain ⟨hwasClosed, hempty⟩ := Channel.closed_of_recv?_none hrecv
    exact { h with
      closed := hclosed.trans h.closed
      room := Nat.lt_of_lt_of_eq h.room (Channel.capacity_of_recv? hrecv).symm
      finished := fun _ ↦ ⟨hclosed.trans hwasClosed, hqueue.symm.trans hempty⟩
      awaited := fun _ ↦ rfl }

/-- A forwarder that is at work may go on to anything. -/
theorem moveForwarder (h : Ordered s) (hbusy : s.forwarder.isIdle = false) (forwarder : Forwarder) :
    Ordered { s with forwarder } where
  cancelled := h.cancelled
  closed := h.closed
  room := h.room
  finished := h.finished
  awaited := h.awaited
  unstarted hpreparing := by simp [h.unstarted hpreparing, Forwarder.isIdle] at hbusy
  joined hjoined := by simp [h.joined hjoined] at hbusy
  attached _ := h.attached (.inr hbusy)

theorem forwarderStep (h : Ordered s) (hstep : ForwarderStep s s') : Ordered s' := by
  cases hstep with
  | check hforwarder => exact h.moveForwarder (by rw [hforwarder]; rfl) _
  | receive hforwarder hstub =>
    exact { h.moveForwarder (by rw [hforwarder]; rfl) _ with attached := fun _ ↦ rfl }
  | lack hforwarder hstub => exact h.moveForwarder (by rw [hforwarder]; rfl) _
  | interrupt hforwarder => exact { h.moveForwarder (by rw [hforwarder]; rfl) .done with }
  | ignore hforwarder hsignal => exact h.moveForwarder (by rw [hforwarder]; rfl) _

theorem stubStep (h : Ordered s) (hstep : StubStep s s') : Ordered s' := by
  cases hstep with
  | signal hstub hsend => exact { h with attached := fun _ ↦ rfl }
  | hangUp hstub => exact { h with attached := fun _ ↦ rfl }
  | die hstub => exact { h with attached := fun _ ↦ rfl }

theorem step (h : Ordered s) (hstep : Step p s agent s') : Ordered s' := by
  cases hstep with
  | main hstep => exact h.mainStep hstep
  | evaluation hstep => exact h.evaluationStep hstep
  | drainer hstep => exact h.drainerStep hstep
  | forwarder hstep => exact h.forwarderStep hstep
  | stub hstep => exact h.stubStep hstep

end Ordered

theorem Reached.ordered {w : World} (h : Reached p (Session.start p w) s) : Ordered s := by
  induction h with
  | start => exact .start p w
  | step _ hstep ih => exact ih.step hstep

/-! ## Values -/

/-- The lines that show values. -/
def shown (leader : Bytes) (values : List Value) : Bytes := values.flatMap (valueLine leader)

theorem shown_append (leader : Bytes) (values more : List Value) :
    shown leader (values ++ more) = shown leader values ++ shown leader more :=
  List.flatMap_append

theorem shown_cons (leader : Bytes) (v : Value) (values : List Value) :
    shown leader (v :: values) = valueLine leader v ++ shown leader values :=
  List.flatMap_cons

/-- What has been printed, what is being printed and what is queued make up the values sent, all of
which were accepted.  Before the evaluation nothing is sent, and only then does the shell greet; it
bids farewell at the end. -/
structure Flows (p : Prompt) (before : Bytes) (s : Session) : Prop where
  idle : s.stage.isPreparing = true → s.history = [] ∧ s.output.queue = [] ∧ s.drainer = .waiting
  ungreeted : s.stage = .cleared ∨ s.stage = .begun → s.greeting = []
  greeted : ∃ failed, s.greeting = complaint (utf8 "stub") failed
  staying : s.stage.hasLeft = false → s.farewell = []
  parted : ∃ failed, s.farewell = complaint (utf8 "myself") failed
  accepted : ∀ v accepted, .sent v accepted ∈ s.history → accepted = true
  balance : s.printed ++ s.drainer.rest ++ shown p.leader s.output.queue =
    before ++ s.greeting ++ shown p.leader s.sent ++ s.farewell

namespace Flows

variable {before : Bytes}

theorem start (p : Prompt) (w : World) : Flows p w.printed (start p w) where
  idle _ := ⟨rfl, rfl, rfl⟩
  ungreeted _ := rfl
  greeted := ⟨false, rfl⟩
  staying _ := rfl
  parted := ⟨false, rfl⟩
  accepted := nofun
  balance := by simp [Session.start, Channel.ofCapacity, Drainer.rest, shown, sent]

/-- A session that has not been left may go on to a stage after the preparations. -/
theorem enter (h : Flows p before s) (hstaying : s.stage.hasLeft = false) {stage : Stage}
    (hstage : stage.isPreparing = false) : Flows p before { s with stage } :=
  { h with
    idle := fun hpreparing ↦ by simp [hstage] at hpreparing
    ungreeted := fun hwhen ↦ by
      obtain rfl | rfl := hwhen
      · cases hstage
      · cases hstage
    staying := fun _ ↦ h.staying hstaying }

theorem mainStep (h : Flows p before s) (hordered : Ordered s) (hstep : MainStep p s s') :
    Flows p before s' := by
  cases hstep with
  | clear hstage =>
    exact { h with
      idle := fun _ ↦ h.idle (by rw [hstage]; rfl)
      ungreeted := fun _ ↦ h.ungreeted (.inr hstage)
      staying := fun _ ↦ h.staying (by rw [hstage]; rfl) }
  | engage failed hstage hstub hengages =>
    obtain ⟨hhistory, hqueue, hdrainer⟩ := h.idle (by rw [hstage]; rfl)
    have hgreeting : s.greeting = [] := h.ungreeted (.inl hstage)
    have hfarewell : s.farewell = [] := h.staying (by rw [hstage]; rfl)
    have hbalance : s.printed = before := by
      simpa [hhistory, hqueue, hdrainer, hgreeting, hfarewell, Drainer.rest, shown, sent]
        using h.balance
    exact { h with
      idle := fun _ ↦ ⟨hhistory, hqueue, hdrainer⟩
      ungreeted := nofun
      greeted := ⟨failed, rfl⟩
      staying := fun _ ↦ hfarewell
      balance := by
        simp [hhistory, hqueue, hdrainer, hfarewell, hbalance, Drainer.rest, shown, sent] }
  | proceed hstage hengages => exact h.enter (by rw [hstage]; rfl) rfl
  | drop hstage hstub hsignal => exact { h with }
  | forward hstage hstub hnone => exact { h.enter (by rw [hstage]; rfl) rfl with }
  | breakOff what hpreparing =>
    obtain ⟨-, -, -, hstaying⟩ :=
      Stage.of_not_isOver (Stage.not_isOver_of_isPreparing hpreparing)
    exact { h.enter hstaying rfl with }
  | join hstage hidle => exact h.enter (by rw [hstage]; rfl) rfl
  | close hstage => exact { h.enter (by rw [hstage]; rfl) rfl with }
  | await hstage hdone => exact h.enter (by rw [hstage]; rfl) rfl
  | leave failed hstage =>
    -- The drainer has been waited for, so nothing is queued or half printed when the shell speaks.
    have hdone : s.drainer = .done := hordered.awaited (by rw [hstage]; rfl)
    have hqueue : s.output.queue = [] := (hordered.finished hdone).2
    have hfarewell : s.farewell = [] := h.staying (by rw [hstage]; rfl)
    have hbalance : s.printed = before ++ s.greeting ++ shown p.leader s.sent := by
      simpa [hqueue, hdone, hfarewell, Drainer.rest, shown] using h.balance
    exact { h with
      idle := nofun
      ungreeted := nofun
      staying := nofun
      parted := ⟨failed, rfl⟩
      balance := by
        simp only [hdone, hqueue, hbalance, Drainer.rest]
        simp [shown, sent] }

/-- What the evaluation does besides sending leaves the values alone. -/
theorem note (h : Flows p before s) (hstage : s.stage = .evaluating) {deed : Deed}
    (hdeed : deed.sent? = none) (interrupted : Bool) :
    Flows p before { s with interrupted, history := s.history ++ [deed] } :=
  { h with
    idle := fun hpreparing ↦ by simp [hstage, Stage.isPreparing] at hpreparing
    accepted := fun v accepted hmem ↦ by
      rcases List.mem_append.mp hmem with hmem | hmem
      · exact h.accepted v accepted hmem
      · rw [← List.mem_singleton.mp hmem] at hdeed
        cases hdeed
    balance := by
      have hsent : sent { s with interrupted, history := s.history ++ [deed] } = s.sent := by
        simp [sent, hdeed]
      rw [hsent]
      exact h.balance }

theorem evaluationStep (h : Flows p before s) (hordered : Ordered s) (hstep : EvaluationStep s s') :
    Flows p before s' := by
  cases hstep with
  | @send v output accepted hstage hsend =>
    obtain ⟨rfl, rfl⟩ := Channel.send?_of_open (hordered.isOpen hstage) hsend
    have hfarewell : s.farewell = [] := h.staying (by rw [hstage]; rfl)
    exact { h with
      idle := fun hpreparing ↦ by simp [hstage, Stage.isPreparing] at hpreparing
      accepted := fun u accepted hmem ↦ by
        rcases List.mem_append.mp hmem with hmem | hmem
        · exact h.accepted u accepted hmem
        · cases List.mem_singleton.mp hmem
          rfl
      balance := by
        have hbalance := h.balance
        have hsent : sent { s with
            output := s.output.enqueue v, history := s.history ++ [.sent v true] } =
            s.sent ++ [v] := by
          simp [sent, Deed.sent?]
        rw [hfarewell, List.append_nil] at hbalance
        change s.printed ++ s.drainer.rest ++ shown p.leader (s.output.queue ++ [v]) = _
        rw [hsent, shown_append, shown_append, ← List.append_assoc, hbalance, hfarewell]
        simp }
  | poll hstage => exact h.note hstage rfl s.interrupted
  | trip hstage => exact h.note hstage rfl true
  | finish how hstage => exact { h.enter (by rw [hstage]; rfl) rfl with }

theorem drainerStep (h : Flows p before s) (hordered : Ordered s) (hstep : DrainerStep p s s') :
    Flows p before s' := by
  cases hstep with
  | @take v output hdrainer hrecv =>
    obtain ⟨-, hqueue⟩ := Channel.queue_of_recv? hrecv
    exact { h with
      idle := fun hpreparing ↦ by simp [(h.idle hpreparing).2.1] at hqueue
      balance := by
        refine Eq.trans ?_ h.balance
        rw [hqueue, hdrainer]
        simp [Drainer.rest, shown_cons] }
  | print hdrainer hnow =>
    exact { h with
      idle := fun hpreparing ↦ by simp [(h.idle hpreparing).2.2] at hdrainer
      balance := by
        refine Eq.trans ?_ h.balance
        rw [hdrainer]
        simp [Drainer.rest] }
  | next hdrainer =>
    exact { h with
      idle := fun hpreparing ↦ by simp [(h.idle hpreparing).2.2] at hdrainer
      balance := by
        refine Eq.trans ?_ h.balance
        rw [hdrainer]
        rfl }
  | finish hdrainer hrecv =>
    -- Nothing is received only once the channel is closed, long after the preparations.
    obtain ⟨-, hqueue⟩ := Channel.queue_of_recv? hrecv
    have hclosed := (Channel.closed_of_recv?_none hrecv).1
    exact { h with
      idle := fun hpreparing ↦ by
        have hopen : s.stage.hasClosed = true := hordered.closed.symm.trans hclosed
        obtain ⟨-, hnot, -⟩ := Stage.of_not_isOver (Stage.not_isOver_of_isPreparing hpreparing)
        simp [hnot] at hopen
      balance := by
        refine Eq.trans ?_ h.balance
        rw [hqueue, hdrainer]
        rfl }

theorem forwarderStep (h : Flows p before s) (hstep : ForwarderStep s s') : Flows p before s' := by
  cases hstep with
  | check hforwarder => exact { h with }
  | receive hforwarder hstub => exact { h with }
  | lack hforwarder hstub => exact { h with }
  | interrupt hforwarder => exact { h with }
  | ignore hforwarder hsignal => exact { h with }

theorem stubStep (h : Flows p before s) (hstep : StubStep s s') : Flows p before s' := by
  cases hstep with
  | signal hstub hsend => exact { h with }
  | hangUp hstub => exact { h with }
  | die hstub => exact { h with }

theorem step (h : Flows p before s) (hordered : Ordered s) (hstep : Step p s agent s') :
    Flows p before s' := by
  cases hstep with
  | main hstep => exact h.mainStep hordered hstep
  | evaluation hstep => exact h.evaluationStep hordered hstep
  | drainer hstep => exact h.drainerStep hordered hstep
  | forwarder hstep => exact h.forwarderStep hstep
  | stub hstep => exact h.stubStep hstep

end Flows

theorem Reached.flows {w : World} (h : Reached p (Session.start p w) s) :
    Flows p w.printed s := by
  induction h with
  | start => exact .start p w
  | step hreached hstep ih => exact ih.step hreached.ordered hstep

/-! ## Interrupts -/

/-- The evaluation has set the interrupt flag, or an interrupt signal has come since the line began.
-/
def Disturbed (s : Session) : Prop :=
  .tripped ∈ s.history ∨ Eval.interruptSignal ∈ s.arrived

/-- The forwarder gets only signals that have come since the line began, and the flag is set and
found set only for a reason.  At the end it is clear. -/
structure Heeds (s : Session) : Prop where
  arrivals : s.forwarder ≠ .absent → ∀ stub, s.stub = some stub →
    ∀ signal ∈ stub.signals.queue, signal ∈ s.arrived
  held : ∀ signal, s.forwarder = .holding signal → signal ∈ s.arrived
  cause : s.stage ≠ .begun → s.stage.isOver = false → s.interrupted = true → s.Disturbed
  polled : .polled true ∈ s.history → s.Disturbed
  clear : s.stage.hasLeft = true → s.interrupted = false

namespace Heeds

theorem start (p : Prompt) (w : World) : Heeds (start p w) where
  arrivals := fun h ↦ absurd rfl h
  held := nofun
  cause := fun h ↦ absurd rfl h
  polled := nofun
  clear := nofun

theorem mainStep (h : Heeds s) (hordered : Ordered s) (hstep : MainStep p s s') : Heeds s' := by
  cases hstep with
  | clear hstage => exact { h with cause := nofun, clear := nofun }
  | engage failed hstage hstub hengages =>
    have habsent : s.forwarder = .absent := hordered.unstarted (by rw [hstage]; rfl)
    exact { h with
      arrivals := fun hpresent ↦ absurd habsent hpresent
      cause := fun _ _ ↦ h.cause (by rw [hstage]; nofun) (by rw [hstage]; rfl)
      clear := nofun }
  | proceed hstage hengages =>
    exact { h with
      cause := fun _ _ ↦ h.cause (by rw [hstage]; nofun) (by rw [hstage]; rfl)
      clear := nofun }
  | drop hstage hstub hsignal =>
    have habsent : s.forwarder = .absent := hordered.unstarted (by rw [hstage]; rfl)
    exact { h with arrivals := fun hpresent ↦ absurd habsent hpresent }
  | @forward stub hstage hstub hnone =>
    -- Nothing is left of the signals that came before, so the forwarder starts with none of them.
    exact { h with
      arrivals := fun _ other hother signal hsignal ↦ by
        rw [hstub, Option.some.injEq] at hother
        rw [← hother, Channel.pop_eq_none_iff.mp hnone] at hsignal
        cases hsignal
      held := nofun
      cause := fun _ _ ↦ h.cause (by rw [hstage]; nofun) (by rw [hstage]; rfl)
      clear := nofun }
  | breakOff what hpreparing => exact { h with cause := nofun, clear := nofun }
  | join hstage hidle => exact { h with cause := nofun, clear := nofun }
  | close hstage => exact { h with cause := nofun, clear := nofun }
  | await hstage hdone => exact { h with cause := nofun, clear := nofun }
  | leave failed hstage => exact { h with cause := nofun, clear := fun _ ↦ rfl }

theorem note (h : Heeds s) (deed : Deed) (hdeed : deed = .polled true → s.Disturbed) :
    Heeds { s with history := s.history ++ [deed] } := by
  have hkept : s.Disturbed → Disturbed { s with history := s.history ++ [deed] } :=
    Or.imp_left (List.mem_append_left _)
  exact { h with
    cause := fun hbegun hover hset ↦ hkept (h.cause hbegun hover hset)
    polled := fun hmem ↦ by
      rcases List.mem_append.mp hmem with hmem | hmem
      · exact hkept (h.polled hmem)
      · exact hkept (hdeed (List.mem_singleton.mp hmem).symm) }

theorem evaluationStep (h : Heeds s) (hstep : EvaluationStep s s') : Heeds s' := by
  cases hstep with
  | @send v output accepted hstage hsend => exact { h.note (.sent v accepted) nofun with }
  | poll hstage =>
    refine h.note _ fun hset ↦ h.cause (by rw [hstage]; nofun) (by rw [hstage]; rfl) ?_
    exact Deed.polled.inj hset
  | trip hstage =>
    have htripped : Disturbed { s with history := s.history ++ [.tripped] } :=
      .inl (List.mem_append_right _ List.mem_cons_self)
    exact { h.note .tripped nofun with
      cause := fun _ _ _ ↦ htripped
      clear := fun hleft ↦ by simp [hstage, Stage.hasLeft] at hleft }
  | finish how hstage => exact { h with cause := nofun, clear := nofun }

theorem drainerStep (h : Heeds s) (hstep : DrainerStep p s s') : Heeds s' := by
  cases hstep with
  | take hdrainer hrecv => exact { h with }
  | print hdrainer hnow => exact { h with }
  | next hdrainer => exact { h with }
  | finish hdrainer hrecv => exact { h with }

theorem forwarderStep (h : Heeds s) (hordered : Ordered s) (hstep : ForwarderStep s s') :
    Heeds s' := by
  cases hstep with
  | check hforwarder =>
    exact { h with
      arrivals := fun _ ↦ h.arrivals (by rw [hforwarder]; nofun)
      held := fun signal hheld ↦ by cases hstop : s.cancelled <;> simp [hstop] at hheld }
  | @receive stub hforwarder hstub =>
    have harrived : ∀ signal ∈ stub.signals.queue, signal ∈ s.arrived :=
      h.arrivals (by rw [hforwarder]; nofun) stub hstub
    rw [Channel.queue_of_pop] at harrived
    exact { h with
      arrivals := fun _ other hother signal hsignal ↦ by
        obtain rfl := Option.some.inj hother
        exact harrived signal (List.mem_append_right _ hsignal)
      held := fun signal hheld ↦ by
        change stub.signals.pop.2.elim Forwarder.lacking Forwarder.holding = _ at hheld
        cases hpop : stub.signals.pop.2 <;> rw [hpop] at hheld <;> cases hheld
        exact harrived _ (List.mem_append_left _ (by simp [hpop])) }
  | lack hforwarder hstub =>
    exact { h with
      arrivals := fun _ ↦ h.arrivals (by rw [hforwarder]; nofun)
      held := fun signal hheld ↦ by
        dsimp only at hheld
        split at hheld <;> cases hheld }
  | interrupt hforwarder =>
    -- A forwarder at work has not been waited for, so it cannot set the flag once that is cleared.
    have hjoined : s.stage.hasJoined ≠ true := fun hjoined ↦ by
      simpa [hforwarder, Forwarder.isIdle] using hordered.joined hjoined
    exact { h with
      arrivals := fun _ ↦ h.arrivals (by rw [hforwarder]; nofun)
      held := nofun
      cause := fun _ _ _ ↦ .inr (h.held _ hforwarder)
      clear := fun hleft ↦ absurd (Stage.of_hasLeft hleft).1 hjoined }
  | ignore hforwarder hsignal =>
    exact { h with
      arrivals := fun _ ↦ h.arrivals (by rw [hforwarder]; nofun)
      held := nofun }

theorem stubStep (h : Heeds s) (hstep : StubStep s s') : Heeds s' := by
  cases hstep with
  | @signal stub signals signal hstub hsend =>
    have hsignals : ∀ other ∈ signals.queue, other ∈ stub.signals.queue ∨ other = signal := by
      intro other hother
      cases hclosed : stub.signals.closed with
      | true =>
        rw [Channel.send?, hclosed] at hsend
        cases hsend
      | false =>
        obtain ⟨-, rfl⟩ := Channel.send?_of_open hclosed hsend
        simpa [Channel.enqueue] using hother
    have hkept : s.Disturbed →
        Disturbed { s with
          stub := some { stub with signals }, arrived := s.arrived ++ [signal] } :=
      Or.imp_right (List.mem_append_left _)
    exact { h with
      arrivals := fun hpresent other hother ↦ by
        obtain rfl := Option.some.inj hother
        intro new hnew
        rcases hsignals new hnew with hold | rfl
        · exact List.mem_append_left _ (h.arrivals hpresent stub hstub new hold)
        · exact List.mem_append_right _ List.mem_cons_self
      held := fun new hheld ↦ List.mem_append_left _ (h.held new hheld)
      cause := fun hbegun hover hset ↦ hkept (h.cause hbegun hover hset)
      polled := fun hpolled ↦ hkept (h.polled hpolled) }
  | @hangUp stub hstub =>
    exact { h with
      arrivals := fun hpresent other hother ↦ by
        obtain rfl := Option.some.inj hother
        exact h.arrivals hpresent stub hstub }
  | @die stub hstub =>
    exact { h with
      arrivals := fun hpresent other hother ↦ by
        obtain rfl := Option.some.inj hother
        exact h.arrivals hpresent stub hstub }

theorem step (h : Heeds s) (hordered : Ordered s) (hstep : Step p s agent s') : Heeds s' := by
  cases hstep with
  | main hstep => exact h.mainStep hordered hstep
  | evaluation hstep => exact h.evaluationStep hstep
  | drainer hstep => exact h.drainerStep hstep
  | forwarder hstep => exact h.forwarderStep hordered hstep
  | stub hstep => exact h.stubStep hstep

end Heeds

theorem Reached.heeds {w : World} (h : Reached p (Session.start p w) s) : Heeds s := by
  induction h with
  | start => exact .start p w
  | step hreached hstep ih => exact ih.step hreached.ordered hstep

end Session

end Conduit.Shell
