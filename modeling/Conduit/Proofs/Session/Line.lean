import Conduit.Proofs.Interactive
import Conduit.Proofs.Session.Progress

/-!
# Lines as Sessions

Running an interactive line comes to one of its sessions: the values that the line sends are printed
one after another, and the line is left with the same outcome and the same bytes printed.  Every
other session of the line, in whatever order its threads take their steps, prints what it sends in
the same way and leaves the shell as clean.
-/

namespace Conduit.Shell

open World (Feeds Steady)

namespace Session

variable {p : Prompt} {w : World} {s s' : Session} {agent : Agent} {how : Ending}

/-! ## A session that sends given values -/

/-- The signals that came before are dropped one by one. -/
theorem Reached.drops {stub : Stub} (h : Reached p (Session.start p w) s)
    (hstage : s.stage = .dropping) (hstub : s.stub = some stub) :
    ∃ s', Reached p (Session.start p w) s' ∧ s'.stage = .evaluating ∧ s'.history = s.history ∧
      s'.greeting = s.greeting := by
  induction hlength : stub.signals.queue.length generalizing s stub with
  | zero =>
    have hnone : stub.signals.pop.2 = none :=
      Channel.pop_eq_none_iff.mpr (List.length_eq_zero_iff.mp hlength)
    exact ⟨_, h.step (.main (.forward hstage hstub hnone)), rfl, rfl, rfl⟩
  | succ n ih =>
    rcases hpop : stub.signals.pop.2 with _ | signal
    · simp [Channel.pop_eq_none_iff.mp hpop] at hlength
    · have hqueue := Channel.queue_of_pop stub.signals
      rw [hpop] at hqueue
      have hfewer : stub.signals.pop.1.queue.length = n := by
        rw [hqueue] at hlength
        simpa using hlength
      have hrest := ih (h.step (.main (.drop hstage hstub hpop))) hstage rfl hfewer
      exact hrest

/-- The evaluation may begin with nothing but the stub engaged, if it is to be. -/
theorem exists_evaluating (p : Prompt) (w : World) :
    ∃ s, Reached p (Session.start p w) s ∧ s.stage = .evaluating ∧ s.history = [] ∧
      s.greeting = complaint (utf8 "stub") ((Session.start p w).engages p) := by
  have hcleared := Reached.start.step (.main (.clear (p := p) (s := Session.start p w) rfl))
  cases hengages : (Session.start p w).engages p with
  | false => exact ⟨_, hcleared.step (.main (.proceed rfl hengages)), rfl, rfl, rfl⟩
  | true =>
    obtain ⟨stub, hstub⟩ : ∃ stub, w.stub = some stub := by
      rcases hstub : w.stub with _ | stub
      · simp [engages, Session.start, hstub] at hengages
      · exact ⟨stub, rfl⟩
    exact (hcleared.step (.main (.engage true rfl hstub hengages))).drops rfl rfl

/-- While the line is evaluated, a value can be sent once the drainer has done what it has to. -/
theorem Reached.sends (h : Reached p (Session.start p w) s) (hstage : s.stage = .evaluating)
    (v : Value) :
    ∃ s', Reached p (Session.start p w) s' ∧ s'.stage = .evaluating ∧
      s'.history = s.history ++ [.sent v true] ∧ s'.greeting = s.greeting := by
  -- Either there is room, or the drainer takes a step and has less to do.
  induction hbacklog : backlog p s using Nat.strong_induction_on generalizing s with
  | _ n ih =>
    rcases h.ordered.accepts_or_drains hstage v with hsend | ⟨s₁, hdrain⟩
    · exact ⟨_, h.step (.evaluation (.send hstage hsend)), hstage, rfl, rfl⟩
    · have hsame : s₁.stage = s.stage ∧ s₁.history = s.history ∧ s₁.greeting = s.greeting := by
        cases hdrain <;> exact ⟨rfl, rfl, rfl⟩
      obtain ⟨s', h', hstage', hhistory, hgreeting⟩ := ih (backlog p s₁)
        (hbacklog ▸ hdrain.backlog_lt) (h.step (.drainer hdrain)) (hsame.1.trans hstage) rfl
      exact ⟨s', h', hstage', hhistory.trans (by rw [hsame.2.1]), hgreeting.trans hsame.2.2⟩

theorem Reached.sendsAll (h : Reached p (Session.start p w) s) (hstage : s.stage = .evaluating)
    (values : List Value) :
    ∃ s', Reached p (Session.start p w) s' ∧ s'.stage = .evaluating ∧
      s'.history = s.history ++ values.map (.sent · true) ∧ s'.greeting = s.greeting := by
  induction values generalizing s with
  | nil => exact ⟨s, h, hstage, (List.append_nil _).symm, rfl⟩
  | cons v rest ih =>
    obtain ⟨s₁, h₁, hstage₁, hhistory₁, hgreeting₁⟩ := h.sends hstage v
    obtain ⟨s', h', hstage', hhistory, hgreeting⟩ := ih h₁ hstage₁
    refine ⟨s', h', hstage', ?_, hgreeting.trans hgreeting₁⟩
    rw [hhistory, hhistory₁]
    simp

/-- How the line has ended, while something is left to be waited for or to be closed. -/
def closing? : Stage → Option Ending
  | .stopping how => some how
  | .stopped how => some how
  | .closed how => some how
  | _ => none

theorem of_closing? {stage : Stage} (h : closing? stage = some how) :
    stage ≠ .evaluating ∧ stage.hasLeft = false ∧ stage.isOver = true := by
  cases stage <;> simp [closing?, Stage.hasLeft, Stage.isOver] at h ⊢

theorem Step.closing (h : Step p s agent s') (hclosing : closing? s.stage = some how) :
    (closing? s'.stage = some how ∨ s'.stage = .drained how) ∧ s'.history = s.history ∧
      s'.greeting = s.greeting := by
  cases h with
  | main hstep =>
    cases hstep with
    | clear hstage | engage _ hstage | proceed hstage | drop hstage | forward hstage
    | leave _ hstage =>
      simp [hstage, closing?] at hclosing
    | breakOff what hpreparing =>
      have hover := (of_closing? hclosing).2.2
      simp [Stage.not_isOver_of_isPreparing hpreparing] at hover
    | join hstage | close hstage =>
      rw [hstage] at hclosing
      exact ⟨.inl hclosing, rfl, rfl⟩
    | await hstage =>
      rw [hstage] at hclosing
      exact ⟨.inr (congrArg Stage.drained (Option.some.inj hclosing)), rfl, rfl⟩
  | evaluation hstep =>
    cases hstep with
    | send hstage | poll hstage | trip hstage | finish _ hstage =>
      simp [hstage, closing?] at hclosing
  | drainer hstep => cases hstep <;> exact ⟨.inl hclosing, rfl, rfl⟩
  | forwarder hstep => cases hstep <;> exact ⟨.inl hclosing, rfl, rfl⟩
  | stub hstep => cases hstep <;> exact ⟨.inl hclosing, rfl, rfl⟩

/-- A line that has ended comes to where only the flag is left to be cleared. -/
theorem Reached.closes (h : Reached p (Session.start p w) s)
    (hclosing : closing? s.stage = some how) :
    ∃ s', Reached p (Session.start p w) s' ∧ s'.stage = .drained how ∧ s'.history = s.history ∧
      s'.greeting = s.greeting := by
  -- Some thread can take a step, and each step leaves fewer to be taken.
  induction hremaining : remaining p s using Nat.strong_induction_on generalizing s with
  | _ n ih =>
    obtain ⟨hevaluating, hleft, hover⟩ := of_closing? hclosing
    obtain ⟨agent, s₁, -, hagent, hstep⟩ := h.ordered.advances hevaluating hleft
    have hlt : remaining p s₁ < n := hremaining ▸ h.ordered.remaining_lt hover hstep hagent
    obtain ⟨hnext, hhistory₁, hgreeting₁⟩ := hstep.closing hclosing
    rcases hnext with hclosing₁ | hdrained
    · obtain ⟨s', h', hstage', hhistory, hgreeting⟩ := ih _ hlt (h.step hstep) hclosing₁ rfl
      exact ⟨s', h', hstage', hhistory.trans hhistory₁, hgreeting.trans hgreeting₁⟩
    · exact ⟨s₁, h.step hstep, hdrained, hhistory₁, hgreeting₁⟩

/-- There is a session that sends given values, ends in a given way and is left. -/
theorem exists_left (p : Prompt) (w : World) (values : List Value) (how : Ending) (failed : Bool) :
    ∃ s, Reached p (Session.start p w) s ∧ s.stage = .left how ∧ s.sent = values ∧
      s.greeting = complaint (utf8 "stub") ((Session.start p w).engages p) ∧
      s.farewell = complaint (utf8 "myself") failed := by
  obtain ⟨s₁, h₁, hstage₁, hhistory₁, hgreeting₁⟩ := exists_evaluating p w
  obtain ⟨s₂, h₂, hstage₂, hhistory₂, hgreeting₂⟩ := h₁.sendsAll hstage₁ values
  obtain ⟨s₃, h₃, hstage₃, hhistory₃, hgreeting₃⟩ :=
    (h₂.step (.evaluation (.finish how hstage₂))).closes rfl
  refine ⟨_, h₃.step (.main (.leave failed hstage₃)), rfl, ?_, ?_, rfl⟩
  · have hhistory : s₃.history = values.map (.sent · true) := by
      rw [hhistory₃]
      exact hhistory₂.trans (by rw [hhistory₁, List.nil_append])
    rw [sent, hhistory, List.filterMap_map]
    exact List.filterMap_some
  · exact hgreeting₃.trans (hgreeting₂.trans hgreeting₁)

/-! ## All sessions -/

/-- What holds of a line at any time: nothing that was sent has been refused; what has been printed,
is being printed and is queued makes up the lines of the values sent, in order; the flag has been
found set only for a reason; no send waits for good, and neither does anyone once the line has
ended; and where the line has been left everything has been printed and cleaned up. -/
structure Sound (p : Prompt) (w : World) (s : Session) : Prop where
  accepted : ∀ v accepted, .sent v accepted ∈ s.history → accepted = true
  balance : s.printed ++ s.drainer.rest ++ shown p.leader s.output.queue =
    w.printed ++ s.greeting ++ shown p.leader s.sent ++ s.farewell
  greeted : ∃ failed, s.greeting = complaint (utf8 "stub") failed
  parted : ∃ failed, s.farewell = complaint (utf8 "myself") failed
  polled : .polled true ∈ s.history → s.Disturbed
  sending : s.stage = .evaluating → ∀ v,
    s.output.send? v = some (s.output.enqueue v, true) ∨ ∃ s', Step p s .drainer s'
  draining : ∀ s', Step p s .drainer s' → backlog p s' < backlog p s
  advancing : s.stage ≠ .evaluating → s.stage.hasLeft = false →
    ∃ agent s', agent ≠ .evaluation ∧ agent ≠ .stub ∧ Step p s agent s'
  ending : s.stage.isOver = true → ∀ n s', Ran p s n s' → n ≤ remaining p s
  left : s.stage.hasLeft = true →
    s.printed = w.printed ++ s.greeting ++ shown p.leader s.sent ++ s.farewell ∧
      s.interrupted = false ∧ s.output.closed = true ∧ s.output.queue = [] ∧
      s.drainer = .done ∧ s.forwarder.isIdle = true

theorem Reached.sound (h : Reached p (Session.start p w) s) : Sound p w s where
  accepted := h.flows.accepted
  balance := h.flows.balance
  greeted := h.flows.greeted
  parted := h.flows.parted
  polled := h.heeds.polled
  sending hstage v :=
    (h.ordered.accepts_or_drains hstage v).imp_right fun ⟨s', hstep⟩ ↦ ⟨s', .drainer hstep⟩
  draining s' hstep := by
    cases hstep with
    | drainer hstep => exact hstep.backlog_lt
  advancing := h.ordered.advances
  ending hover n s' hran := by
    obtain ⟨-, -, hbound⟩ := hran.bounded h.ordered hover
    omega
  left hleft := by
    obtain ⟨hjoined, -, hdrained, -⟩ := Stage.of_hasLeft hleft
    have hdone : s.drainer = .done := h.ordered.awaited hdrained
    obtain ⟨hclosed, hqueue⟩ := h.ordered.finished hdone
    refine ⟨?_, h.heeds.clear hleft, hclosed, hqueue, hdone, h.ordered.joined hjoined⟩
    have hbalance := h.flows.balance
    rw [hdone, hqueue] at hbalance
    simpa [Drainer.rest, shown] using hbalance

end Session

/-! ## Lines -/

/-- Running a line comes to one of its sessions. -/
theorem evalInteractive_session (setup : Setup) (fuel : Nat) (text : Bytes) (chunk : Script.Chunk)
    (w : World) :
    ∃ s, Session.Reached (prompt setup text w) (Session.start (prompt setup text w) w) s ∧
      s.stage = .left (evalInteractive setup fuel text chunk w).1 ∧
      s.sent = sentValues setup fuel text chunk w ∧
      s.printed = (evalInteractive setup fuel text chunk w).2.printed := by
  obtain ⟨s, hreached, hstage, hsent, hgreeting, hfarewell⟩ := Session.exists_left
    (prompt setup text w) w (sentValues setup fuel text chunk w)
    (evalInteractive setup fuel text chunk w).1 (evaluated setup fuel text chunk w).2.terminal
  refine ⟨s, hreached, hstage, hsent, ?_⟩
  have hprinted := (hreached.sound.left (by rw [hstage]; rfl)).1
  rw [hprinted, hgreeting, hfarewell, hsent, printed_evalInteractive]
  rfl

/-- What holds of running a line.  It comes to one of the sessions of the line.  In every state that
the evaluation may pass through, what is sent on the channel of the line is accepted and queued
last. When the line has ended, everything that was queued has been printed in order, the flag is
clear, nothing is forwarded, and the channel is closed and empty.  The flag and, if the stub is
engaged, the signals of before make no difference. -/
structure LineSound (setup : Setup) (fuel : Nat) (text : Bytes) (chunk : Script.Chunk) (w : World) :
    Prop where
  session : ∃ s, Session.Reached (prompt setup text w) (Session.start (prompt setup text w) w) s ∧
    s.stage = .left (evalInteractive setup fuel text chunk w).1 ∧
    s.sent = sentValues setup fuel text chunk w ∧
    s.printed = (evalInteractive setup fuel text chunk w).2.printed
  fed : Feeds (lineChannel w) (opening setup text w).2 (evaluated setup fuel text chunk w).2
  steady : Steady (opening setup text w).2 (evaluated setup fuel text chunk w).2
  accepts : ∀ w', Feeds (lineChannel w) (opening setup text w).2 w' →
    Steady (opening setup text w).2 w' → ∀ v, Eval.sendTo (lineChannel w) v w' =
      (.done true, w'.modifyChannel (lineChannel w) fun c ↦ c.enqueue v)
  printed : (evalInteractive setup fuel text chunk w).2.printed = w.printed ++ greeting w ++
    Session.shown setup.settings.leader (sentValues setup fuel text chunk w) ++
    farewell (evaluated setup fuel text chunk w).2
  uninterrupted : (evalInteractive setup fuel text chunk w).2.interrupted = false
  released : ∀ stub, (evalInteractive setup fuel text chunk w).2.stub = some stub →
    stub.forwarding = false
  drained : ∃ line, (evalInteractive setup fuel text chunk w).2.channels.get? (lineChannel w) =
    some line ∧ line.channel.closed = true ∧ line.channel.queue = []
  forgetsFlag : ∀ flag, evalInteractive setup fuel text chunk { w with interrupted := flag } =
    evalInteractive setup fuel text chunk w
  forgetsSignals : ∀ stub, w.stub = some stub → engages w = true → ∀ pending : List Int,
    evalInteractive setup fuel text chunk
      { w with stub := some { stub with signals := { stub.signals with queue := pending } } } =
    evalInteractive setup fuel text chunk w

/-- An interactive line prints everything and cleans up: each of its sessions is sound, and so is
running it. -/
theorem line_prints_and_cleansUp (setup : Setup) (fuel : Nat) (text : Bytes) (chunk : Script.Chunk)
    (w : World) :
    (∀ s, Session.Reached (prompt setup text w) (Session.start (prompt setup text w) w) s →
      s.Sound (prompt setup text w) w) ∧
    LineSound setup fuel text chunk w := by
  obtain ⟨hflag, hstub, hline⟩ := evalInteractive_cleansUp setup fuel text chunk w
  refine ⟨fun _ hreached ↦ hreached.sound, ?_⟩
  exact
    { session := evalInteractive_session setup fuel text chunk w
      fed := feeds_evaluated setup fuel text chunk w
      steady := steady_evaluated setup fuel text chunk w
      accepts := fun _ hfeeds hsteady ↦ sendTo_lineChannel hfeeds hsteady
      printed := printed_evalInteractive setup fuel text chunk w
      uninterrupted := hflag
      released := hstub
      drained := hline
      forgetsFlag := evalInteractive_forgets_flag setup fuel text chunk w
      forgetsSignals := fun _ hstub hengages ↦
        evalInteractive_forgets_signals setup fuel text chunk w hstub hengages }

/-- A shell with a terminal and a live stub, which has been interrupted, and with an interrupt
signal that has come. -/
def disturbedShell : World := start
  { terminal := true
    interrupted := true
    stub := some { alive := true, signals := (Channel.ofCapacity 8).enqueue Eval.interruptSignal } }

/-- The chunk of `put a`. -/
def putLetter : Script.Chunk :=
  .mk ⟨0, 5⟩ [.mk ⟨0, 5⟩ [.mk ⟨0, 5⟩ []
    (.bareword ⟨0, 3⟩ (utf8 "put")) [.bareword ⟨4, 5⟩ (utf8 "a")] []]]

/-- In such a shell the line `put a` prints its value, in a session that leaves nothing behind, and
goes as it does where the flag is not set. -/
theorem line_prints_and_cleansUp_disturbedShell :
    (evalInteractive {} 2 (utf8 "put a") putLetter disturbedShell).2.printed =
      foregroundFailure (utf8 "stub") ++ utf8 "▶ a\n" ++ foregroundFailure (utf8 "myself") ∧
    (∃ s : Session, s.Sound (prompt {} (utf8 "put a") disturbedShell) disturbedShell ∧
      s.stage = .left (evalInteractive {} 2 (utf8 "put a") putLetter disturbedShell).1 ∧
      s.sent.map Value.repr = [utf8 "a"]) ∧
    evalInteractive {} 2 (utf8 "put a") putLetter { disturbedShell with interrupted := false } =
      evalInteractive {} 2 (utf8 "put a") putLetter disturbedShell := by
  obtain ⟨hsound, hline⟩ := line_prints_and_cleansUp {} 2 (utf8 "put a") putLetter disturbedShell
  obtain ⟨s, hreached, hstage, hsent, -⟩ := hline.session
  refine ⟨hline.printed.trans (by decide +kernel), ⟨s, hsound s hreached, hstage, ?_⟩,
    hline.forgetsFlag false⟩
  rw [hsent]
  decide +kernel

end Conduit.Shell
