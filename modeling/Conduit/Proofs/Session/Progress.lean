import Mathlib.Algebra.GroupWithZero.Nat
import Conduit.Proofs.Session

/-!
# Sessions Go On

No thread of a line waits for good.  While the line is evaluated, a send that has to wait waits for
the drainer, which has a value to take or to print, and it has only so many steps to take before
there is room.  Once the line has ended, one of the main thread, the drainer and the forwarder can
always take a step until the line has been left, and together they have only so many steps to take,
whatever the stub does in between.
-/

namespace Conduit.Shell.Session

variable {p : Prompt} {s s' s'' : Session} {agent : Agent}

/-! ## What is left to be done -/

/-- The most steps that a drainer takes for what it has in its hands, and to stop. -/
def drainerSteps : Drainer → Nat
  | .waiting => 1
  | .printing rest => rest.length + 2
  | .done => 0

/-- The most steps that a forwarder takes once it has been told to stop. -/
def forwarderSteps : Forwarder → Nat
  | .absent => 0
  | .checking => 1
  | .receiving => 3
  | .holding _ => 2
  | .lacking => 2
  | .done => 0

/-- The steps that the main thread takes once the line has ended. -/
def closingSteps : Stage → Nat
  | .stopping _ => 4
  | .stopped _ => 3
  | .closed _ => 2
  | .drained _ => 1
  | _ => 0

/-- The most steps that the drainer takes for what it has in its hands and what is queued. -/
def backlog (p : Prompt) (s : Session) : Nat :=
  drainerSteps s.drainer +
    (s.output.queue.map fun v ↦ (valueLine p.leader v).length + 2).sum

/-- The most steps that the threads take once the line has ended. -/
def remaining (p : Prompt) (s : Session) : Nat :=
  closingSteps s.stage + forwarderSteps s.forwarder + backlog p s

/-! ## Sending -/

theorem DrainerStep.backlog_lt (h : DrainerStep p s s') : backlog p s' < backlog p s := by
  cases h with
  | take hdrainer hrecv =>
    obtain ⟨-, hqueue⟩ := Channel.queue_of_recv? hrecv
    simp only [backlog, hdrainer, hqueue, drainerSteps, Option.toList_some, List.cons_append,
      List.nil_append, List.map_cons, List.sum_cons]
    omega
  | @print now later hdrainer hnow =>
    have hpositive : 0 < now.length := List.length_pos_iff.mpr hnow
    simp only [backlog, hdrainer, drainerSteps, List.length_append]
    omega
  | next hdrainer =>
    simp only [backlog, hdrainer, drainerSteps]
    omega
  | finish hdrainer hrecv =>
    obtain ⟨-, hqueue⟩ := Channel.queue_of_recv? hrecv
    simp only [backlog, hdrainer, hqueue, drainerSteps, Option.toList_none, List.nil_append]
    omega

/-- A drainer that has not stopped can take a step if its channel is closed or has something queued,
or if it is printing. -/
theorem drains (hundone : s.drainer ≠ .done)
    (hready : s.output.closed = true ∨ s.output.queue ≠ []) : ∃ s', DrainerStep p s s' := by
  cases hdrainer : s.drainer with
  | waiting =>
    rcases hrecv : s.output.recv? with _ | ⟨output, _ | v⟩
    · obtain ⟨hopen, hempty⟩ := Channel.recv?_eq_none_iff.mp hrecv
      rcases hready with hclosed | hqueued
      · simp [hopen] at hclosed
      · exact absurd hempty hqueued
    · exact ⟨_, .finish hdrainer hrecv⟩
    · exact ⟨_, .take hdrainer hrecv⟩
  | printing rest =>
    rcases rest with _ | ⟨byte, rest⟩
    · exact ⟨_, .next hdrainer⟩
    · have hsplit : s.drainer = .printing ([byte] ++ rest) := hdrainer
      exact ⟨_, .print hsplit (List.cons_ne_nil byte [])⟩
  | done => exact absurd hdrainer hundone

/-- While the line is evaluated, a value can be sent unless there is something for the drainer to
do. -/
theorem Ordered.accepts_or_drains (h : Ordered s) (hstage : s.stage = .evaluating) (v : Value) :
    s.output.send? v = some (s.output.enqueue v, true) ∨ ∃ s', DrainerStep p s s' := by
  have hopen := h.isOpen hstage
  rcases hsend : s.output.send? v with _ | ⟨output, accepted⟩
  · -- The channel is full; as it has room for one value at least, it is not empty.
    refine .inr (drains (fun hdone ↦ ?_) (.inr fun hempty ↦ ?_))
    · simp [(h.finished hdone).1] at hopen
    · have hfull := (Channel.send?_eq_none_iff.mp hsend).2
      rw [hempty] at hfull
      exact absurd h.room (Nat.not_lt_of_le hfull)
  · obtain ⟨rfl, rfl⟩ := Channel.send?_of_open hopen hsend
    exact .inl rfl

/-! ## Leaving -/

/-- A forwarder that is at work can take a step. -/
theorem Ordered.forwards (h : Ordered s) (hbusy : s.forwarder.isIdle = false) :
    ∃ s', ForwarderStep s s' := by
  obtain ⟨stub, hstub⟩ := Option.isSome_iff_exists.mp (h.attached (.inr hbusy))
  cases hforwarder : s.forwarder with
  | absent => simp [hforwarder, Forwarder.isIdle] at hbusy
  | checking => exact ⟨_, .check hforwarder⟩
  | receiving => exact ⟨_, .receive hforwarder hstub⟩
  | holding signal =>
    by_cases hsignal : signal = Eval.interruptSignal
    · exact ⟨_, .interrupt (hsignal ▸ hforwarder)⟩
    · exact ⟨_, .ignore hforwarder hsignal⟩
  | lacking => exact ⟨_, .lack hforwarder hstub⟩
  | done => simp [hforwarder, Forwarder.isIdle] at hbusy

/-- Until the line has been left, but for the time of the evaluation, the main thread can take a
step, or one of the two that it may wait for can. -/
theorem Ordered.advances (h : Ordered s) (hevaluating : s.stage ≠ .evaluating)
    (hleft : s.stage.hasLeft = false) :
    ∃ agent s', agent ≠ .evaluation ∧ agent ≠ .stub ∧ Step p s agent s' := by
  have hmain : ∀ {s'}, MainStep p s s' →
      ∃ agent s', agent ≠ .evaluation ∧ agent ≠ .stub ∧ Step p s agent s' :=
    fun hstep ↦ ⟨.main, _, nofun, nofun, .main hstep⟩
  cases hstage : s.stage with
  | begun => exact hmain (.clear hstage)
  | cleared =>
    cases hengages : s.engages p with
    | false => exact hmain (.proceed hstage hengages)
    | true =>
      rcases hstub : s.stub with _ | stub
      · simp [engages, hstub] at hengages
      · exact hmain (.engage false hstage hstub hengages)
  | dropping =>
    obtain ⟨stub, hstub⟩ := Option.isSome_iff_exists.mp (h.attached (.inl hstage))
    rcases hpop : stub.signals.pop.2 with _ | signal
    · exact hmain (.forward hstage hstub hpop)
    · exact hmain (.drop hstage hstub hpop)
  | evaluating => exact absurd hstage hevaluating
  | stopping how =>
    cases hidle : s.forwarder.isIdle with
    | true => exact hmain (.join hstage hidle)
    | false =>
      obtain ⟨s', hstep⟩ := h.forwards hidle
      exact ⟨.forwarder, s', nofun, nofun, .forwarder hstep⟩
  | stopped how => exact hmain (.close hstage)
  | closed how =>
    by_cases hdone : s.drainer = .done
    · exact hmain (.await hstage hdone)
    · have hclosed : s.output.closed = true := h.closed.trans (by rw [hstage]; rfl)
      obtain ⟨s', hstep⟩ := drains (p := p) hdone (.inl hclosed)
      exact ⟨.drainer, s', nofun, nofun, .drainer hstep⟩
  | drained how => exact hmain (.leave false hstage)
  | left how => simp [hstage, Stage.hasLeft] at hleft

/-- Once the line has ended, every step but those of the stub is one less to take. -/
theorem Ordered.remaining_lt (h : Ordered s) (hover : s.stage.isOver = true)
    (hstep : Step p s agent s') (hagent : agent ≠ .stub) : remaining p s' < remaining p s := by
  cases hstep with
  | main hstep =>
    cases hstep with
    | clear hstage | engage _ hstage | proceed hstage | drop hstage | forward hstage =>
      simp [hstage, Stage.isOver] at hover
    | breakOff what hpreparing =>
      simp [Stage.not_isOver_of_isPreparing hpreparing] at hover
    | join hstage hidle =>
      simp only [remaining, backlog, hstage, closingSteps]
      omega
    | close hstage =>
      simp only [remaining, backlog, hstage, closingSteps, Channel.close]
      omega
    | await hstage hdone =>
      simp only [remaining, backlog, hstage, closingSteps]
      omega
    | leave failed hstage =>
      simp only [remaining, backlog, hstage, closingSteps]
      omega
  | evaluation hstep =>
    cases hstep with
    | send hstage | poll hstage | trip hstage | finish _ hstage =>
      simp [hstage, Stage.isOver] at hover
  | drainer hstep =>
    have hbacklog : backlog p s' < backlog p s := hstep.backlog_lt
    have hsame : s'.stage = s.stage ∧ s'.forwarder = s.forwarder := by
      cases hstep <;> exact ⟨rfl, rfl⟩
    simp only [remaining, hsame]
    omega
  | forwarder hstep =>
    have hcancelled : s.cancelled = true := h.cancelled.trans hover
    cases hstep with
    | check hforwarder =>
      simp only [remaining, backlog, hforwarder, hcancelled, if_true, forwarderSteps]
      omega
    | @receive stub hforwarder hstub =>
      have hbefore : forwarderSteps .receiving = 3 := rfl
      have hafter : forwarderSteps (stub.signals.pop.2.elim .lacking .holding) = 2 := by
        cases stub.signals.pop.2 <;> rfl
      simp only [remaining, backlog, hforwarder, hbefore, hafter]
      omega
    | @lack stub hforwarder hstub =>
      have hbefore : forwarderSteps .lacking = 2 := rfl
      have hafter : forwarderSteps (if stub.signals.closed then .done else .checking) ≤ 1 := by
        split <;> simp [forwarderSteps]
      simp only [remaining, backlog, hforwarder, hbefore]
      omega
    | interrupt hforwarder | ignore hforwarder =>
      simp only [remaining, backlog, hforwarder, forwarderSteps]
      omega
  | stub hstep => exact absurd rfl hagent

theorem StubStep.remaining_eq (h : StubStep s s') : remaining p s' = remaining p s := by
  cases h <;> rfl

/-- A line that has ended does not begin again. -/
theorem Step.isOver (h : Step p s agent s') (hover : s.stage.isOver = true) :
    s'.stage.isOver = true := by
  cases h with
  | main hstep =>
    cases hstep with
    | clear hstage | engage _ hstage | proceed hstage | drop hstage | forward hstage =>
      simp [hstage, Stage.isOver] at hover
    | breakOff | join | close | await | leave => rfl
  | evaluation hstep =>
    cases hstep with
    | send hstage | poll hstage | trip hstage => simp [hstage, Stage.isOver] at hover
    | finish => rfl
  | drainer hstep => cases hstep <;> exact hover
  | forwarder hstep => cases hstep <;> exact hover
  | stub hstep => cases hstep <;> exact hover

/-- The sessions that steps lead to, with the number of steps that others than the stub have taken.
-/
inductive Ran (p : Prompt) (s : Session) : Nat → Session → Prop
  | start : Ran p s 0 s
  | step {n : Nat} {s' s'' : Session} {agent : Agent} : Ran p s n s' → Step p s' agent s'' →
      Ran p s (if agent = .stub then n else n + 1) s''

/-- Once the line has ended, only so many steps are taken, in whatever order the threads take them.
-/
theorem Ran.bounded {n : Nat} (h : Ran p s n s') (hordered : Ordered s)
    (hover : s.stage.isOver = true) :
    Ordered s' ∧ s'.stage.isOver = true ∧ n + remaining p s' ≤ remaining p s := by
  induction h with
  | start => exact ⟨hordered, hover, by omega⟩
  | @step n s' s'' agent hran hstep ih =>
    obtain ⟨hordered', hover', hbound⟩ := ih
    refine ⟨hordered'.step hstep, hstep.isOver hover', ?_⟩
    by_cases hagent : agent = .stub
    · subst hagent
      cases hstep with
      | stub hstep => rwa [if_pos rfl, hstep.remaining_eq]
    · rw [if_neg hagent]
      have hlt := hordered'.remaining_lt hover' hstep hagent
      omega

end Conduit.Shell.Session
