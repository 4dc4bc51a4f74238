import Conduit.Proofs.Channel
import Conduit.Proofs.Threads.Alone

/-!
# Links between Threads

In every state that threads get into, a link holds what has been given to it and not been taken from
it yet.  A link between two threads is closed as soon as the one that writes to it has closed its
output or the one that reads from it is done, and not before.
-/

namespace Conduit

namespace Threads

open Eval (StageResult linkCapacity)

variable {α : Type} {n i : Nat} {program : Nat → Program α} {input : List α} {output : Channel α}
  {s s' : State α}

/-! ## Steps -/

/-- The steps that a thread can take. -/
inductive Step (n : Nat) (program : Nat → Program α) (s : State α) (i : Nat) : State α → Prop
  | receive {c : Channel α} {v : Option α} :
      (s.threads i).phase = .running → program i (s.threads i).history = .receive →
        (s.links i).recv? = some (c, v) → Step n program s i (s.exchange i (.received v) i c)
  | send {c : Channel α} {v : α} {ok : Bool} :
      (s.threads i).phase = .running → program i (s.threads i).history = .send v →
        offer n i (s.links (i + 1)) v = some (c, ok) →
          Step n program s i (s.exchange i (.sent v ok) (i + 1) c)
  | finish {r : StageResult} :
      (s.threads i).phase = .running → program i (s.threads i).history = .finish r →
        Step n program s i (s.enter i (.ended r))
  | release {r : StageResult} :
      (s.threads i).phase = .ended r →
        Step n program s i ((if i + 1 < n then s.closeLink (i + 1) else s).enter i (.released r))
  | leave {r : StageResult} :
      (s.threads i).phase = .released r →
        Step n program s i ((if 0 < i then s.closeLink i else s).enter i (.done r))

theorem step_of_step? (h : step? n program s i = some s') : i < n ∧ Step n program s i s' := by
  unfold step? at h
  split at h
  · rename_i hi
    refine ⟨hi, ?_⟩
    split at h
    · rename_i hphase
      split at h
      · rename_i hmove
        obtain ⟨⟨c, v⟩, hrecv, rfl⟩ := Option.map_eq_some_iff.mp h
        exact .receive hphase hmove hrecv
      · rename_i v hmove
        obtain ⟨⟨c, ok⟩, hoffer, rfl⟩ := Option.map_eq_some_iff.mp h
        exact .send hphase hmove hoffer
      · rename_i r hmove
        cases h
        exact .finish hphase hmove
    · cases h
      exact .release ‹_›
    · cases h
      exact .leave ‹_›
    · cases h
  · cases h

/-! ## What a step changes -/

@[simp]
theorem history_exchange (s : State α) (i j link : Nat) (e : Exchange α) (c : Channel α) :
    ((s.exchange i e link c).threads j).history =
      (s.threads j).history ++ if j = i then [e] else [] := by
  unfold State.exchange
  by_cases h : j = i
  · simp [h]
  · simp [h]

@[simp]
theorem phase_exchange (s : State α) (i j link : Nat) (e : Exchange α) (c : Channel α) :
    ((s.exchange i e link c).threads j).phase = (s.threads j).phase := by
  unfold State.exchange
  by_cases h : j = i
  · simp [h]
  · simp [h]

@[simp]
theorem links_exchange (s : State α) (i j link : Nat) (e : Exchange α) (c : Channel α) :
    (s.exchange i e link c).links j = if j = link then c else s.links j := rfl

@[simp]
theorem history_enter (s : State α) (i j : Nat) (phase : Phase) :
    ((s.enter i phase).threads j).history = (s.threads j).history := by
  unfold State.enter
  by_cases h : j = i
  · simp [h]
  · simp [h]

@[simp]
theorem phase_enter (s : State α) (i j : Nat) (phase : Phase) :
    ((s.enter i phase).threads j).phase = if j = i then phase else (s.threads j).phase := by
  unfold State.enter
  by_cases h : j = i
  · simp [h]
  · simp [h]

@[simp]
theorem links_enter (s : State α) (i : Nat) (phase : Phase) : (s.enter i phase).links = s.links :=
  rfl

@[simp]
theorem threads_closeLink (s : State α) (link : Nat) : (s.closeLink link).threads = s.threads :=
  rfl

@[simp]
theorem queue_closeLink (s : State α) (link j : Nat) :
    ((s.closeLink link).links j).queue = (s.links j).queue := by
  unfold State.closeLink
  by_cases h : j = link
  · simp [h, Channel.close]
  · simp [h]

@[simp]
theorem capacity_closeLink (s : State α) (link j : Nat) :
    ((s.closeLink link).links j).capacity = (s.links j).capacity := by
  unfold State.closeLink
  by_cases h : j = link
  · simp [h, Channel.close]
  · simp [h]

@[simp]
theorem closed_closeLink (s : State α) (link j : Nat) :
    ((s.closeLink link).links j).closed = (decide (j = link) || (s.links j).closed) := by
  unfold State.closeLink
  by_cases h : j = link
  · simp [h, Channel.close]
  · simp [h]

/-- A send is accepted exactly if the link is open, and what is accepted is queued. -/
theorem offer_eq_some {c c' : Channel α} {v : α} {ok : Bool} (h : offer n i c v = some (c', ok)) :
    c'.queue = c.queue ++ accepted [.sent v ok] ∧ c'.closed = c.closed ∧
      c'.capacity = c.capacity ∧ ok = !c.closed := by
  have hqueue : (c.enqueue v).queue = c.queue ++ [v] := rfl
  unfold offer Channel.send? at h
  split at h
  · cases hclosed : c.closed
    · obtain ⟨rfl, rfl⟩ : c.enqueue v = c' ∧ true = ok := by simpa [hclosed] using h
      exact ⟨hqueue, hclosed, rfl, rfl⟩
    · obtain ⟨rfl, rfl⟩ : c = c' ∧ false = ok := by simpa [hclosed] using h
      simp [hclosed]
  · cases hclosed : c.closed
    · rw [hclosed] at h
      split at h
      · cases ‹false = true›
      · split at h
        · cases h
          simp [hclosed, Channel.enqueue]
        · cases h
    · obtain ⟨rfl, rfl⟩ : c = c' ∧ false = ok := by simpa [hclosed] using h
      simp [hclosed]

/-! ## Wiring -/

/-- All that was ever put on a link: the input of the pipeline, or what the thread before it has
sent, behind what was on the output of the pipeline before. -/
def given (n : Nat) (input : List α) (output : Channel α) (s : State α) : Nat → List α
  | 0 => input
  | j + 1 => (if j + 1 = n then output.queue else []) ++ accepted (s.threads j).history

/-- All that was ever taken from a link. -/
def used (n : Nat) (s : State α) (j : Nat) : List α :=
  if j < n then taken (s.threads j).history else []

/-- Whether a link has been closed by either of its threads, or by whoever runs the pipeline. -/
def closedByNow (n : Nat) (output : Channel α) (s : State α) : Nat → Bool
  | 0 => true
  | j + 1 =>
    if j + 1 = n then output.closed
    else (s.threads j).phase.isReleased || (s.threads (j + 1)).phase.isDone

/-- The links fit the threads. -/
structure Wired (n : Nat) (input : List α) (output : Channel α) (s : State α) : Prop where
  flow : ∀ j ≤ n, given n input output s j = used n s j ++ (s.links j).queue
  closed : ∀ j ≤ n, (s.links j).closed = closedByNow n output s j
  capacity : ∀ j, 0 < j → j < n → (s.links j).capacity = linkCapacity

theorem given_exchange (s : State α) (i j link : Nat) (e : Exchange α) (c : Channel α) :
    given n input output (s.exchange i e link c) j =
      given n input output s j ++ if j = i + 1 then accepted [e] else [] := by
  cases j with
  | zero => simp [given]
  | succ j =>
    by_cases h : j = i
    · simp [given, h, accepted_append]
    · simp [given, h]

theorem used_exchange (hi : i < n) (s : State α) (j link : Nat) (e : Exchange α) (c : Channel α) :
    used n (s.exchange i e link c) j = used n s j ++ if j = i then taken [e] else [] := by
  unfold used
  by_cases h : j = i
  · simp [h, hi, taken_append]
  · simp [h]

/-- An exchange closes nothing. -/
theorem closedByNow_exchange (s : State α) (i j link : Nat) (e : Exchange α) (c : Channel α) :
    closedByNow n output (s.exchange i e link c) j = closedByNow n output s j := by
  cases j with
  | zero => rfl
  | succ j => simp [closedByNow]

/-- What a thread enters changes what has been put on links or taken from them in no way. -/
theorem given_of_history (h : ∀ j, (s'.threads j).history = (s.threads j).history) (j : Nat) :
    given n input output s' j = given n input output s j := by
  cases j with
  | zero => rfl
  | succ j => rw [given, given, h]

theorem used_of_history (h : ∀ j, (s'.threads j).history = (s.threads j).history) (j : Nat) :
    used n s' j = used n s j := by
  rw [used, used, h]

/-- What is closed depends on who has closed an output and who is done. -/
theorem closedByNow_congr
    (hreleased : ∀ j, (s'.threads j).phase.isReleased = (s.threads j).phase.isReleased)
    (hdone : ∀ j, (s'.threads j).phase.isDone = (s.threads j).phase.isDone) (j : Nat) :
    closedByNow n output s' j = closedByNow n output s j := by
  cases j with
  | zero => rfl
  | succ j => rw [closedByNow, closedByNow, hreleased, hdone]

theorem wired_start (hn : 0 < n) : Wired n input output (start n input output) where
  flow j hj := by
    cases j with
    | zero => simp [given, used, hn, start, taken]
    | succ j =>
      by_cases h : j + 1 = n
      · subst h
        simp [given, used, start, accepted]
      · simp [given, used, start, h, taken, accepted, Channel.ofCapacity]
  closed j hj := by
    cases j with
    | zero => rfl
    | succ j =>
      by_cases h : j + 1 = n
      · subst h
        simp [closedByNow, start]
      · simp [closedByNow, start, h, Phase.isReleased, Phase.isDone, Channel.ofCapacity]
  capacity j hj hjn := by
    have h : j ≠ n := by omega
    have h0 : j ≠ 0 := by omega
    simp [start, h, h0, Channel.ofCapacity, linkCapacity]

namespace Wired

/-- A value that is received leaves the link. -/
theorem received (h : Wired n input output s) (hi : i < n) {c : Channel α} {v : Option α}
    (hrecv : (s.links i).recv? = some (c, v)) :
    Wired n input output (s.exchange i (.received v) i c) where
  flow j hj := by
    obtain ⟨-, hqueue⟩ := Channel.queue_of_recv? hrecv
    rw [given_exchange, used_exchange hi, links_exchange, h.flow j hj]
    by_cases hji : j = i
    · subst hji
      simp [hqueue]
    · simp [hji]
  closed j hj := by
    obtain ⟨hclosed, -⟩ := Channel.queue_of_recv? hrecv
    rw [closedByNow_exchange, links_exchange, ← h.closed j hj]
    by_cases hji : j = i
    · simp [hji, hclosed]
    · simp [hji]
  capacity j hj hjn := by
    rw [links_exchange, ← h.capacity j hj hjn]
    by_cases hji : j = i
    · simp [hji, Channel.capacity_of_recv? hrecv]
    · simp [hji]

/-- A value that is accepted comes last on the link. -/
theorem sent (h : Wired n input output s) (hi : i < n) {c : Channel α} {v : α} {ok : Bool}
    (hoffer : offer n i (s.links (i + 1)) v = some (c, ok)) :
    Wired n input output (s.exchange i (.sent v ok) (i + 1) c) where
  flow j hj := by
    obtain ⟨hqueue, -⟩ := offer_eq_some hoffer
    rw [given_exchange, used_exchange hi, links_exchange, h.flow j hj]
    by_cases hji : j = i + 1
    · subst hji
      simp [hqueue]
    · simp [hji]
  closed j hj := by
    obtain ⟨-, hclosed, -⟩ := offer_eq_some hoffer
    rw [closedByNow_exchange, links_exchange, ← h.closed j hj]
    by_cases hji : j = i + 1
    · simp [hji, hclosed]
    · simp [hji]
  capacity j hj hjn := by
    obtain ⟨-, -, hcapacity, -⟩ := offer_eq_some hoffer
    rw [links_exchange, ← h.capacity j hj hjn]
    by_cases hji : j = i + 1
    · simp [hji, hcapacity]
    · simp [hji]

/-- A thread enters a phase and perhaps closes a link. -/
theorem entered (h : Wired n input output s) {close : Prop} [Decidable close] {link : Nat}
    {phase : Phase}
    (hclosed : ∀ j ≤ n, closedByNow n output (s.enter i phase) j =
      (decide (close ∧ j = link) || closedByNow n output s j)) :
    Wired n input output ((if close then s.closeLink link else s).enter i phase) := by
  have hthreads : (if close then s.closeLink link else s).threads = s.threads := by
    split <;> rfl
  have hhistory : ∀ j, ((((if close then s.closeLink link else s).enter i phase).threads j).history) =
      (s.threads j).history := by
    intro j
    rw [history_enter, hthreads]
  refine ⟨fun j hj ↦ ?_, fun j hj ↦ ?_, fun j hj hjn ↦ ?_⟩
  · rw [given_of_history hhistory, used_of_history hhistory, h.flow j hj]
    split <;> simp
  · have hphases : closedByNow n output ((if close then s.closeLink link else s).enter i phase) j =
        closedByNow n output (s.enter i phase) j := by
      apply closedByNow_congr
      · intro k
        rw [phase_enter, phase_enter, hthreads]
      · intro k
        rw [phase_enter, phase_enter, hthreads]
    rw [hphases, hclosed j hj, ← h.closed j hj]
    split
    · simp [*]
    · simp [*]
  · rw [← h.capacity j hj hjn]
    split <;> simp

theorem finished (h : Wired n input output s) {r : StageResult}
    (hphase : (s.threads i).phase = .running) :
    Wired n input output (s.enter i (.ended r)) := by
  have hclosed : ∀ j ≤ n, closedByNow n output (s.enter i (.ended r)) j =
      (decide (False ∧ j = 0) || closedByNow n output s j) := by
    intro j _
    rw [decide_eq_false (fun hfalse ↦ hfalse.1), Bool.false_or]
    apply closedByNow_congr
    · intro k
      by_cases hk : k = i
      · simp [hk, hphase, Phase.isReleased]
      · simp [hk]
    · intro k
      by_cases hk : k = i
      · simp [hk, hphase, Phase.isDone]
      · simp [hk]
  exact h.entered hclosed

/-- A thread that closes its output leaves that of the pipeline open. -/
theorem released (h : Wired n input output s) {r : StageResult}
    (hphase : (s.threads i).phase = .ended r) :
    Wired n input output
      ((if i + 1 < n then s.closeLink (i + 1) else s).enter i (.released r)) := by
  apply h.entered
  intro j hj
  cases j with
  | zero => simp [closedByNow]
  | succ j =>
    rw [closedByNow, closedByNow]
    by_cases hlast : j + 1 = n
    · have hother : ¬(i + 1 < n ∧ j + 1 = i + 1) := by omega
      rw [if_pos hlast, if_pos hlast, decide_eq_false hother, Bool.false_or]
    · rw [if_neg hlast, if_neg hlast]
      by_cases hji : j = i
      · subst hji
        have hinner : j + 1 < n := by omega
        simp [hinner, Phase.isReleased]
      · by_cases hnext : j + 1 = i
        · simp [hji, hnext, hphase, Phase.isDone]
        · simp [hji, hnext]

/-- A thread that is done has closed what it was reading from. -/
theorem left (h : Wired n input output s) (hi : i < n) {r : StageResult}
    (hphase : (s.threads i).phase = .released r) :
    Wired n input output ((if 0 < i then s.closeLink i else s).enter i (.done r)) := by
  apply h.entered
  intro j hj
  cases j with
  | zero => simp [closedByNow]
  | succ j =>
    rw [closedByNow, closedByNow]
    by_cases hlast : j + 1 = n
    · have hother : ¬(0 < i ∧ j + 1 = i) := by omega
      rw [if_pos hlast, if_pos hlast, decide_eq_false hother, Bool.false_or]
    · rw [if_neg hlast, if_neg hlast]
      by_cases hnext : j + 1 = i
      · subst hnext
        simp [Phase.isDone]
      · by_cases hji : j = i
        · simp [hji, hphase, Phase.isReleased]
        · simp [hji, hnext]

/-- Every step keeps the links fitting the threads. -/
theorem step (h : Wired n input output s) (hi : i < n) (hstep : Step n program s i s') :
    Wired n input output s' := by
  cases hstep with
  | receive _ _ hrecv => exact h.received hi hrecv
  | send _ _ hoffer => exact h.sent hi hoffer
  | finish hphase _ => exact h.finished hphase
  | release hphase => exact h.released hphase
  | leave hphase => exact h.left hi hphase

end Wired

end Threads

end Conduit
