import Conduit.Proofs.Threads.Links

/-!
# Threads and Stages in Order

In every state that threads get into, each of them has exchanged what its program exchanges when it
runs alone on all of its input.  This is so although a thread may have been refused values that were
accepted when the stages ran in order: then the thread that was to read them is done already.
-/

namespace Conduit.Threads

open Eval (StageResult linkCapacity)

variable {α : Type} {n i : Nat} {program : Nat → Program α} {input : List α} {output : Channel α}
  {s s' : State α}

/-- A thread that is done has closed its output. -/
theorem Phase.isReleased_of_isDone {phase : Phase} (h : phase.isDone = true) :
    phase.isReleased = true := by
  cases phase with
  | done r => rfl
  | _ => cases h

/-- A thread closes its output once its program has ended. -/
theorem Phase.exists_result {phase : Phase} (h : phase.isReleased = true) :
    ∃ r, phase.result? = some r := by
  cases phase with
  | released r => exact ⟨r, rfl⟩
  | done r => exact ⟨r, rfl⟩
  | _ => cases h

theorem sendLimit_inner (hi : i + 1 < n) : sendLimit n output i = none := by
  have hne : ¬(i + 1 = n ∧ output.closed = true) := by omega
  rw [sendLimit, if_neg hne]

/-- The output of the pipeline accepts what it accepts of the last stage in order. -/
theorem admits_last (hi : i + 1 = n) (count : Nat) :
    admits (sendLimit n output i) count = !output.closed := by
  cases hclosed : output.closed <;> simp [sendLimit, hi, hclosed]

/-- A thread has exchanged what its program exchanges alone, on the input that the stages in order
give it and under their limit, or under the limit that a reader has set by being done. -/
def Alone (q : InOrder n program input output) (s : State α) (i : Nat) : Prop :=
  (program i).Reaches (sendLimit n output i) (q.inputs i) (s.threads i).history ∨
    i + 1 < n ∧ (s.threads (i + 1)).phase.isDone = true ∧
      (program i).Reaches (some (accepted (s.threads i).history).length) (q.inputs i)
        (s.threads i).history

/-- The threads are on the way to what the stages in order come to. -/
structure Coherent (q : InOrder n program input output) (s : State α) : Prop where
  wired : Wired n input output s
  alone : ∀ i < n, Alone q s i
  ended : ∀ i < n, ∀ r, (s.threads i).phase.result? = some r →
    program i (s.threads i).history = .finish r

theorem coherent_start (hn : 0 < n) (q : InOrder n program input output) :
    Coherent q (start n input output) where
  wired := wired_start hn
  alone i _ := .inl .start
  ended i _ r hr := by cases hr

namespace Coherent

variable {q : InOrder n program input output}

/-- Whatever limit a thread is under. -/
theorem reaches (h : Coherent q s) (hi : i < n) :
    ∃ limit, (program i).Reaches limit (q.inputs i) (s.threads i).history := by
  rcases h.alone i hi with hreach | ⟨-, -, hreach⟩
  · exact ⟨_, hreach⟩
  · exact ⟨_, hreach⟩

/-- A thread that has ended and whose reader is not done has exchanged all that it does in order. -/
theorem history_eq (h : Coherent q s) (hi : i < n) {r : StageResult}
    (hr : (s.threads i).phase.result? = some r)
    (hreader : i + 1 < n → (s.threads (i + 1)).phase.isDone = false) :
    (s.threads i).history = q.histories i := by
  rcases h.alone i hi with hreach | ⟨hinner, hdone, -⟩
  · have hends : (program i).Ends (sendLimit n output i) (q.inputs i) (s.threads i).history r :=
      ⟨hreach, h.ended i hi r hr⟩
    exact hends.unique (q.ends i hi)
  · rw [hreader hinner] at hdone
    cases hdone

/-- What has been put on the link of a thread comes first in its input. -/
theorem given_prefix (h : Coherent q s) (hi : i < n) : given n input output s i <+: q.inputs i := by
  cases i with
  | zero => rw [given, q.first]
  | succ i =>
    have hj : i < n := by omega
    have hne : i + 1 ≠ n := by omega
    rw [given, if_neg hne, List.nil_append, q.next]
    obtain ⟨limit, hreach⟩ := h.reaches hj
    have hends := q.ends i hj
    rw [sendLimit_inner hi] at hends
    exact hreach.accepted_prefix hends

/-- Once the link of a thread that is not done is closed, all of its input has been put there. -/
theorem given_eq (h : Coherent q s) (hi : i < n) (hclosed : (s.links i).closed = true)
    (hrunning : (s.threads i).phase.isDone = false) : given n input output s i = q.inputs i := by
  cases i with
  | zero => rw [given, q.first]
  | succ i =>
    have hj : i < n := by omega
    have hne : i + 1 ≠ n := by omega
    rw [h.wired.closed (i + 1) (Nat.le_of_lt hi), closedByNow, if_neg hne, hrunning,
      Bool.or_false] at hclosed
    obtain ⟨r, hr⟩ := Phase.exists_result hclosed
    rw [given, if_neg hne, List.nil_append, q.next, h.history_eq hj hr fun _ ↦ hrunning]

/-- What a thread receives is what its program receives alone. -/
theorem received_eq (h : Coherent q s) (hi : i < n) (hphase : (s.threads i).phase = .running)
    {c : Channel α} {v : Option α} (hrecv : (s.links i).recv? = some (c, v)) :
    v = (q.inputs i)[(taken (s.threads i).history).length]? := by
  have hflow := h.wired.flow i (Nat.le_of_lt hi)
  rw [used, if_pos hi] at hflow
  cases v with
  | none =>
    obtain ⟨hclosed, hempty⟩ := Channel.closed_of_recv?_none hrecv
    have hrunning : (s.threads i).phase.isDone = false := by
      rw [hphase]
      rfl
    rw [h.given_eq hi hclosed hrunning, hempty, List.append_nil] at hflow
    rw [hflow, List.getElem?_eq_none (Nat.le_refl _)]
  | some a =>
    obtain ⟨-, hqueue⟩ := Channel.queue_of_recv? hrecv
    obtain ⟨rest, hrest⟩ := h.given_prefix hi
    rw [hflow, hqueue, List.append_assoc] at hrest
    rw [← hrest, List.getElem?_append_right (Nat.le_refl _), Nat.sub_self]
    rfl

/-! ## Steps -/

/-- A thread that sends goes on as its program does alone.  If it is refused although it would not be
in order, the thread that was to read the value is done. -/
theorem alone_sent (h : Coherent q s) (hi : i < n) (hphase : (s.threads i).phase = .running)
    {c : Channel α} {v : α} {ok : Bool} (hmove : program i (s.threads i).history = .send v)
    (hoffer : offer n i (s.links (i + 1)) v = some (c, ok)) :
    Alone q (s.exchange i (.sent v ok) (i + 1) c) i := by
  obtain ⟨-, -, -, hok⟩ := offer_eq_some hoffer
  have hlink := h.wired.closed (i + 1) hi
  rw [closedByNow] at hlink
  unfold Alone
  rw [history_exchange, if_pos rfl, phase_exchange]
  -- Under a limit that is reached, a value that is refused goes on with the program alone.
  have hrefused : ok = false →
      (program i).Reaches (some (accepted (s.threads i).history).length) (q.inputs i)
        (s.threads i).history →
      (program i).Reaches
        (some (accepted ((s.threads i).history ++ [.sent v ok])).length) (q.inputs i)
        ((s.threads i).history ++ [.sent v ok]) := by
    rintro rfl hreach
    rw [accepted_append, accepted_sent, if_neg Bool.false_ne_true, List.append_nil]
    apply hreach.step
    simp [hmove, reply?]
  rcases h.alone i hi with hreach | ⟨hinner, hdone, hreach⟩
  · by_cases hinner : i + 1 < n
    · rw [if_neg (by omega), hphase] at hlink
      rw [sendLimit_inner hinner] at hreach ⊢
      cases hdone : (s.threads (i + 1)).phase.isDone with
      | false =>
        left
        apply hreach.step
        simp [hmove, reply?, hok, hlink, hdone, Phase.isReleased]
      | true =>
        right
        refine ⟨hinner, rfl, hrefused ?_ (hreach.limited (Nat.le_refl _))⟩
        simp [hok, hlink, hdone]
    · have hlast : i + 1 = n := by omega
      rw [if_pos hlast] at hlink
      left
      apply hreach.step
      rw [hmove, reply?, admits_last hlast, hok, hlink]
  · right
    rw [if_neg (by omega), hdone, Bool.or_true] at hlink
    refine ⟨hinner, hdone, hrefused ?_ hreach⟩
    simp [hok, hlink]

/-- What a thread has exchanged does not change when its reader gets on. -/
theorem alone_of_phases (hhistory : (s'.threads i).history = (s.threads i).history)
    (hdone : (s.threads (i + 1)).phase.isDone = true → (s'.threads (i + 1)).phase.isDone = true)
    (h : Alone q s i) : Alone q s' i := by
  unfold Alone at h ⊢
  rw [hhistory]
  exact h.imp_right fun ⟨hinner, hd, hreach⟩ ↦ ⟨hinner, hdone hd, hreach⟩

/-- An exchange of one thread leaves the other ones as they are. -/
theorem alone_exchange (h : Coherent q s) {e : Exchange α} {link : Nat} {c : Channel α}
    (hown : Alone q (s.exchange i e link c) i) :
    ∀ j < n, Alone q (s.exchange i e link c) j := by
  intro j hj
  by_cases hji : j = i
  · exact hji ▸ hown
  · apply alone_of_phases _ _ (h.alone j hj)
    · simp [hji]
    · simp

/-- A thread that exchanges something has not ended. -/
theorem ended_exchange (h : Coherent q s) (hphase : (s.threads i).phase = .running)
    {e : Exchange α} {link : Nat} {c : Channel α} :
    ∀ j < n, ∀ r, ((s.exchange i e link c).threads j).phase.result? = some r →
      program j ((s.exchange i e link c).threads j).history = .finish r := by
  intro j hj r hr
  rw [phase_exchange] at hr
  by_cases hji : j = i
  · rw [hji, hphase] at hr
    cases hr
  · simpa [hji] using h.ended j hj r hr

/-- A thread that enters a phase has the result that it had, or the one of its program. -/
theorem entered (h : Coherent q s) (hwired : Wired n input output s') {phase : Phase}
    (hthreads : s'.threads = (s.enter i phase).threads)
    (hdone : (s.threads i).phase.isDone = true → phase.isDone = true)
    (hresult : ∀ r, phase.result? = some r → program i (s.threads i).history = .finish r) :
    Coherent q s' := by
  refine ⟨hwired, fun j hj ↦ ?_, fun j hj r hr ↦ ?_⟩
  · apply alone_of_phases _ _ (h.alone j hj)
    · rw [hthreads, history_enter]
    · rw [hthreads, phase_enter]
      split
      · rename_i hnext
        rw [hnext]
        exact hdone
      · exact id
  · rw [hthreads, phase_enter] at hr
    rw [hthreads, history_enter]
    split at hr
    · rename_i hji
      rw [hji]
      exact hresult r hr
    · exact h.ended j hj r hr

/-- Every step leaves the threads on the way to what the stages in order come to. -/
theorem step (h : Coherent q s) (hi : i < n) (hstep : Step n program s i s') : Coherent q s' := by
  have hwired := h.wired.step hi hstep
  cases hstep with
  | @receive c v hphase hmove hrecv =>
    refine ⟨hwired, h.alone_exchange ?_, h.ended_exchange hphase⟩
    have hv := h.received_eq hi hphase hrecv
    have hreply : ∀ limit, reply? limit (q.inputs i) (s.threads i).history
        (program i (s.threads i).history) = some (.received v) := by
      intro limit
      rw [hmove, reply?, hv]
    unfold Alone
    rw [history_exchange, if_pos rfl, phase_exchange, accepted_append, accepted_received,
      List.append_nil]
    rcases h.alone i hi with hreach | ⟨hinner, hdone, hreach⟩
    · exact .inl (hreach.step (hreply _))
    · exact .inr ⟨hinner, hdone, hreach.step (hreply _)⟩
  | send hphase hmove hoffer =>
    exact ⟨hwired, h.alone_exchange (h.alone_sent hi hphase hmove hoffer), h.ended_exchange hphase⟩
  | @finish r hphase hmove =>
    apply h.entered hwired rfl
    · rw [hphase]
      intro hdone
      cases hdone
    · intro r' hr'
      obtain rfl := Option.some.inj hr'
      exact hmove
  | @release r hphase =>
    have hthreads : ((if i + 1 < n then s.closeLink (i + 1) else s).enter i (.released r)).threads =
        (s.enter i (.released r)).threads := by
      split <;> rfl
    apply h.entered hwired hthreads
    · rw [hphase]
      intro hdone
      cases hdone
    · intro r' hr'
      apply h.ended i hi
      rw [hphase]
      exact hr'
  | @leave r hphase =>
    have hthreads : ((if 0 < i then s.closeLink i else s).enter i (.done r)).threads =
        (s.enter i (.done r)).threads := by
      split <;> rfl
    apply h.entered hwired hthreads
    · exact fun _ ↦ rfl
    · intro r' hr'
      apply h.ended i hi
      rw [hphase]
      exact hr'

end Coherent

end Conduit.Threads
