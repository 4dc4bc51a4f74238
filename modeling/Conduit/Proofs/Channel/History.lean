import Conduit.Channel.Runs
import Conduit.Proofs.Channel

/-!
# What Calls Do to a Channel

However calls are interleaved, a step of one of them does one of five things to the channel:
nothing, because the call falls asleep or is refused; it closes it; it puts a value at the end of an
open queue that has room; it takes the first value; or it finds nothing to take.  From this follows
that a channel is a bounded queue along every run: the values handed out and then those queued are
those accepted, in that order.
-/

namespace Conduit.Channel

variable {α : Type}

/-! ## Steps on the channel alone -/

/-- What a step does to a channel, and the answer that it gives. -/
inductive Turn (c : Channel α) : Option (Answer α) → Channel α → Prop
  | sleeps : Turn c none c
  | closes : Turn c none c.close
  | accepts (v : α) : c.closed = false → c.hasRoom = true →
      Turn c (some (.answered (.send v) (.sent true))) (c.enqueue v)
  | refuses (v : α) : c.closed = true → Turn c (some (.answered (.send v) (.sent false))) c
  | hands {answer : Answer α} {v : α} {rest : List α} : c.queue = v :: rest →
      answer.isSend = false → answer.reply = .received (some v) →
        Turn c (some answer) { c with queue := rest }
  | lacks {answer : Answer α} : c.queue = [] → answer.isSend = false →
      answer.reply = .received none →
        (answer = .answered .recv (.received none) → c.closed = true) → Turn c (some answer) c

namespace Callers

@[simp]
theorem channel_mark (s : Callers α) (id : Nat) : (s.mark id).channel = s.channel := rfl

@[simp]
theorem channel_remove (s : Callers α) (id : Nat) : (s.remove id).channel = s.channel := rfl

@[simp]
theorem channel_notifyOne (choose : Choice α) (sending : Bool) (s : Callers α) :
    (s.notifyOne choose sending).channel = s.channel := by
  unfold notifyOne
  split
  · exact channel_mark s _
  · rfl

/-- Telling the other side changes no channel. -/
@[simp]
theorem channel_announce (choose : Choice α) (s : Callers α) (reply : Reply α) :
    (announce choose s reply).channel = s.channel := by
  unfold announce
  split <;> simp

end Callers

/-- A receive takes the first value or finds none.  One that waits finds none only when the channel
is closed. -/
theorem turn_pop (c : Channel α) {answer : Answer α} (hsend : answer.isSend = false)
    (hreply : answer.reply = .received c.pop.2)
    (hrecv : answer = .answered .recv (.received none) → c.closed = true) :
    Turn c (some answer) c.pop.1 := by
  unfold pop at hreply ⊢
  cases hqueue : c.queue with
  | nil =>
    rw [hqueue] at hreply
    exact .lacks hqueue hsend hreply hrecv
  | cons v rest =>
    rw [hqueue] at hreply
    exact .hands hqueue hsend hreply

theorem turn_tryRecv (c : Channel α) : Turn c (some (.tried (.received c.pop.2))) c.pop.1 :=
  turn_pop c rfl rfl fun h ↦ nomatch h

theorem turn_expire (c : Channel α) :
    Turn c (some (.answered .recvFor (.received c.pop.2))) c.pop.1 :=
  turn_pop c rfl rfl fun h ↦ nomatch h

theorem turn_send? {c c' : Channel α} {v : α} {sent : Bool} (h : c.send? v = some (c', sent)) :
    Turn c (some (.answered (.send v) (.sent sent))) c' := by
  unfold send? at h
  split at h
  · cases h
    exact .refuses v ‹_›
  · rename_i hopen
    split at h
    · cases h
      exact .accepts v (by simpa using hopen) ‹_›
    · cases h

theorem turn_recv? {c c' : Channel α} {call : Call α} {v : Option α} (hcall : call.isSend = false)
    (h : c.recv? = some (c', v)) : Turn c (some (.answered call (.received v))) c' := by
  have hclosed : v = none → c.closed = true := by
    rintro rfl
    exact (closed_of_recv?_none h).1
  unfold recv? at h
  split at h
  · have hpop : c.pop = (c', v) := Option.some.inj h
    have hturn : Turn c (some (.answered call (.received c.pop.2))) c.pop.1 := by
      apply turn_pop
      · exact hcall
      · rfl
      · intro heq
        rw [hpop] at heq
        cases heq
        exact hclosed rfl
    rwa [hpop] at hturn
  · cases h

/-- A call that can be completed takes a turn on the channel. -/
theorem turn_attempt {c c' : Channel α} {call : Call α} {reply : Reply α}
    (h : c.attempt call = some (c', reply)) : Turn c (some (.answered call reply)) c' := by
  cases call with
  | send v =>
    obtain ⟨⟨next, sent⟩, hsend, hresult⟩ := Option.map_eq_some_iff.mp h
    cases hresult
    exact turn_send? hsend
  | recv =>
    obtain ⟨⟨next, v⟩, hrecv, hresult⟩ := Option.map_eq_some_iff.mp h
    cases hresult
    exact turn_recv? rfl hrecv
  | recvFor =>
    obtain ⟨⟨next, v⟩, hrecv, hresult⟩ := Option.map_eq_some_iff.mp h
    cases hresult
    exact turn_recv? rfl hrecv

namespace Callers

variable {s s' s'' : Callers α} {answer : Option (Answer α)} {answers : List (Answer α)}

/-- Every step takes a turn on the channel. -/
theorem Step.turn (h : Step s answer s') : Turn s.channel answer s'.channel := by
  cases h with
  | enter id call _ _ =>
    unfold Callers.enter
    split
    · rename_i channel reply hattempt
      simpa using turn_attempt hattempt
    · exact .sleeps
  | tryRecv _ =>
    unfold Callers.tryRecv
    simpa using turn_tryRecv s.channel
  | close => exact .closes
  | resume sleeper _ _ =>
    unfold Callers.resume
    split
    · rename_i channel reply hattempt
      simpa using turn_attempt hattempt
    · exact .sleeps
  | expire sleeper _ _ _ =>
    unfold Callers.expire Callers.tryRecv
    simpa using turn_expire s.channel

end Callers

/-! ## Values, capacity and closing along a run -/

namespace Turn

variable {c c' : Channel α} {answer : Option (Answer α)} {answers : List (Answer α)}

/-- Values leave the queue at the front and join it at the end. -/
theorem handed_append_queue (h : Turn c answer c')
    (hqueue : handed answers ++ c.queue = accepted answers) :
    handed (answers ++ answer.toList) ++ c'.queue = accepted (answers ++ answer.toList) := by
  unfold handed accepted at hqueue ⊢
  rw [List.filterMap_append, List.filterMap_append, ← hqueue]
  cases h with
  | sleeps => simp
  | closes => simp [close]
  | accepts v _ _ => simp [enqueue]
  | refuses v _ => simp
  | hands hfirst hreceive hreply =>
    simp [hfirst, Answer.accepted?_of_receive hreceive, Answer.handed?_of_reply hreply]
  | lacks hempty hreceive hreply _ =>
    simp [hempty, Answer.accepted?_of_receive hreceive, Answer.handed?_of_reply hreply]

theorem capacity_eq (h : Turn c answer c') : c'.capacity = c.capacity := by
  cases h <;> rfl

theorem length_le (h : Turn c answer c') (hlength : c.queue.length ≤ c.capacity) :
    c'.queue.length ≤ c'.capacity := by
  cases h with
  | sleeps => exact hlength
  | closes => exact hlength
  | accepts v _ hroom =>
    have hlt : c.queue.length < c.capacity := of_decide_eq_true hroom
    simpa [enqueue] using Nat.succ_le_of_lt hlt
  | refuses v _ => exact hlength
  | hands hfirst _ _ =>
    rw [hfirst, List.length_cons] at hlength
    exact Nat.le_of_succ_le hlength
  | lacks _ _ _ _ => exact hlength

/-- A closed channel stays closed and accepts nothing. -/
theorem closed (h : Turn c answer c') (hclosed : c.closed = true) :
    c'.closed = true ∧ accepted answer.toList = [] := by
  cases h with
  | sleeps => exact ⟨hclosed, rfl⟩
  | closes => exact ⟨rfl, rfl⟩
  | accepts v hopen _ => simp [hclosed] at hopen
  | refuses v _ => exact ⟨hclosed, by simp [accepted]⟩
  | hands _ hreceive _ => exact ⟨hclosed, by simp [accepted, Answer.accepted?_of_receive hreceive]⟩
  | lacks _ hreceive _ _ => exact ⟨hclosed, by simp [accepted, Answer.accepted?_of_receive hreceive]⟩

/-- A send is refused exactly when the channel is closed. -/
theorem sent_eq {v : α} {sent : Bool} (h : Turn c (some (.answered (.send v) (.sent sent))) c') :
    sent = !c.closed := by
  cases h with
  | accepts _ hopen _ => simp [hopen]
  | refuses _ hclosed => simp [hclosed]
  | hands _ hreceive _ => cases hreceive
  | lacks _ hreceive _ _ => cases hreceive

/-- A receive that waits gets nothing only from a channel that is closed and drained. -/
theorem received_none (h : Turn c (some (.answered .recv (.received none))) c') :
    c.closed = true ∧ c.queue = [] := by
  cases h with
  | hands _ _ hreply => cases hreply
  | lacks hempty _ _ hrecv => exact ⟨hrecv rfl, hempty⟩

end Turn

namespace Callers

variable {s s' : Callers α} {answers : List (Answer α)} {capacity : Nat}

/-- What is handed out and what is queued is what was accepted, along every run. -/
theorem Run.handed_append_queue (h : Run (ofCapacity capacity) answers s) :
    handed answers ++ s.channel.queue = accepted answers := by
  induction h with
  | start => rfl
  | step _ hstep ih => exact hstep.turn.handed_append_queue ih

theorem Run.capacity_eq (h : Run s answers s') : s'.channel.capacity = s.channel.capacity := by
  induction h with
  | start => rfl
  | step _ hstep ih => exact hstep.turn.capacity_eq.trans ih

theorem Run.length_le (h : Run s answers s')
    (hlength : s.channel.queue.length ≤ s.channel.capacity) :
    s'.channel.queue.length ≤ s'.channel.capacity := by
  induction h with
  | start => exact hlength
  | step _ hstep ih => exact hstep.turn.length_le ih

theorem Run.closed (h : Run s answers s') (hclosed : s.channel.closed = true) :
    s'.channel.closed = true ∧ accepted answers = [] := by
  induction h with
  | start => exact ⟨hclosed, rfl⟩
  | step _ hstep ih =>
    obtain ⟨hstill, hnone⟩ := hstep.turn.closed ih.1
    refine ⟨hstill, ?_⟩
    unfold accepted at ih hnone ⊢
    rw [List.filterMap_append, ih.2, hnone, List.nil_append]

/-- A channel is a bounded queue however calls on it are interleaved.  The values handed out and
then the queued ones are those accepted, in the order in which they were; the queue never holds more
than the capacity; a send is refused exactly when the channel is closed, and a receive that waits
gets nothing only from a channel that is closed and drained; and a closed channel stays closed and
accepts nothing more. -/
theorem bounded_fifo (h : Run (ofCapacity capacity) answers s) :
    handed answers ++ s.channel.queue = accepted answers ∧
      s.channel.queue.length ≤ max 1 capacity ∧
      (∀ v sent s', Step s (some (.answered (.send v) (.sent sent))) s' →
        sent = !s.channel.closed) ∧
      (∀ s', Step s (some (.answered .recv (.received none))) s' →
        s.channel.closed = true ∧ s.channel.queue = []) ∧
      (s.channel.closed = true → ∀ more s', Run s more s' →
        s'.channel.closed = true ∧ accepted more = []) := by
  have hcapacity : s.channel.capacity = max 1 capacity := h.capacity_eq
  have hlength : s.channel.queue.length ≤ s.channel.capacity := h.length_le (Nat.zero_le _)
  refine ⟨h.handed_append_queue, hcapacity ▸ hlength, ?_, ?_, ?_⟩
  · intro v sent s' hstep
    exact hstep.turn.sent_eq
  · intro s' hstep
    exact hstep.turn.received_none
  · intro hclosed more s' hrun
    exact hrun.closed hclosed

/-- A second value waits for its place, and is accepted when the first one has been handed out. -/
theorem bounded_fifo_secondWaits :
    ∃ s : Callers Nat, Run (ofCapacity 0)
        [.answered (.send 1) (.sent true), .answered .recv (.received (some 1)),
          .answered (.send 2) (.sent true)] s ∧
      s.channel.closed = true ∧ [1] ++ s.channel.queue = [1, 2] ∧
      s.channel.queue.length ≤ max 1 0 := by
  let s : Callers Nat := { channel := { capacity := 1, queue := [2], closed := true } }
  have hfirst : (Choice.first : Choice Nat).Picks := Choice.first_picks
  have hwaits : Run (ofCapacity 0) [.answered (.send 1) (.sent true)]
      { channel := { capacity := 1, queue := [1] }, sleepers := [⟨1, .send 2, false⟩] } :=
    (Run.start.step (.enter 0 (.send 1) hfirst (by decide))).step
      (.enter 1 (.send 2) hfirst (by decide))
  have hrun : Run (ofCapacity 0)
      [.answered (.send 1) (.sent true), .answered .recv (.received (some 1)),
        .answered (.send 2) (.sent true)] s :=
    ((hwaits.step (.enter 2 .recv hfirst (by decide))).step
      (.resume ⟨1, .send 2, true⟩ hfirst (by decide))).step .close
  obtain ⟨hvalues, hlength, -⟩ := bounded_fifo hrun
  exact ⟨s, hrun, rfl, hvalues, hlength⟩

end Callers

end Conduit.Channel
