import Mathlib.Data.List.Nodup
import Conduit.Proofs.Channel.History

/-!
# No Wake-up is Lost

Receivers wait for queued values and senders for free places.  In every state that a run leads to,
while some sleeper of a side is unmarked, the channel is open and there is no more of what the side
waits for than there are marked sleepers of that side.  So once no sleeper is marked, there is
nothing left that a sleeper could have.

A value or a place may go to a call that was not told about it.  Then there is one less of them, and
the marked sleeper that finds none is no longer needed.
-/

namespace Conduit.Channel

variable {α : Type}

/-- What the calls of a side wait for: free places if they send, and queued values if they receive.
-/
def supply (c : Channel α) (sending : Bool) : Nat :=
  if sending then c.capacity - c.queue.length else c.queue.length

/-- A call has to wait exactly when the channel is open and has nothing for it. -/
theorem attempt_eq_none_iff {c : Channel α} {call : Call α} :
    c.attempt call = none ↔ c.closed = false ∧ c.supply call.isSend = 0 := by
  unfold attempt supply
  cases call with
  | send v => simp [Call.isSend, send?_eq_none_iff, Nat.sub_eq_zero_iff_le]
  | recv => simp [Call.isSend, recv?_eq_none_iff]
  | recvFor => simp [Call.isSend, recv?_eq_none_iff]

namespace Callers

/-! ## Sleepers of one side -/

/-- An unmarked call of a side is asleep. -/
def Waiting (s : Callers α) (sending : Bool) : Prop :=
  ∃ sleeper ∈ s.sleepers, sleeper.marked = false ∧ sleeper.call.isSend = sending

/-- A sleeper of a side that is marked. -/
def isMarked (sending : Bool) (sleeper : Sleeper α) : Bool :=
  sleeper.marked && sleeper.call.isSend == sending

/-- The number of marked sleepers of a side. -/
def marked (s : Callers α) (sending : Bool) : Nat := s.sleepers.countP (isMarked sending)

/-- No two sleepers have the same identity. -/
def Distinct (s : Callers α) : Prop := (s.sleepers.map (·.id)).Nodup

variable {s s' : Callers α} {side sending : Bool} {choose : Choice α} {id : Nat}

theorem waiting_iff_unmarked : s.Waiting sending ↔ s.unmarked sending ≠ [] := by
  unfold Waiting unmarked
  simp [List.filter_eq_nil_iff]

theorem Distinct.eq (h : s.Distinct) {x y : Sleeper α} (hx : x ∈ s.sleepers)
    (hy : y ∈ s.sleepers) (hid : x.id = y.id) : x = y :=
  List.inj_on_of_nodup_map h hx hy hid

/-! ## Marking -/

/-- Marking a sleeper or taking its mark away changes no identity. -/
theorem map_id_marking (sleepers : List (Sleeper α)) (id : Nat) (marked : Bool) :
    (sleepers.map fun x ↦ if x.id = id then { x with marked } else x).map (·.id) =
      sleepers.map (·.id) := by
  rw [List.map_map]
  apply List.map_congr_left
  intro x _
  by_cases hx : x.id = id
  · simp [hx]
  · simp [hx]

theorem distinct_mark (h : s.Distinct) : (s.mark id).Distinct := by
  unfold Distinct mark
  rw [map_id_marking]
  exact h

theorem waiting_mark (h : (s.mark id).Waiting side) : s.Waiting side := by
  obtain ⟨x, hx, hunmarked, hside⟩ := h
  obtain ⟨y, hy, rfl⟩ := List.mem_map.mp hx
  by_cases hid : y.id = id
  · simp [hid] at hunmarked
  · simp only [hid, if_false] at hunmarked hside
    exact ⟨y, hy, hunmarked, hside⟩

theorem marked_le_mark (s : Callers α) (id : Nat) (side : Bool) :
    s.marked side ≤ (s.mark id).marked side := by
  unfold marked mark
  rw [List.countP_map]
  apply List.countP_mono_left
  intro x _ hx
  by_cases hid : x.id = id
  · simp_all [isMarked]
  · simpa [hid] using hx

/-- Marking an unmarked sleeper makes one more marked. -/
theorem marked_lt_mark {x : Sleeper α} (hx : x ∈ s.sleepers) (hunmarked : x.marked = false) :
    s.marked x.call.isSend < (s.mark x.id).marked x.call.isSend := by
  obtain ⟨before, after, hsplit⟩ := List.append_of_mem hx
  have hbefore := marked_le_mark { s with sleepers := before } x.id x.call.isSend
  have hafter := marked_le_mark { s with sleepers := after } x.id x.call.isSend
  unfold marked mark at hbefore hafter ⊢
  rw [hsplit]
  simp only [List.map_append, List.map_cons, List.countP_append, List.countP_cons, if_true]
  simp only [isMarked, hunmarked, Bool.false_and, Bool.true_and, beq_self_eq_true, if_true,
    Bool.false_eq_true, if_false] at hbefore hafter ⊢
  omega

theorem distinct_notifyOne (h : s.Distinct) : (s.notifyOne choose sending).Distinct := by
  unfold notifyOne
  split
  · exact distinct_mark h
  · exact h

theorem waiting_notifyOne (h : (s.notifyOne choose sending).Waiting side) : s.Waiting side := by
  unfold notifyOne at h
  split at h
  · exact waiting_mark h
  · exact h

theorem marked_le_notifyOne (s : Callers α) (choose : Choice α) (sending side : Bool) :
    s.marked side ≤ (s.notifyOne choose sending).marked side := by
  unfold notifyOne
  split
  · exact marked_le_mark s _ side
  · exact Nat.le_refl _

/-- Telling a side that someone of it waits makes one more of it marked. -/
theorem marked_lt_notifyOne (hchoose : choose.Picks) (h : s.Waiting sending) :
    s.marked sending < (s.notifyOne choose sending).marked sending := by
  obtain ⟨x, hx, hpick⟩ := hchoose.mem (s.unmarked sending) (waiting_iff_unmarked.mp h)
  have hmem := List.mem_filter.mp hx
  have hside : x.marked = false ∧ x.call.isSend = sending := by simpa using hmem.2
  unfold notifyOne
  rw [hpick, ← hside.2]
  exact marked_lt_mark hmem.1 hside.1

/-! ## Leaving and falling asleep again -/

theorem distinct_remove (h : s.Distinct) : (s.remove id).Distinct :=
  List.Nodup.sublist (List.filter_sublist.map _) h

theorem waiting_remove (h : (s.remove id).Waiting side) : s.Waiting side := by
  obtain ⟨x, hx, hunmarked⟩ := h
  exact ⟨x, (List.mem_filter.mp hx).1, hunmarked⟩

/-- With a sleeper no more than that one leaves. -/
theorem marked_remove (h : s.Distinct) {x : Sleeper α} (hx : x ∈ s.sleepers) (side : Bool) :
    s.marked side = (s.remove x.id).marked side + if isMarked side x then 1 else 0 := by
  obtain ⟨before, after, hsplit⟩ := List.append_of_mem hx
  have hne : ∀ y ∈ before ++ after, y.id ≠ x.id := by
    unfold Distinct at h
    rw [hsplit, List.map_append, List.map_cons, List.nodup_middle, List.nodup_cons] at h
    intro y hy heq
    apply h.1
    rw [← List.map_append, ← heq]
    exact List.mem_map_of_mem hy
  have hkept : (s.remove x.id).sleepers = before ++ after := by
    unfold remove
    rw [hsplit, List.filter_append, List.filter_cons_of_neg (by simp), ← List.filter_append,
      List.filter_eq_self]
    exact fun y hy ↦ decide_eq_true (hne y hy)
  unfold marked
  rw [hkept, hsplit, List.countP_append, List.countP_append, List.countP_cons]
  omega

/-- The sleepers after one of them has fallen asleep again. -/
def unmark (s : Callers α) (id : Nat) : Callers α :=
  { s with sleepers := s.sleepers.map fun x ↦ if x.id = id then { x with marked := false } else x }

theorem distinct_unmark (h : s.Distinct) : (s.unmark id).Distinct := by
  unfold Distinct unmark
  rw [map_id_marking]
  exact h

/-- The other side does not notice that a sleeper has fallen asleep again. -/
theorem other_unmark (h : s.Distinct) {x : Sleeper α} (hx : x ∈ s.sleepers)
    (hside : x.call.isSend ≠ side) :
    ((s.unmark x.id).Waiting side → s.Waiting side) ∧
      (s.unmark x.id).marked side = s.marked side := by
  constructor
  · rintro ⟨y, hy, hunmarked, hyside⟩
    obtain ⟨z, hz, rfl⟩ := List.mem_map.mp hy
    by_cases hid : z.id = x.id
    · rw [h.eq hz hx hid] at hyside
      simp [hside] at hyside
    · simp only [hid, if_false] at hunmarked hyside
      exact ⟨z, hz, hunmarked, hyside⟩
  · unfold marked unmark
    rw [List.countP_map]
    apply List.countP_congr
    intro z hz
    by_cases hid : z.id = x.id
    · rw [h.eq hz hx hid]
      simp [isMarked, hside]
    · simp [hid]

/-! ## The invariant -/

/-- While a sleeper of a side is unmarked, the channel is open, and there is no more of what the
side waits for than there are marked sleepers of it. -/
structure Covered (s : Callers α) : Prop where
  distinct : s.Distinct
  covered : ∀ sending, s.Waiting sending →
    s.channel.closed = false ∧ s.channel.supply sending ≤ s.marked sending

/-- One sleeper is told when one thing is taken from the supply of a side and at most one is added to
that of the other.  One marked sleeper of the side itself may have gone with what was taken. -/
theorem covered_notifyOne {c : Channel α} {side : Bool} (hchoose : choose.Picks)
    (hdistinct : s.Distinct) (hopen : ∀ sending, s.Waiting sending → s.channel.closed = false)
    (hown : s.Waiting side → s.channel.supply side ≤ s.marked side + 1)
    (hother : s.Waiting (!side) → s.channel.supply (!side) ≤ s.marked (!side))
    (hclosed : c.closed = s.channel.closed)
    (htaken : s.channel.supply side = c.supply side + 1)
    (hleft : c.supply (!side) ≤ s.channel.supply (!side) + 1) :
    Covered (notifyOne choose (!side) { s with channel := c }) := by
  refine ⟨distinct_notifyOne hdistinct, fun sending hwaiting ↦ ?_⟩
  have hwaited : s.Waiting sending := waiting_notifyOne (s := { s with channel := c }) hwaiting
  rw [channel_notifyOne]
  refine ⟨hclosed.trans (hopen sending hwaited), ?_⟩
  by_cases hside : sending = side
  · subst hside
    have hkept : s.marked sending ≤
        (notifyOne choose (!sending) { s with channel := c }).marked sending :=
      marked_le_notifyOne { s with channel := c } _ _ _
    have hbefore := hown hwaited
    change c.supply sending ≤ _
    omega
  · obtain rfl : sending = !side := Bool.eq_not_of_ne hside
    have htold : s.marked (!side) <
        (notifyOne choose (!side) { s with channel := c }).marked (!side) :=
      marked_lt_notifyOne (s := { s with channel := c }) hchoose hwaited
    have hbefore := hother hwaited
    change c.supply (!side) ≤ _
    omega

/-- A completed call tells the other side whenever it has left something for it.  One marked sleeper
of its own side may have gone with it, since there is one less of what that side waits for. -/
theorem covered_announce {c : Channel α} {answer : Answer α}
    (hturn : Turn s.channel (some answer) c) (hchoose : choose.Picks) (hdistinct : s.Distinct)
    (hopen : ∀ sending, s.Waiting sending → s.channel.closed = false)
    (hown : s.Waiting answer.isSend →
      s.channel.supply answer.isSend ≤ s.marked answer.isSend + 1)
    (hother : s.Waiting (!answer.isSend) →
      s.channel.supply (!answer.isSend) ≤ s.marked (!answer.isSend)) :
    Covered (announce choose { s with channel := c } answer.reply) := by
  cases hturn with
  | accepts v _ hroom =>
    have hlt : s.channel.queue.length < s.channel.capacity := of_decide_eq_true hroom
    apply covered_notifyOne hchoose hdistinct hopen hown hother
    · rfl
    · simp only [supply, Answer.isSend, Call.isSend, enqueue, if_true, List.length_append,
        List.length_singleton]
      omega
    · simp [supply, Answer.isSend, Call.isSend, enqueue]
  | refuses v hclosed =>
    refine ⟨hdistinct, fun sending hwaiting ↦ ?_⟩
    have hstill := hopen sending hwaiting
    rw [hclosed] at hstill
    cases hstill
  | @hands _ v rest hfirst hreceive hreply =>
    rw [hreceive] at hown hother
    rw [hreply]
    apply covered_notifyOne hchoose hdistinct hopen hown hother
    · rfl
    · simp [supply, hfirst]
    · simp only [supply, hfirst, Bool.not_false, if_true, List.length_cons]
      omega
  | lacks hempty hreceive hreply _ =>
    rw [hreply]
    refine ⟨hdistinct, fun sending hwaiting ↦ ⟨hopen sending hwaiting, ?_⟩⟩
    cases sending with
    | false => simp [announce, supply, hempty]
    | true =>
      rw [hreceive] at hother
      exact hother hwaiting

namespace Covered

variable {answer : Answer α} {c : Channel α} {x : Sleeper α} {call : Call α}

theorem isOpen (h : s.Covered) (hwaiting : s.Waiting sending) : s.channel.closed = false :=
  (h.covered sending hwaiting).1

theorem supply_le (h : s.Covered) (hwaiting : s.Waiting sending) :
    s.channel.supply sending ≤ s.marked sending :=
  (h.covered sending hwaiting).2

/-- A call that did not sleep is completed. -/
theorem pass (h : s.Covered) (hturn : Turn s.channel (some answer) c) (hchoose : choose.Picks) :
    Covered (announce choose { s with channel := c } answer.reply) := by
  apply covered_announce hturn hchoose h.distinct
  · exact fun _ ↦ h.isOpen
  · exact fun hwaiting ↦ Nat.le_succ_of_le (h.supply_le hwaiting)
  · exact h.supply_le

/-- A sleeper, marked or not, leaves with an answer. -/
theorem leave (h : s.Covered) (hx : x ∈ s.sleepers) (hside : answer.isSend = x.call.isSend)
    (hturn : Turn s.channel (some answer) c) (hchoose : choose.Picks) :
    Covered (announce choose { s.remove x.id with channel := c } answer.reply) := by
  have hmarked := marked_remove h.distinct hx
  apply covered_announce (s := s.remove x.id) hturn hchoose (distinct_remove h.distinct)
  · exact fun _ hwaiting ↦ h.isOpen (waiting_remove hwaiting)
  · intro hwaiting
    have hbefore := h.supply_le (waiting_remove hwaiting)
    have hcount := hmarked answer.isSend
    change s.channel.supply _ ≤ _
    split at hcount <;> omega
  · intro hwaiting
    have hbefore := h.supply_le (waiting_remove hwaiting)
    have hnone : isMarked (!answer.isSend) x = false := by simp [isMarked, hside]
    have hcount := hmarked (!answer.isSend)
    rw [hnone] at hcount
    exact Nat.le_trans hbefore (Nat.le_of_eq hcount)

/-- A new call falls asleep, since there is nothing for it. -/
theorem join (h : s.Covered) (hunused : s.Unused id) (hattempt : s.channel.attempt call = none) :
    Covered { s with sleepers := s.sleepers ++ [{ id, call }] } := by
  obtain ⟨hclosed, hnothing⟩ := attempt_eq_none_iff.mp hattempt
  refine ⟨?_, fun sending hwaiting ↦ ⟨hclosed, ?_⟩⟩
  · unfold Distinct
    rw [List.map_append, List.nodup_append]
    refine ⟨h.distinct, List.nodup_singleton _, fun a ha b hb heq ↦ ?_⟩
    obtain ⟨x, hx, rfl⟩ := List.mem_map.mp ha
    rw [List.map_singleton, List.mem_singleton] at hb
    exact hunused x hx (heq.trans hb)
  · have hcount : s.marked sending ≤
        marked { s with sleepers := s.sleepers ++ [{ id, call }] } sending := by
      unfold marked
      rw [List.countP_append]
      exact Nat.le_add_right _ _
    obtain ⟨x, hx, hunmarked, hside⟩ := hwaiting
    rcases List.mem_append.mp hx with hx | hx
    · exact Nat.le_trans (h.supply_le ⟨x, hx, hunmarked, hside⟩) hcount
    · rw [List.mem_singleton.mp hx] at hside
      change s.channel.supply sending ≤ _
      rw [← hside, hnothing]
      exact Nat.zero_le _

/-- A sleeper has looked, and falls asleep again since there is nothing for it. -/
theorem stay (h : s.Covered) (hx : x ∈ s.sleepers) (hattempt : s.channel.attempt x.call = none) :
    (s.unmark x.id).Covered := by
  obtain ⟨hclosed, hnothing⟩ := attempt_eq_none_iff.mp hattempt
  refine ⟨distinct_unmark h.distinct, fun sending hwaiting ↦ ⟨hclosed, ?_⟩⟩
  change s.channel.supply sending ≤ (s.unmark x.id).marked sending
  by_cases hside : x.call.isSend = sending
  · rw [← hside, hnothing]
    exact Nat.zero_le _
  · obtain ⟨hback, hcount⟩ := other_unmark h.distinct hx hside
    rw [hcount]
    exact h.supply_le (hback hwaiting)

/-- Closing marks everyone. -/
theorem close (h : s.Covered) : s.close.Covered := by
  refine ⟨?_, ?_⟩
  · unfold Callers.close notifyAll Distinct
    rw [List.map_map]
    exact h.distinct
  · rintro sending ⟨x, hx, hunmarked, -⟩
    obtain ⟨y, -, rfl⟩ := List.mem_map.mp hx
    cases hunmarked

end Covered

/-- A step of any call keeps the sleepers covered. -/
theorem Step.covered {answer : Option (Answer α)} (h : Step s answer s') (hs : s.Covered) :
    s'.Covered := by
  cases h with
  | enter id call hchoose hunused =>
    unfold Callers.enter
    split
    · rename_i c reply hattempt
      exact hs.pass (turn_attempt hattempt) hchoose
    · rename_i hattempt
      exact hs.join hunused hattempt
  | tryRecv hchoose => exact hs.pass (turn_tryRecv s.channel) hchoose
  | close => exact hs.close
  | resume x hchoose hx =>
    unfold Callers.resume
    split
    · rename_i c reply hattempt
      exact hs.leave hx rfl (turn_attempt hattempt) hchoose
    · rename_i hattempt
      exact hs.stay hx hattempt
  | expire x hchoose hx hcall =>
    have hside : Answer.isSend (.answered .recvFor (.received s.channel.pop.2)) = false := rfl
    exact hs.leave hx (hside.trans (by rw [hcall]; rfl)) (turn_expire s.channel) hchoose

theorem covered_ofCapacity (capacity : Nat) : (ofCapacity capacity : Callers α).Covered where
  distinct := List.nodup_nil
  covered := fun _ ⟨_, hx, _⟩ ↦ nomatch hx

/-- Along every run the sleepers stay covered. -/
theorem Run.covered {answers : List (Answer α)} (h : Run s answers s') (hs : s.Covered) :
    s'.Covered := by
  induction h with
  | start => exact hs
  | step _ hstep ih => exact hstep.covered ih

/-- No wake-up is lost.  In a state that calls can get into, and in which no marked call is still to
run, a call that is asleep has to be: the channel is open, and it is empty if the call receives and
full if it sends. -/
theorem no_lost_wakeup {capacity : Nat} {answers : List (Answer α)}
    (h : Run (ofCapacity capacity) answers s) (hidle : ∀ x ∈ s.sleepers, x.marked = false) :
    ∀ x ∈ s.sleepers, s.channel.closed = false ∧
      (x.call.isSend = false → s.channel.queue = []) ∧
      (x.call.isSend = true → s.channel.queue.length = max 1 capacity) := by
  have hcovered := h.covered (covered_ofCapacity capacity)
  have hcapacity : s.channel.capacity = max 1 capacity := h.capacity_eq
  have hlength : s.channel.queue.length ≤ s.channel.capacity := h.length_le (Nat.zero_le _)
  have hnone : ∀ sending, s.marked sending = 0 := by
    intro sending
    apply List.countP_eq_zero.mpr
    intro x hx
    simp [isMarked, hidle x hx]
  intro x hx
  obtain ⟨hopen, hsupply⟩ := hcovered.covered x.call.isSend ⟨x, hx, hidle x hx, rfl⟩
  rw [hnone, Nat.le_zero] at hsupply
  refine ⟨hopen, fun hside ↦ ?_, fun hside ↦ ?_⟩
  · rw [hside] at hsupply
    exact List.length_eq_zero_iff.mp hsupply
  · rw [hside] at hsupply
    have hfull : s.channel.capacity - s.channel.queue.length = 0 := hsupply
    omega

/-- A value that was meant for a sleeping receiver is taken by a receive that never waits.  Both
receivers sleep on an empty open channel afterwards. -/
theorem no_lost_wakeup_stolenValue :
    ∃ s : Callers Nat,
      Run (ofCapacity 0) [.answered (.send 5) (.sent true), .tried (.received (some 5))] s ∧
      s.sleepers.map (·.id) = [0, 1] ∧ (∀ x ∈ s.sleepers, x.marked = false) ∧
      s.channel.closed = false ∧ s.channel.queue = [] := by
  let s : Callers Nat :=
    { channel := .ofCapacity 0, sleepers := [⟨0, .recv, false⟩, ⟨1, .recv, false⟩] }
  have hfirst : (Choice.first : Choice Nat).Picks := Choice.first_picks
  have hasleep : Run (ofCapacity 0) [] s :=
    (Run.start.step (.enter 0 .recv hfirst (by decide))).step
      (.enter 1 .recv hfirst (by decide))
  have hrun : Run (ofCapacity 0)
      [.answered (.send 5) (.sent true), .tried (.received (some 5))] s :=
    ((hasleep.step (.enter 2 (.send 5) hfirst (by decide))).step (.tryRecv hfirst)).step
      (.resume ⟨0, .recv, true⟩ hfirst (by decide))
  have hidle : ∀ x ∈ s.sleepers, x.marked = false := by decide
  obtain ⟨hopen, hqueue, -⟩ := no_lost_wakeup hrun hidle ⟨0, .recv, false⟩ (by decide)
  exact ⟨s, hrun, rfl, hidle, hopen, hqueue rfl⟩

end Callers

end Conduit.Channel
