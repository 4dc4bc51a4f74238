import Mathlib.Algebra.BigOperators.Group.Finset.Piecewise
import Mathlib.Algebra.Order.BigOperators.Group.Finset
import Conduit.Proofs.Threads.Coherence
import Conduit.Proofs.Threads.Regular

/-!
# Schedules

The threads of a pipeline of regular programs come to what its stages come to in order, whatever the
schedule.  No schedule goes on for ever, and as long as a thread is not done some thread can take a
step: a full link has a reader that is not waiting for a value, and an empty one has a writer that is
not waiting for room, so that whoever waits leads to someone who does not.
-/

namespace Conduit.Threads

open Eval (StageResult linkCapacity)

variable {α : Type} {n i : Nat} {program : Nat → Program α} {input : List α} {output : Channel α}
  {s s' : State α}

/-! ## Progress -/

/-- A thread waits to receive from an open and empty link. -/
def AwaitsValue (s : State α) (i : Nat) : Prop :=
  (s.links i).closed = false ∧ (s.links i).queue = []

/-- A thread waits to send to an open and full link between two threads. -/
def AwaitsRoom (n : Nat) (s : State α) (i : Nat) : Prop :=
  i + 1 < n ∧ (s.links (i + 1)).closed = false ∧
    (s.links (i + 1)).capacity ≤ (s.links (i + 1)).queue.length

/-- A thread that can take no step is done or waits. -/
theorem waits_of_stuck (hi : i < n) (h : step? n program s i = none) :
    (s.threads i).phase.isDone = true ∨ AwaitsValue s i ∨ AwaitsRoom n s i := by
  unfold step? at h
  rw [if_pos hi] at h
  split at h
  · split at h
    · right
      left
      exact Channel.recv?_eq_none_iff.mp (Option.map_eq_none_iff.mp h)
    · right
      right
      rw [Option.map_eq_none_iff, offer] at h
      split at h
      · cases h
      · exact ⟨by omega, Channel.send?_eq_none_iff.mp h⟩
    · cases h
  · cases h
  · cases h
  · left
    rename_i hphase
    rw [hphase]
    rfl

/-- The two threads of an open link are not done, and the one that writes to it has not closed it. -/
theorem Wired.open_link (h : Wired n input output s) (hi : i + 1 < n)
    (hopen : (s.links (i + 1)).closed = false) :
    (s.threads i).phase.isDone = false ∧ (s.threads (i + 1)).phase.isDone = false := by
  have hne : i + 1 ≠ n := by omega
  rw [h.closed (i + 1) (Nat.le_of_lt hi), closedByNow, if_neg hne, Bool.or_eq_false_iff] at hopen
  refine ⟨?_, hopen.2⟩
  by_contra hdone
  rw [Bool.not_eq_false] at hdone
  rw [Phase.isReleased_of_isDone hdone] at hopen
  cases hopen.1

/-- If no thread can take a step, none waits for room: the reader of its link would not be done and
could not wait for a value, so it would wait for room as well, and so on to the last thread. -/
theorem Wired.not_awaitsRoom (h : Wired n input output s)
    (hstuck : ∀ j < n, step? n program s j = none) : ∀ i, ¬AwaitsRoom n s i := by
  have hback : ∀ d i, n - i = d → ¬AwaitsRoom n s i := by
    intro d
    induction d with
    | zero =>
      rintro i hd ⟨hi, -⟩
      omega
    | succ d ih =>
      rintro i hd ⟨hi, hopen, hfull⟩
      obtain ⟨-, hreader⟩ := h.open_link hi hopen
      rcases waits_of_stuck hi (hstuck (i + 1) hi) with hdone | ⟨-, hempty⟩ | hroom
      · rw [hreader] at hdone
        cases hdone
      · rw [hempty, h.capacity (i + 1) (by omega) hi, linkCapacity] at hfull
        simp at hfull
      · exact ih (i + 1) (by omega) hroom
  exact fun i ↦ hback _ i rfl

/-- Then none waits for a value either: the writer of its link would not be done and could only wait
for a value as well, and so on to the first thread, whose link is closed. -/
theorem Wired.not_awaitsValue (h : Wired n input output s)
    (hstuck : ∀ j < n, step? n program s j = none) : ∀ i < n, ¬AwaitsValue s i := by
  intro i
  induction i with
  | zero =>
    rintro hi ⟨hopen, -⟩
    rw [h.closed 0 (Nat.zero_le n), closedByNow] at hopen
    cases hopen
  | succ i ih =>
    rintro hi ⟨hopen, -⟩
    have hj : i < n := by omega
    obtain ⟨hwriter, -⟩ := h.open_link hi hopen
    rcases waits_of_stuck hj (hstuck i hj) with hdone | hvalue | hroom
    · rw [hwriter] at hdone
      cases hdone
    · exact ih hj hvalue
    · exact h.not_awaitsRoom hstuck i hroom

/-- As long as a thread is not done, some thread can take a step. -/
theorem Wired.progress (h : Wired n input output s) (program : Nat → Program α) (hi : i < n)
    (hrunning : (s.threads i).phase.isDone = false) :
    ∃ j < n, (step? n program s j).isSome = true := by
  by_contra hnone
  have hstuck : ∀ j < n, step? n program s j = none := by
    intro j hj
    by_contra hsome
    exact hnone ⟨j, hj, Option.isSome_iff_ne_none.mpr hsome⟩
  rcases waits_of_stuck hi (hstuck i hi) with hdone | hvalue | hroom
  · rw [hrunning] at hdone
    cases hdone
  · exact h.not_awaitsValue hstuck i hi hvalue
  · exact h.not_awaitsRoom hstuck i hroom

/-! ## Termination -/

/-- The number of phases that a thread has entered. -/
def Phase.rank : Phase → Nat
  | .running => 0
  | .ended _ => 1
  | .released _ => 2
  | .done _ => 3

/-- The number of steps that a thread has taken. -/
def Thread.steps (t : Thread α) : Nat := t.history.length + t.phase.rank

/-- The number of steps that the threads have taken. -/
def State.steps (n : Nat) (s : State α) : Nat := ∑ i ∈ Finset.range n, (s.threads i).steps

/-- A step is one of the thread that takes it. -/
theorem steps_step (hstep : Step n program s i s') (j : Nat) :
    (s'.threads j).steps = (s.threads j).steps + if j = i then 1 else 0 := by
  unfold Thread.steps
  by_cases hji : j = i
  · subst hji
    cases hstep with
    | receive => simp; omega
    | send => simp; omega
    | finish hphase => simp [hphase, Phase.rank]
    | release hphase => split <;> simp [hphase, Phase.rank]
    | leave hphase => split <;> simp [hphase, Phase.rank]
  · cases hstep with
    | receive => simp [hji]
    | send => simp [hji]
    | finish => simp [hji]
    | release => split <;> simp [hji]
    | leave => split <;> simp [hji]

theorem State.steps_step (hi : i < n) (hstep : Step n program s i s') :
    s'.steps n = s.steps n + 1 := by
  calc
    s'.steps n = ∑ j ∈ Finset.range n, ((s.threads j).steps + if j = i then 1 else 0) :=
      Finset.sum_congr rfl fun j _ ↦ Threads.steps_step hstep j
    _ = s.steps n + ∑ j ∈ Finset.range n, (if j = i then 1 else 0) := Finset.sum_add_distrib
    _ = s.steps n + 1 := by rw [Finset.sum_ite_eq', if_pos (Finset.mem_range.mpr hi)]

/-- There is a bound on how many steps threads can take on the way to what the stages in order come
to. -/
theorem exists_bound (hprogram : ∀ i < n, (program i).Regular)
    (q : InOrder n program input output) : ∃ bound, ∀ s, Coherent q s → s.steps n ≤ bound := by
  have hbound : ∀ i, ∃ bound, i < n → ∀ limit h,
      (program i).Reaches limit (q.inputs i) h → h.length ≤ bound := by
    intro i
    by_cases hi : i < n
    · obtain ⟨bound, hbound⟩ := (hprogram i hi).bounded (q.inputs i)
      exact ⟨bound, fun _ ↦ hbound⟩
    · exact ⟨0, fun h ↦ absurd h hi⟩
  choose bound hbound using hbound
  refine ⟨∑ i ∈ Finset.range n, (bound i + 3), fun s h ↦ Finset.sum_le_sum fun i hi ↦ ?_⟩
  have hi' : i < n := Finset.mem_range.mp hi
  obtain ⟨limit, hreach⟩ := h.reaches hi'
  have hlength := hbound i hi' limit _ hreach
  have hrank : (s.threads i).phase.rank ≤ 3 := by
    cases (s.threads i).phase <;> simp [Phase.rank]
  unfold Thread.steps
  omega

/-! ## Runs -/

/-- Whatever the schedule, the threads stay on the way, and each entry of it is one step. -/
theorem Coherent.run {q : InOrder n program input output} (h : Coherent q s) {schedule : List Nat}
    (hrun : run n program s schedule = some s') :
    Coherent q s' ∧ s'.steps n = s.steps n + schedule.length := by
  induction schedule generalizing s with
  | nil =>
    cases hrun
    exact ⟨h, rfl⟩
  | cons i rest ih =>
    obtain ⟨between, hfirst, hrest⟩ := Option.bind_eq_some_iff.mp hrun
    obtain ⟨hi, hstep⟩ := step_of_step? hfirst
    obtain ⟨hend, hsteps⟩ := ih (h.step hi hstep) hrest
    refine ⟨hend, ?_⟩
    rw [hsteps, State.steps_step hi hstep, List.length_cons]
    omega

/-- A thread that is done has the result of its stage. -/
theorem Coherent.result_eq {q : InOrder n program input output} (h : Coherent q s) (hi : i < n)
    (hregular : (program i).Regular) (hdone : (s.threads i).phase.isDone = true) :
    (s.threads i).phase.result? = some (q.outcomes i) := by
  obtain ⟨r, hr⟩ := Phase.exists_result (Phase.isReleased_of_isDone hdone)
  obtain ⟨limit, hreach⟩ := h.reaches hi
  obtain ⟨g, r', hends⟩ := hregular.ends (q.inputs i) none
  have hown : r = r' := hregular.heedless hends ⟨hreach, h.ended i hi r hr⟩
  have hstage : q.outcomes i = r' := hregular.heedless hends (q.ends i hi)
  rw [hr, hown, hstage]

theorem Coherent.results_eq {q : InOrder n program input output} (h : Coherent q s)
    (hprogram : ∀ i < n, (program i).Regular)
    (hdone : ∀ i < n, (s.threads i).phase.isDone = true) : s.results n = q.results := by
  have hresult : ∀ i ∈ List.range n, (s.threads i).phase.result? = some (q.outcomes i) := by
    intro i hi
    have hi' : i < n := List.mem_range.mp hi
    exact h.result_eq hi' (hprogram i hi') (hdone i hi')
  calc
    s.results n = (List.range n).filterMap fun i ↦ some (q.outcomes i) :=
      List.filterMap_congr hresult
    _ = q.results := by rw [List.filterMap_eq_map']; rfl

/-- Once all threads are done, the output of the pipeline has what the stages in order put there. -/
theorem Coherent.delivered_eq {q : InOrder n program input output} (h : Coherent q s) (hn : 0 < n)
    (hdone : ∀ i < n, (s.threads i).phase.isDone = true) : (s.links n).queue = q.delivered := by
  obtain ⟨m, rfl⟩ : ∃ m, n = m + 1 := ⟨n - 1, by omega⟩
  have hflow := h.wired.flow (m + 1) (Nat.le_refl _)
  obtain ⟨r, hr⟩ :=
    Phase.exists_result (Phase.isReleased_of_isDone (hdone m (Nat.lt_succ_self m)))
  have hhistory : (s.threads m).history = q.histories m :=
    h.history_eq (Nat.lt_succ_self m) hr fun hinner ↦ absurd hinner (Nat.lt_irrefl _)
  rw [given, if_pos rfl, used, if_neg (Nat.lt_irrefl _), List.nil_append, hhistory] at hflow
  rw [InOrder.delivered, q.next, hflow]

/-! ## Stages in order -/

theorem exists_inOrder (hprogram : ∀ i < n, (program i).Regular) (input : List α)
    (output : Channel α) : Nonempty (InOrder n program input output) := by
  have hends : ∀ i xs, ∃ h r, i < n → (program i).Ends (sendLimit n output i) xs h r := by
    intro i xs
    by_cases hi : i < n
    · obtain ⟨h, r, hends⟩ := (hprogram i hi).ends xs (sendLimit n output i)
      exact ⟨h, r, fun _ ↦ hends⟩
    · exact ⟨[], .finished, fun h ↦ absurd h hi⟩
  choose histories outcomes hends using hends
  let inputs : Nat → List α := Nat.rec input fun i xs ↦ accepted (histories i xs)
  exact ⟨{
    inputs
    histories := fun i ↦ histories i (inputs i)
    outcomes := fun i ↦ outcomes i (inputs i)
    first := rfl
    next := fun _ ↦ rfl
    ends := fun i ↦ hends i (inputs i) }⟩

/-- A pipeline of regular programs is independent of the schedule.  Its stages can be run in order;
there is a bound on the length of all schedules; in every state that threads get into, some thread
can take a step unless all are done; and when all are done, the output and the results are those of
the stages in order, and so is what the pipeline raises. -/
theorem schedule_independent (hn : 0 < n) (hprogram : ∀ i < n, (program i).Regular)
    (input : List α) (output : Channel α) :
    Nonempty (InOrder n program input output) ∧
      (∃ bound, ∀ schedule s, run n program (start n input output) schedule = some s →
        schedule.length ≤ bound) ∧
      ∀ (q : InOrder n program input output) (schedule : List Nat) (s : State α),
        run n program (start n input output) schedule = some s →
          ((∃ i < n, (s.threads i).phase.isDone = false) →
            ∃ i < n, (step? n program s i).isSome = true) ∧
          ((∀ i < n, (s.threads i).phase.isDone = true) →
            (s.links n).queue = q.delivered ∧ s.results n = q.results ∧
              Eval.verdict (s.results n) = Eval.verdict q.results) := by
  have hexists := exists_inOrder hprogram input output
  refine ⟨hexists, ?_, fun q schedule s hrun ↦ ?_⟩
  · obtain ⟨q⟩ := hexists
    obtain ⟨bound, hbound⟩ := exists_bound hprogram q
    refine ⟨bound, fun schedule s hrun ↦ ?_⟩
    obtain ⟨hend, hsteps⟩ := (coherent_start hn q).run hrun
    have hle := hbound s hend
    omega
  · obtain ⟨hend, -⟩ := (coherent_start hn q).run hrun
    constructor
    · rintro ⟨i, hi, hrunning⟩
      exact hend.wired.progress program hi hrunning
    · intro hdone
      have hresults := hend.results_eq hprogram hdone
      exact ⟨hend.delivered_eq hn hdone, hresults, congrArg Eval.verdict hresults⟩

/-- Two values are put and counted. -/
def putThenCount : Nat → Program Value
  | 0 => .put [.text (utf8 "a"), .text (utf8 "b")]
  | _ + 1 => .count fun total ↦ .text (Bytes.ofNat total)

/-- The two stages in order. -/
def putThenCountInOrder : InOrder 2 putThenCount [] (.ofCapacity 1) where
  inputs
    | 1 => [.text (utf8 "a"), .text (utf8 "b")]
    | 2 => [.text (Bytes.ofNat 2)]
    | _ => []
  histories
    | 0 => [.sent (.text (utf8 "a")) true, .sent (.text (utf8 "b")) true]
    | 1 => [.received (some (.text (utf8 "a"))), .received (some (.text (utf8 "b"))),
        .received none, .sent (.text (Bytes.ofNat 2)) true]
    | _ => []
  outcomes _ := .finished
  first := rfl
  next i := by
    rcases i with _ | _ | i <;> rfl
  ends i hi := by
    rcases i with _ | _ | i
    · exact ⟨(Program.Reaches.start.step rfl).step rfl, rfl⟩
    · exact ⟨(((Program.Reaches.start.step rfl).step rfl).step rfl).step rfl, rfl⟩
    · omega

/-- However the two threads take turns, once they are done the output has the number two. -/
theorem schedule_independent_putThenCount :
    (0 < 2 ∧ ∀ i < 2, (putThenCount i).Regular) ∧
      ∀ schedule s, run 2 putThenCount (start 2 [] (.ofCapacity 1)) schedule = some s →
        (∀ i < 2, (s.threads i).phase.isDone = true) →
          (s.links 2).queue = [.text (Bytes.ofNat 2)] ∧ s.results 2 = [.finished, .finished] := by
  have hregular : ∀ i < 2, (putThenCount i).Regular := by
    intro i _
    unfold putThenCount
    split
    · exact Program.put_regular _
    · exact Program.count_regular _
  refine ⟨⟨by decide, hregular⟩, fun schedule s hrun hdone ↦ ?_⟩
  have hindependent := schedule_independent (by decide) hregular [] (.ofCapacity 1)
  obtain ⟨hqueue, hresults, -⟩ := (hindependent.2.2 putThenCountInOrder schedule s hrun).2 hdone
  exact ⟨hqueue, hresults⟩

end Conduit.Threads
