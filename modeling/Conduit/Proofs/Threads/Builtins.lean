import Conduit.Proofs.Calm.Builtins
import Conduit.Proofs.Threads.Regular

/-!
# Builtins as Programs

On channels that never make anyone wait, the builtins `put` and `count` do what their programs do
alone: they end in the same way, what the program takes has gone from the one channel, and what is
accepted of it is queued on the other.
-/

namespace Conduit

namespace World

theorem modifyChannel_modifyChannel (w : World) (id : ChannelId)
    (f g : Channel Value → Channel Value) :
    (w.modifyChannel id f).modifyChannel id g = w.modifyChannel id fun c ↦ g (f c) := by
  unfold modifyChannel Table.modify
  rw [List.modify_modify_eq]
  rfl

/-- Only what becomes of the channel as it is matters. -/
theorem modifyChannel_congr {w : World} {id : ChannelId} {line : Line}
    {f g : Channel Value → Channel Value} (hline : w.channels.get? id = some line)
    (hfg : f line.channel = g line.channel) : w.modifyChannel id f = w.modifyChannel id g := by
  have hrows : (w.channels.rows.modify id fun line ↦ { line with channel := f line.channel }) =
      w.channels.rows.modify id fun line ↦ { line with channel := g line.channel } := by
    apply List.ext_getElem?
    intro other
    rw [List.getElem?_modify, List.getElem?_modify]
    by_cases h : id = other
    · subst h
      have hrow : w.channels.rows[id]? = some line := hline
      simp [hrow, hfg]
    · simp [h]
  unfold modifyChannel Table.modify
  rw [hrows]

theorem get?_modifyChannel {w : World} {id : ChannelId} {line : Line}
    (hline : w.channels.get? id = some line) (f : Channel Value → Channel Value) :
    (w.modifyChannel id f).channels.get? id = some { line with channel := f line.channel } := by
  unfold modifyChannel
  rw [Table.get?_modify, if_pos rfl, hline]
  rfl

end World

namespace Threads

open Eval (putAll putValue sendTo receiveFrom countQueued)

/-- How many values a line accepts that never makes anyone wait. -/
def lineLimit (line : Line) : Option Nat := if line.channel.closed then some 0 else none

/-- The channel with values queued behind those that are there. -/
def queued (values : List Value) (c : Channel Value) : Channel Value :=
  { c with queue := c.queue ++ values }

variable {w : World} {channel : ChannelId} {line : Line}

theorem sendTo_open (hline : w.channels.get? channel = some line)
    (hattended : line.attended = true) (hopen : line.channel.closed = false) (v : Value) :
    sendTo channel v w = (.done true, w.modifyChannel channel (queued [v])) := by
  unfold sendTo
  rw [hline]
  simp only [hopen, hattended, Bool.false_eq_true, if_false, Bool.true_or, if_true]
  rfl

theorem modifyChannel_queued_nil (hline : w.channels.get? channel = some line) :
    w.modifyChannel channel (queued []) = w := by
  have hsame : w.modifyChannel channel (queued []) = w.modifyChannel channel id :=
    World.modifyChannel_congr hline (by simp [queued])
  have hid : (fun line : Line ↦ { line with channel := id line.channel }) = id := rfl
  rw [hsame, World.modifyChannel, Table.modify, hid, List.modify_id]

theorem sendTo_closed (hline : w.channels.get? channel = some line)
    (hclosed : line.channel.closed = true) (v : Value) :
    sendTo channel v w = (.done false, w) := by
  unfold sendTo
  rw [hline]
  simp only [hclosed, if_true]

/-- From a closed channel, the values that are queued are received one by one. -/
theorem receiveFrom_closed (hline : w.channels.get? channel = some line)
    (hclosed : line.channel.closed = true) :
    receiveFrom channel w = (.done line.channel.queue.head?,
      w.modifyChannel channel fun c ↦ { c with queue := c.queue.tail }) := by
  have hrecv : line.channel.recv? =
      some ({ line.channel with queue := line.channel.queue.tail }, line.channel.queue.head?) := by
    obtain ⟨⟨capacity, queue, closed⟩, attended⟩ := line
    obtain rfl : closed = true := hclosed
    cases queue <;> rfl
  have hsame : (w.modifyChannel channel fun _ ↦
        { line.channel with queue := line.channel.queue.tail }) =
      w.modifyChannel channel fun c ↦ { c with queue := c.queue.tail } :=
    World.modifyChannel_congr hline rfl
  unfold receiveFrom
  rw [hline, Option.bind_some, hrecv, ← hsame]

/-! ## Putting -/

/-- On an open channel all values are accepted. -/
theorem putAll_open (hline : w.channels.get? channel = some line)
    (hattended : line.attended = true) (hopen : line.channel.closed = false)
    (hinterrupted : w.interrupted = false) (values : List Value) :
    putAll channel values w = (.done (), w.modifyChannel channel (queued values)) := by
  induction values generalizing w line with
  | nil =>
    rw [modifyChannel_queued_nil hline]
    rfl
  | cons v rest ih =>
    have hsent := sendTo_open hline hattended hopen v
    have hrest := ih (World.get?_modifyChannel hline (queued [v])) hattended hopen hinterrupted
    have hqueue : (w.modifyChannel channel (queued [v])).modifyChannel channel (queued rest) =
        w.modifyChannel channel (queued (v :: rest)) := by
      rw [World.modifyChannel_modifyChannel]
      exact World.modifyChannel_congr hline (by simp [queued])
    rw [← hqueue, ← hrest]
    change (Act.bind Act.checkInterrupt _) w = _
    unfold Act.bind Act.checkInterrupt
    rw [hinterrupted]
    change (Act.bind (sendTo channel v) _) w = _
    unfold Act.bind
    rw [hsent]
    rfl

/-- On a closed channel none is accepted. -/
theorem putAll_closed (hline : w.channels.get? channel = some line)
    (hclosed : line.channel.closed = true) (hinterrupted : w.interrupted = false)
    (values : List Value) : putAll channel values w = (.done (), w) := by
  cases values with
  | nil => rfl
  | cons v rest =>
    have hsent := sendTo_closed hline hclosed v
    change (Act.bind Act.checkInterrupt _) w = _
    unfold Act.bind Act.checkInterrupt
    rw [hinterrupted]
    change (Act.bind (sendTo channel v) _) w = _
    unfold Act.bind
    rw [hsent]
    rfl

theorem any_isRefused_sent (values : List Value) :
    (values.map (Exchange.sent · true)).any Exchange.isRefused = false := by
  simp [List.any_map, Exchange.isRefused]

/-- Without a limit, the program sends one value after another. -/
theorem reaches_put (values : List Value) (k : Nat) :
    (Program.put values).Reaches none [] ((values.take k).map (.sent · true)) := by
  induction k with
  | zero => exact .start
  | succ k ih =>
    rw [List.take_add_one]
    cases hv : values[k]? with
    | none => simpa using ih
    | some v =>
      have hlt : k < values.length := (List.getElem?_eq_some_iff.mp hv).1
      have hlength : ((values.take k).map (Exchange.sent · true)).length = k := by
        rw [List.length_map, List.length_take, Nat.min_eq_left (Nat.le_of_lt hlt)]
      rw [Option.toList_some, List.map_append]
      apply ih.step
      rw [Program.put, any_isRefused_sent, if_neg Bool.false_ne_true, hlength, hv]
      rfl

theorem accepted_map_sent (values : List Value) :
    accepted (values.map (.sent · true)) = values := by
  simp [accepted, List.filterMap_map, Function.comp_def, Exchange.accepted?]

/-- The builtin `put` does what its program does alone. -/
theorem putAll_performs (hline : w.channels.get? channel = some line)
    (hattended : line.attended = true) (hinterrupted : w.interrupted = false)
    (values : List Value) :
    ∃ h, (Program.put values).Ends (lineLimit line) [] h .finished ∧
      putAll channel values w =
        (.done (), w.modifyChannel channel (queued (accepted h))) := by
  cases hclosed : line.channel.closed with
  | false =>
    have hreach := reaches_put values values.length
    rw [List.take_length] at hreach
    refine ⟨values.map (.sent · true), ⟨?_, ?_⟩, ?_⟩
    · rwa [lineLimit, hclosed]
    · rw [Program.put, any_isRefused_sent, if_neg Bool.false_ne_true, List.length_map,
        List.getElem?_eq_none (Nat.le_refl _)]
    · rw [accepted_map_sent]
      exact putAll_open hline hattended hclosed hinterrupted values
  | true =>
    have hnothing := putAll_closed hline hclosed hinterrupted values
    rw [lineLimit, hclosed, if_pos rfl]
    cases values with
    | nil =>
      refine ⟨[], ⟨.start, rfl⟩, ?_⟩
      rw [hnothing]
      exact congrArg _ (modifyChannel_queued_nil hline).symm
    | cons v rest =>
      refine ⟨[.sent v false], ⟨Program.Reaches.start.step rfl, rfl⟩, ?_⟩
      rw [hnothing]
      exact congrArg _ (modifyChannel_queued_nil hline).symm

/-! ## Counting -/

/-- All values of a closed channel are counted, and none is left. -/
theorem countQueued_closed (hline : w.channels.get? channel = some line)
    (hclosed : line.channel.closed = true) :
    countQueued channel line.channel.queue.length w =
      (.done line.channel.queue.length, w.modifyChannel channel fun c ↦ { c with queue := [] }) := by
  induction hqueue : line.channel.queue generalizing w line with
  | nil =>
    have hdrained : (w.modifyChannel channel fun c ↦ { c with queue := c.queue.tail }) =
        w.modifyChannel channel fun c ↦ { c with queue := [] } :=
      World.modifyChannel_congr hline (by simp [hqueue])
    change (Act.bind (receiveFrom channel) _) w = _
    unfold Act.bind
    rw [receiveFrom_closed hline hclosed, ← hdrained]
    rfl
  | cons v rest ih =>
    have hrest := ih (World.get?_modifyChannel hline fun c ↦ { c with queue := c.queue.tail })
      hclosed (by simp [hqueue])
    have hdrained : ((w.modifyChannel channel fun c ↦ { c with queue := c.queue.tail }).modifyChannel
        channel fun c ↦ { c with queue := [] }) =
          w.modifyChannel channel fun c ↦ { c with queue := [] } :=
      World.modifyChannel_modifyChannel w channel _ _
    rw [hdrained] at hrest
    change (Act.bind (receiveFrom channel) _) w = _
    unfold Act.bind
    rw [receiveFrom_closed hline hclosed, hqueue]
    change (Act.bind (countQueued channel rest.length) _) _ = _
    unfold Act.bind
    rw [hrest]
    rfl

theorem taken_map_received (values : List Value) :
    taken (values.map fun v ↦ .received (some v)) = values := by
  simp [taken, List.filterMap_map, Function.comp_def, Exchange.taken?]

theorem accepted_map_received (values : List Value) :
    accepted (values.map fun v ↦ Exchange.received (some v)) = [] := by
  simp [accepted, Exchange.accepted?]

/-- As long as values come, the program receives the next one. -/
theorem count_receives (total : Nat → Value) (values : List Value) :
    Program.count total (values.map fun v ↦ .received (some v)) = .receive := by
  unfold Program.count
  rw [List.getLast?_map]
  cases values.getLast? <;> rfl

variable {total : Nat → Value} {limit : Option Nat}

theorem reaches_count (input : List Value) (k : Nat) :
    (Program.count total).Reaches limit input
      ((input.take k).map fun v ↦ .received (some v)) := by
  induction k with
  | zero => exact .start
  | succ k ih =>
    rw [List.take_add_one]
    cases hv : input[k]? with
    | none => simpa using ih
    | some v =>
      have hlt : k < input.length := (List.getElem?_eq_some_iff.mp hv).1
      rw [Option.toList_some, List.map_append]
      apply ih.step
      rw [count_receives, reply?, taken_map_received, List.length_take,
        Nat.min_eq_left (Nat.le_of_lt hlt), hv]

/-- What the program exchanges: all values of its input, and then their number. -/
theorem ends_count (input : List Value) :
    (Program.count total).Ends limit input
      ((input.map fun v ↦ .received (some v)) ++ [.received none] ++
        [.sent (total input.length) (admits limit 0)]) .finished := by
  have hall : (Program.count total).Reaches limit input
      ((input.take input.length).map fun v ↦ .received (some v)) :=
    reaches_count input input.length
  rw [List.take_length] at hall
  have hdrained : reply? limit input (input.map fun v ↦ .received (some v))
      (Program.count total (input.map fun v ↦ .received (some v))) = some (.received none) := by
    rw [count_receives, reply?, taken_map_received, List.getElem?_eq_none (Nat.le_refl _)]
  constructor
  · apply (hall.step hdrained).step
    rw [Program.count, List.getLast?_concat]
    simp [reply?, accepted_append, accepted_map_received, taken_append, taken_map_received]
  · rw [Program.count, List.getLast?_concat]

/-- A value that is put out is queued unless the channel is closed. -/
theorem putValue_eq {ctx : Context} (hctx : ctx.channel? w 1 = some channel)
    (hline : w.channels.get? channel = some line) (hattended : line.attended = true) (v : Value) :
    putValue ctx v w = (.done (),
      w.modifyChannel channel (queued (accepted [.sent v (admits (lineLimit line) 0)]))) := by
  have houtput : Eval.outputChannel ctx (utf8 "no value output") w = (.done channel, w) := by
    rw [Eval.outputChannel, Act.world_bind, hctx]
    rfl
  change (Act.bind (Eval.outputChannel ctx _) _) w = _
  unfold Act.bind
  rw [houtput]
  change (Act.bind (sendTo channel v) _) w = _
  unfold Act.bind
  cases hclosed : line.channel.closed with
  | false =>
    rw [sendTo_open hline hattended hclosed, lineLimit, hclosed]
    rfl
  | true =>
    rw [sendTo_closed hline hclosed, lineLimit, hclosed]
    exact congrArg _ (modifyChannel_queued_nil hline).symm

/-- The builtin `count` does what its program does alone. -/
theorem count_performs {ctx : Context} {source sink : ChannelId} {input output : Line}
    (hsource : ctx.channel? w 0 = some source) (hsink : ctx.channel? w 1 = some sink)
    (hne : source ≠ sink) (hinput : w.channels.get? source = some input)
    (hclosed : input.channel.closed = true) (houtput : w.channels.get? sink = some output)
    (hattended : output.attended = true) :
    ∃ h, (Program.count fun n ↦ .text (Bytes.ofNat n)).Ends (lineLimit output) input.channel.queue
        h .finished ∧
      Eval.count ctx w = (.done (), (w.modifyChannel source fun c ↦ { c with queue := [] }).modifyChannel
        sink (queued (accepted h))) := by
  let drained := w.modifyChannel source fun c ↦ { c with queue := [] }
  let total : Value := .text (Bytes.ofNat input.channel.queue.length)
  refine ⟨_, ends_count input.channel.queue, ?_⟩
  have hsinkDrained : drained.channels.get? sink = some output := by
    change (w.channels.modify source _).get? sink = _
    rw [Table.get?_modify, if_neg hne, houtput]
  have hsinkSlot : ctx.channel? drained 1 = some sink := hsink
  have hput : putValue ctx total drained = (.done (),
      drained.modifyChannel sink (queued (accepted [.sent total (admits (lineLimit output) 0)]))) :=
    putValue_eq hsinkSlot hsinkDrained hattended total
  have hinputChannel : Eval.inputChannel ctx w = (.done source, w) := by
    rw [Eval.inputChannel, Act.world_bind, hsource]
    rfl
  have hlength : ((w.channels.get? source).map fun line ↦ line.channel.queue.length).getD 0 =
      input.channel.queue.length := by
    rw [hinput]
    rfl
  rw [accepted_append, accepted_append, accepted_map_received, accepted_received, List.nil_append,
    List.nil_append, ← hput]
  change (Act.bind (Eval.inputChannel ctx) _) w = _
  unfold Act.bind
  rw [hinputChannel]
  change (Act.bind (countQueued source (((w.channels.get? source).map fun line ↦
    line.channel.queue.length).getD 0)) _) w = _
  unfold Act.bind
  rw [hlength, countQueued_closed hinput hclosed]

end Threads

end Conduit
