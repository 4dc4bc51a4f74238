import Conduit.Eval.Builtins
import Conduit.Proofs.Calm.Places
import Conduit.Proofs.Channel

/-!
# Calm Builtins

Sending values is calm, and so are the builtins that neither receive values nor call a function.  A
value that is received was queued before.
-/

namespace Conduit

open World (Calm Takes)
open Act (Keeps)

variable {given : Closure → Prop}

namespace Eval

/-! ## Channels -/

theorem calm_sendTo (channel : ChannelId) {v : Value} (hv : ∀ c ∈ v.closures, given c) :
    Keeps (Calm given) (sendTo channel v) := by
  intro w
  unfold sendTo
  split
  · exact .refl w
  · split
    · exact .refl w
    · split
      · exact .enqueue w channel hv
      · exact .refl w

/-- A receive takes what it yields, which was queued. -/
theorem receiveFrom_stored (channel : ChannelId) (w : World) :
    (receiveFrom channel).Leads w
      (fun v w' ↦ Takes channel w w' ∧ ∀ u ∈ v, ∀ c ∈ u.closures, w.Stores c) (· = w) := by
  unfold Act.Leads receiveFrom
  rcases hrecv : (w.channels.get? channel).bind fun line ↦ line.channel.recv? with _ | ⟨rest, v⟩
  · rfl
  · obtain ⟨line, hline, hrecv⟩ := Option.bind_eq_some_iff.mp hrecv
    obtain ⟨hclosed, hqueue⟩ := Channel.queue_of_recv? hrecv
    refine ⟨⟨fun _ ↦ rest, rfl, fun other hother ↦ ?_⟩, fun u hu c hc ↦ ?_⟩
    · rw [hline, Option.some.injEq] at hother
      subst hother
      exact ⟨hclosed, v.toList, hqueue.symm⟩
    · refine .inr ⟨channel, line, hline, u, ?_, hc⟩
      rw [hqueue]
      exact List.mem_append_left _ (Option.mem_toList.mpr hu)

theorem calm_outputChannel (ctx : Context) (message : Bytes) :
    Keeps (Calm given) (outputChannel ctx message) := by
  refine .bind .world fun w ↦ ?_
  split
  · exact .pure _
  · exact .fail _

theorem calm_inputChannel (ctx : Context) : Keeps (Calm given) (inputChannel ctx) := by
  refine .bind .world fun w ↦ ?_
  split
  · exact .pure _
  · exact .fail _

theorem calm_putValue (ctx : Context) {v : Value} (hv : ∀ c ∈ v.closures, given c) :
    Keeps (Calm given) (putValue ctx v) :=
  .bind (calm_outputChannel _ _) fun _ ↦ .bind (calm_sendTo _ hv) fun _ ↦ .pure _

theorem calm_putAll (channel : ChannelId) (values : List Value)
    (hv : ∀ v ∈ values, ∀ c ∈ v.closures, given c) : Keeps (Calm given) (putAll channel values) := by
  induction values with
  | nil => exact .pure _
  | cons v rest ih =>
    unfold putAll
    refine .bind .checkInterrupt fun _ ↦ .bind (calm_sendTo _ (hv v (by simp))) fun accepted ↦ ?_
    split
    · exact ih fun u hu ↦ hv u (by simp [hu])
    · exact .pure _

theorem calm_put (ctx : Context) (arguments : List Value)
    (hv : ∀ v ∈ arguments, ∀ c ∈ v.closures, given c) : Keeps (Calm given) (put ctx arguments) :=
  .bind (calm_outputChannel _ _) fun _ ↦ calm_putAll _ _ hv

/-! ## Bytes and directories -/

theorem calm_wordsOf (values : List Value) : Keeps (Calm given) (wordsOf values) := by
  induction values with
  | nil => exact .pure _
  | cons v rest ih => exact .bind (Act.calm_kindOf v) fun _ ↦ .bind ih fun _ ↦ .pure _

theorem calm_echo (ctx : Context) (arguments : List Value) :
    Keeps (Calm given) (echo ctx arguments) := by
  refine .bind .world fun w ↦ ?_
  split
  · exact .fail _
  · refine .bind (calm_wordsOf arguments) fun words ↦ Keeps.worldBind fun w ↦ ?_
    rename_i stream _
    rcases hwrite : w.write stream (Bytes.join [Bytes.space] words ++ [Bytes.newline]) with _ | w'
    · exact .refl w
    · exact .write hwrite

theorem calm_fail (arguments : List Value) : Keeps (Calm given) (fail arguments) :=
  .bind (.ofExcept _) fun _ ↦ .fail _

theorem calm_cdTarget (arguments : List Value) : Keeps (Calm given) (cdTarget arguments) := by
  cases arguments with
  | nil => exact .bind .world fun _ ↦ .pure _
  | cons v rest => exact .ofExcept _

theorem calm_cd (arguments : List Value) : Keeps (Calm given) (cd arguments) := by
  unfold cd
  split
  · exact .raise _
  · refine .bind (calm_cdTarget arguments) fun target ↦ .bind .world fun w ↦ ?_
    split
    · exact .fail _
    · exact .bind (.modify fun w ↦ .other w _ _ _ _ _ _ _) fun _ ↦
        .bind (Act.calm_setEnv _ _) fun _ ↦ Act.calm_setEnv _ _

/-! ## Input -/

theorem calm_slurp (ctx : Context) : Keeps (Calm given) (slurp ctx) := by
  refine .bind .world fun w ↦ ?_
  split
  · exact .fail _
  · exact .bind (.change fun w ↦ .readAll w _) fun _ ↦ calm_putValue ctx (by simp)

/-! ## Reflection and interruption -/

@[simp] theorem closures_outcomeValue (e : Option Error) : (outcomeValue e).closures = [] := by
  cases e <;> simp [outcomeValue, Value.closuresOf]

@[simp] theorem closures_describe (ctx : Context) (w : World) : (describe ctx w).closures = [] := by
  rw [List.eq_nil_iff_forall_not_mem]
  intro c hc
  simp only [describe, Value.closures_list, Value.mem_closuresOf] at hc
  obtain ⟨v, hv, hc⟩ := hc
  simp only [List.mem_append, List.mem_cons, List.mem_map, List.not_mem_nil, or_false] at hv
  rcases hv with ((rfl | rfl | rfl | rfl) | ⟨e, -, rfl⟩) | rfl | rfl <;> simp at hc

theorem calm_showContext (ctx : Context) : Keeps (Calm given) (showContext ctx) :=
  .bind .world fun _ ↦ calm_putValue ctx (by simp)

theorem calm_interrupt (w : World) : Calm given w { w with interrupted := true } :=
  ⟨rfl, rfl, rfl, rfl, fun _ ↦ rfl, rfl, rfl, .refl _, .refl .refl _, .refl _, fun h ↦ h,
    fun _ ↦ .inl⟩

theorem calm_setInterrupt : Keeps (Calm given) setInterrupt := .modify calm_interrupt

theorem calm_setStub (w : World) (stub : Option Stub) : Calm given w { w with stub } :=
  .other w _ _ _ _ _ _ _

theorem calm_forwardSignals (w : World) : Calm given w (forwardSignals w) := by
  unfold forwardSignals
  split
  · exact .refl w
  · split
    · exact .refl w
    · dsimp only
      split
      · exact calm_setStub w _
      · exact (calm_interrupt w).trans (calm_setStub _ _)

theorem calm_signalStub : Keeps (Calm given) signalStub := by
  intro w
  have hforward : ∀ sent, Calm given w sent → Calm given w (forwardSignals sent) :=
    fun sent hsent ↦ hsent.trans (calm_forwardSignals sent)
  unfold signalStub
  rcases hstub : w.stub with _ | stub
  · have hcalm := hforward w (.refl w)
    simp only [Option.map_some]
    split <;> exact hcalm
  · rcases hsend : stub.signals.send? interruptSignal with _ | ⟨signals, accepted⟩
    · simp only [hsend, Option.map_none]
      exact .refl w
    · have hcalm := hforward _ (calm_setStub w (some { stub with signals }))
      simp only [hsend, Option.map_some]
      split <;> exact hcalm

end Eval

end Conduit
