import Conduit.Proofs.Persistent
import Conduit.Proofs.Reserve

/-!
# Builtins and External Commands that Respect a Reserve

Whatever is sent, received, written and read in a context goes through its endpoints.  Where these
are clear of a reserve, builtins and external commands respect it.
-/

namespace Conduit.Eval

open World (Clear Harmless Outside Respects RespectsFrom RespectsStream)
open Act (Keeps)
open Host.Program (Process Command)

variable {r : Reserve} {ctx : Context} {w : World} {n : Nat} {c : ChannelId} {sid : StreamId}

/-! ## What a clear context gives access to -/

theorem harmless_of_endpoint? {e : Endpoint} (h : Clear r ctx.endpoints w)
    (he : ctx.endpoint? w n = some e) : Harmless r n e w := by
  obtain ⟨id, hid, rfl⟩ := Option.map_eq_some_iff.mp he
  exact (h.outside n id hid).harmless

theorem not_receiving_of_clear (h : Clear r ctx.endpoints w) (hc : ctx.channel? w 0 = some c) :
    ¬ r.receiving c := by
  obtain ⟨e, he, hchannel⟩ := Option.bind_eq_some_iff.mp hc
  exact (harmless_of_endpoint? h he).receiving rfl c hchannel

theorem not_sending_of_clear (h : Clear r ctx.endpoints w) (hc : ctx.channel? w 1 = some c) :
    ¬ r.sending c := by
  obtain ⟨e, he, hchannel⟩ := Option.bind_eq_some_iff.mp hc
  exact (harmless_of_endpoint? h he).sending (.inl rfl) c hchannel

theorem respectsStream_of_clear (h : Clear r ctx.endpoints w) (hsid : ctx.stream? w n = some sid) :
    RespectsStream r sid w := by
  obtain ⟨e, he, hstream⟩ := Option.bind_eq_some_iff.mp hsid
  exact (harmless_of_endpoint? h he).stream sid hstream

/-! ## Builtins -/

theorem respects_sendTo (hc : ¬ r.sending c) (v : Value) : (sendTo c v).Keeps (Respects r) := by
  intro w
  unfold sendTo
  split
  · exact .refl w
  · split
    · exact .refl w
    · split
      · exact .enqueue w hc v
      · exact .refl w

theorem respects_putAll (hc : ¬ r.sending c) (values : List Value) :
    (putAll c values).Keeps (Respects r) := by
  induction values with
  | nil => exact .pure _
  | cons v rest ih =>
    refine .bind .checkInterrupt fun _ ↦ .bind (respects_sendTo hc v) fun accepted ↦ ?_
    split
    · exact ih
    · exact .pure _

/-- What is done with the output channel of a clear context respects the reserve if sending on a
channel that is not reserved is all that it takes. -/
theorem respects_output {next : ChannelId → Act Unit} (message : Bytes)
    (hnext : ∀ c, ¬ r.sending c → (next c).Keeps (Respects r)) :
    (outputChannel ctx message >>= next).Keeps (RespectsFrom r ctx.endpoints) := by
  intro w hclear
  unfold outputChannel
  rw [Act.bind_apply, Act.world_bind]
  rcases hchannel : ctx.channel? w 1 with _ | c
  · exact .refl w
  · exact hnext c (not_sending_of_clear hclear hchannel) w

theorem respects_putValue (ctx : Context) (v : Value) :
    (putValue ctx v).Keeps (RespectsFrom r ctx.endpoints) :=
  respects_output _ fun _ hc ↦ .bind (respects_sendTo hc v) fun _ ↦ .pure _

theorem respects_takesInput (ctx : Context) : TakesInput (RespectsFrom r ctx.endpoints) ctx := by
  intro next hnext w hclear
  unfold inputChannel
  rw [Act.bind_apply, Act.world_bind]
  rcases hchannel : ctx.channel? w 0 with _ | c
  · exact .refl w
  · have hc : ¬ r.receiving c := not_receiving_of_clear hclear hchannel
    exact hnext c (keeps_receiveFrom fun _ _ htakes _ ↦ .of_takes hc htakes) w hclear

theorem respects_echo (ctx : Context) (arguments : List Value) :
    (echo ctx arguments).Keeps (RespectsFrom r ctx.endpoints) := by
  intro w hclear
  unfold echo
  rw [Act.world_bind]
  rcases hstream : ctx.stream? w 1 with _ | sid
  · exact .refl w
  · have hrespects := respectsStream_of_clear hclear hstream
    have hwords : (wordsOf arguments).Leads w (fun _ ↦ Respects r w) (Respects r w) :=
      (Act.Leads.ofKeeps (dry_wordsOf arguments)).mono (fun _ _ h ↦ .of_dry h) fun _ h ↦ .of_dry h
    refine (hwords.bind fun words w₁ h₁ ↦ ?_).state
    unfold Act.Leads
    rw [Act.world_bind]
    rcases hwrite : w₁.write sid (Bytes.join [Bytes.space] words ++ [Bytes.newline]) with _ | w₂
    · exact h₁
    · exact h₁.trans (.write (hrespects.after h₁) hwrite)

theorem respects_slurp (ctx : Context) : (slurp ctx).Keeps (RespectsFrom r ctx.endpoints) := by
  intro w hclear
  unfold slurp
  rw [Act.world_bind]
  rcases hstream : ctx.stream? w 0 with _ | sid
  · exact .refl w
  · have hread : Respects r w (w.readAll sid).2 := .skip (respectsStream_of_clear hclear hstream) _
    have hput := respects_putValue (r := r) ctx (.text (w.readAll sid).1) (w.readAll sid).2
    exact hread.trans (hput (hclear.after hread))

/-! ## External commands -/

/-- None of the streams gives access to what is reserved. -/
structure StandardStreams.Respect (r : Reserve) (streams : StandardStreams) (w : World) : Prop where
  input : ∀ sid, streams.input = some sid → RespectsStream r sid w
  output : ∀ sid, streams.output = some sid → RespectsStream r sid w
  errors : ∀ sid, streams.errors = some sid → RespectsStream r sid w

theorem StandardStreams.Respect.after {streams : StandardStreams} {w' : World}
    (h : streams.Respect r w) (hrespects : Respects r w w') : streams.Respect r w' where
  input sid hsid := (h.input sid hsid).after hrespects
  output sid hsid := (h.output sid hsid).after hrespects
  errors sid hsid := (h.errors sid hsid).after hrespects

theorem respects_writeLost {stream : Option StreamId}
    (h : ∀ sid, stream = some sid → RespectsStream r sid w) (bytes : Bytes) :
    Respects r w (writeLost stream bytes w) := by
  unfold writeLost
  split
  case h_1 sid =>
    rcases hwrite : w.write sid bytes with _ | w'
    · exact .refl w
    · exact .write (h sid rfl) hwrite
  case h_2 => exact .refl w

section Commands

variable {streams : StandardStreams}

theorem respects_signalSelf (h : streams.Respect r w) (p : Process) (c : Command) (option : Bytes) :
    Respects r w (signalSelf streams p c option w).2 := by
  unfold signalSelf
  split
  · exact respects_writeLost h.errors _
  · split
    · split <;> exact .refl w
    · exact respects_writeLost h.errors _

theorem respects_readVariable (h : streams.Respect r w) (p : Process) (name : Bytes) :
    Respects r w (readVariable streams p name w).2 := by
  unfold readVariable
  rcases hinput : streams.input with _ | sid
  · exact .refl w
  · exact .skip (h.input sid hinput) _

theorem respects_shiftArguments (h : streams.Respect r w) (p : Process) (c : Command)
    (arguments : List Bytes) : Respects r w (shiftArguments streams p c arguments w).2 := by
  unfold shiftArguments
  dsimp only
  split
  · exact respects_writeLost h.errors _
  · split
    · exact respects_writeLost h.errors _
    · exact .refl w

theorem respects_runCommand (h : streams.Respect r w) (p : Process) (c : Command) :
    Respects r w (runCommand streams p c w).2 := by
  have houtput : ∀ sid, (if c.toError then streams.errors else streams.output) = some sid →
      RespectsStream r sid w := by
    intro sid hsid
    split at hsid
    · exact h.errors sid hsid
    · exact h.output sid hsid
  unfold runCommand
  dsimp only
  split
  · exact .refl w
  · split
    · exact respects_writeLost houtput _
    · split
      · exact respects_writeLost houtput _
      · split
        · split
          · exact .refl w
          · split
            · exact .refl w
            · exact respects_writeLost h.errors _
        · split
          · exact respects_signalSelf h _ _ _
          · split
            · exact respects_readVariable h _ _
            · split
              · exact .refl w
              · split
                · exact respects_shiftArguments h _ _ _
                · exact respects_writeLost h.errors _

theorem respects_runCommands (h : streams.Respect r w) (progress : Progress)
    (commands : List Command) : Respects r w (runCommands streams progress commands w).2 := by
  induction commands generalizing progress w with
  | nil => exact .refl w
  | cons c rest ih =>
    unfold runCommands
    split
    · exact .refl w
    · have hcommand := respects_runCommand h progress.process c
      exact hcommand.trans (ih (h.after hcommand) _)

theorem respects_runProgram (h : streams.Respect r w) (path : Bytes) (arguments : List Bytes) :
    Respects r w (runProgram streams path arguments w).2 := by
  unfold runProgram
  dsimp only
  split
  · exact respects_writeLost h.errors _
  · exact respects_runCommands h _ _

end Commands

theorem respects_callExternal (ctx : Context) (name : Bytes) (arguments : List Value) :
    (callExternal ctx name arguments).Keeps (RespectsFrom r ctx.endpoints) := by
  intro w hclear
  have hstreams : StandardStreams.Respect r ⟨ctx.stream? w 0, ctx.stream? w 1, ctx.stream? w 2⟩ w :=
    ⟨fun _ ↦ respectsStream_of_clear hclear, fun _ ↦ respectsStream_of_clear hclear,
      fun _ ↦ respectsStream_of_clear hclear⟩
  unfold callExternal
  rw [Act.world_bind]
  rcases w.files.findExecutable w.directory name w.searchPath with _ | path
  · exact .refl w
  · dsimp only
    rcases externalArguments arguments with e | texts
    · exact .refl w
    · have hrun := respects_runProgram hstreams path texts
      rw [Act.ofExcept, pure_bind, Act.change_bind]
      generalize runProgram _ path texts w = ran at hrun ⊢
      rcases statusError? name ran.1 with _ | e <;> exact hrun

/-- The endpoints of a clear context may be used. -/
theorem respects_usesEndpoints (ctx : Context) :
    UsesEndpoints (RespectsFrom r ctx.endpoints) ctx where
  input := respects_takesInput ctx
  putValue := respects_putValue ctx
  put arguments := respects_output _ fun _ hc ↦ respects_putAll hc arguments
  echo := respects_echo ctx
  slurp := respects_slurp ctx
  external := respects_callExternal ctx

end Conduit.Eval
