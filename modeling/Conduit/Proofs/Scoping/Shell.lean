import Conduit.Proofs.Scoping.Requests
import Conduit.Proofs.Start

/-!
# Sound Shells

In whatever order a shell evaluates chunks, runs lines, calls functions and loads modules, and
whatever its host does with the values that it gets hold of, an unqualified reference leads somewhere
if every assignment of its chunk stands alone in its pipeline.  The host may add names and may store
closures that it has come across, but it neither takes names away nor makes closures of its own.
-/

namespace Conduit.Shell

open Act (Secure Safe)
open Eval (run)
open Value (AllSound)
open World (Calm Grows Handles)

/-! ## Evaluations -/

/-- The code of a chunk is scoped by the names of the globals and builtins, which it can see. -/
theorem secure_topContext {w : World} (hw : w.Sound) (name text : Bytes) {chunk : Script.Chunk}
    {code : Code.Block} (hcode : compile w chunk = .ok code)
    (endpoints : List (Option EndpointId)) :
    (topContext name text chunk endpoints).Secure w fun ctx w' ↦
      ctx.scope < w'.scopes.size ∧ (ctx.chunk.Solo → code.Scoped (ctx.Sees w')) := by
  have hgrows : Grows w (w.newScope {}).2 := .newScope {} w
  refine ⟨hw.scopes hgrows rfl rfl rfl, hgrows, ?_, fun hsolo ↦ ?_⟩
  · simp [World.globals]
  · refine (Code.compileChunk_scoped hsolo hcode).mono fun other hother ↦ ?_
    rw [Context.sees_iff]
    rcases hother with hother | hother
    · exact .inr (.inr (hgrows.has _ _ ((Scope.mem_names_iff _ other).mp hother)))
    · exact .inl (hgrows.has _ _ ((Scope.mem_names_iff _ other).mp hother))

theorem secure_eval {w : World} (hw : w.Sound) (setup : Setup) (fuel : Nat) (name text : Bytes)
    (chunk : Script.Chunk) (endpoints : List (Option EndpointId)) :
    (eval setup fuel name text chunk endpoints).Safe w := by
  unfold eval
  refine .worldBind ?_
  rcases hcode : compile w chunk with e | code
  · exact .pure hw trivial
  · refine (secure_topContext hw name text hcode endpoints).bind fun ctx w₁ hw₁ _ ⟨hs, hctx⟩ ↦ ?_
    have hmoved : { w₁ with here := wholeSpan text }.Sound := Secure.moved hw₁ _
    have hblock := Eval.secure_evalBlock (Eval.secure_run setup fuel) hmoved hs hctx
    exact Secure.within _ (.attempt hblock)

/-! ## Starting -/

theorem stores_bind {scope : ScopeId} {w : World} {entry : Bytes × Variable} {c : Closure}
    (h : (bind scope w entry).Stores c) : w.Stores c ∨ c ∈ entry.2.closures := by
  have hnew : Calm (· ∈ entry.2.closures) w (w.newVariable entry.2).2 :=
    .newVariable w fun _ hc ↦ hc
  exact hnew.closures c h

theorem foldl_bind_stores {scope : ScopeId} {entries : List (Bytes × Variable)} {w : World}
    {c : Closure} (hentries : ∀ entry ∈ entries, entry.2.closures = [])
    (h : (entries.foldl (bind scope) w).Stores c) : w.Stores c := by
  induction entries generalizing w with
  | nil => exact h
  | cons entry rest ih =>
    rw [List.foldl_cons] at h
    have hrest := ih (fun other hother ↦ hentries other (List.mem_cons_of_mem _ hother)) h
    refine (stores_bind hrest).resolve_right fun hc ↦ ?_
    rw [hentries entry List.mem_cons_self] at hc
    cases hc

/-- The builtin variables of a shell hold no closures. -/
theorem builtinVariables_closures (hasStub : Bool) :
    ∀ entry ∈ builtinVariables hasStub, entry.2.closures = [] := by
  intro entry hentry
  rcases List.mem_cons.mp hentry with rfl | hentry
  · rfl
  · obtain ⟨b, -, rfl⟩ := List.mem_map.mp hentry
    simp [builtinVariable, Variable.closures]

theorem standardStreams_stores {w : World} {c : Closure} (h : (standardStreams w).Stores c) :
    w.Stores c := h

/-- A shell starts with nothing stored but what was stored before. -/
theorem start_stores {w : World} {c : Closure} (h : (start w).Stores c) : w.Stores c := by
  let bare : World := { w with scopes := ⟨[{}, {}]⟩ }
  have hbare : bare.Stores c :=
    foldl_bind_stores (builtinVariables_closures _) (standardStreams_stores h)
  exact hbare

/-- A shell is sound when it starts with nothing stored and nothing noted. -/
theorem sound_start {w : World} (hstores : ∀ c, ¬w.Stores c) (hjournal : w.journal = []) :
    (start w).Sound where
  closures c hc := absurd (start_stores hc) (hstores c)
  resolved chunk r hmem := by
    rw [start_journal, hjournal] at hmem
    cases hmem

/-! ## Lines -/

theorem handles_lineEndpoints (channel : ChannelId) (w : World) :
    Handles w (lineEndpoints channel w).2 := by
  have hchannel : Handles w (w.newChannel { channel := (Channel.ofCapacity 0).close }).2 :=
    .newChannel w rfl
  have hendpoint : ∀ w e, Handles w (w.newEndpoint e).2 := Handles.newEndpoint
  exact ((hchannel.trans (hendpoint _ _)).trans (hendpoint _ _)).trans (hendpoint _ _)

theorem handles_other (w : World) (stub : Option Stub) (interrupted : Bool) (printed : Bytes) :
    Handles w { w with stub, interrupted, printed } :=
  .other w _ _ _ _ _ _ _ _ _ _ _

theorem handles_engageStub (text : Bytes) (w : World) :
    Handles w (engageStub text { w with interrupted := false }) := by
  unfold engageStub
  split
  · exact handles_other w _ _ _
  · split
    · exact handles_other w _ _ _
    · exact handles_other w _ _ _

theorem handles_endLine (leader : Bytes) (channel : ChannelId) (w : World) :
    Handles w (endLine leader channel w) := by
  have hrelease : Handles w (releaseStub w) := handles_other w _ _ _
  have hclose : Handles w ((releaseStub w).closeChannel channel) :=
    hrelease.trans (.closeChannel _ channel)
  have hprint : Handles w (printValues leader channel ((releaseStub w).closeChannel channel)) :=
    (hclose.trans (handles_other _ _ _ _)).trans (.drainChannel _ channel)
  unfold endLine
  dsimp only
  split
  · exact hprint.trans (handles_other _ _ _ _)
  · exact hprint.trans (handles_other _ _ _ _)

/-- A line is an evaluation that the host has made ready and that it cleans up after. -/
theorem handles_evalInteractive (setup : Setup) (fuel : Nat) (text : Bytes) (chunk : Script.Chunk)
    (w : World) :
    ∃ ready endpoints, Handles w ready ∧
      Handles (eval setup fuel interactiveName text chunk endpoints ready).2
        (evalInteractive setup fuel text chunk w).2 := by
  let line : Line := { channel := .ofCapacity setup.settings.channelSize, attended := true }
  let channel := w.channels.size
  have hchannel : Handles w (w.newChannel line).2 := .newChannel w rfl
  let made := lineEndpoints channel (w.newChannel line).2
  have hendpoints : Handles (w.newChannel line).2 made.2 := handles_lineEndpoints channel _
  have hengage : Handles made.2 (engageStub text { made.2 with interrupted := false }) :=
    handles_engageStub text made.2
  refine ⟨_, made.1, (hchannel.trans hendpoints).trans hengage, ?_⟩
  rw [evalInteractive, Act.change_bind, Act.change_bind, Act.modify_bind, Act.ensuring_state]
  exact (handles_endLine setup.settings.leader channel _).trans (.dropEndpoints _ _)

/-! ## Reachable states -/

/-- The states that a shell can get into, each with the closures that its host may hold. -/
inductive Reached : World → (Closure → Prop) → Prop
  | start {w : World} : (∀ c, ¬w.Stores c) → w.journal = [] → Reached (start w) fun _ ↦ False
  | eval {w : World} {held : Closure → Prop} (setup : Setup) (fuel : Nat) (name text : Bytes)
      (chunk : Script.Chunk) (endpoints : List (Option EndpointId)) :
      Reached w held → Reached (eval setup fuel name text chunk endpoints w).2 held
  /-- The host calls a function that it holds, with values that it holds. -/
  | call {w : World} {held : Closure → Prop} (setup : Setup) (fuel : Nat) (ctx : Context) {f : Fn}
      {arguments : List Value} :
      Reached w held → (∀ c ∈ (Value.fn f).closures, held c) →
        (∀ v ∈ arguments, ∀ c ∈ v.closures, held c) →
          Reached (run setup fuel (.call ctx f arguments) w).2 held
  | load {w : World} {held : Closure → Prop} (setup : Setup) (fuel : Nat) (ctx : Context)
      (name : Bytes) : Reached w held → Reached (run setup fuel (.load ctx name) w).2 held
  /-- The host takes hold of whatever is stored. -/
  | take {w : World} {held : Closure → Prop} :
      Reached w held → Reached w fun c ↦ held c ∨ w.Stores c
  /-- The host changes the shell from outside. -/
  | host {w w' : World} {held : Closure → Prop} :
      Reached w held → Grows w w' → w'.journal = w.journal →
        (∀ c, w'.Stores c → w.Stores c ∨ held c) → Reached w' held

namespace Reached

variable {w w' : World} {held : Closure → Prop}

theorem handle (h : Reached w held) (hw : Handles w w') : Reached w' held :=
  h.host (.of_scopes hw.scopes) hw.journal fun c hc ↦ .inl (hw.closures c hc)

/-- Soundness carries over to whatever state a secure action ends in. -/
theorem sound_after {α : Type} {act : Act α} (hheld : ∀ c, held c → c.Sound w)
    (h : act.Safe w) : (act w).2.Sound ∧ ∀ c, held c → c.Sound (act w).2 := by
  have hstate : (act w).2.Sound ∧ Grows w (act w).2 :=
    (Act.Leads.mono h (fun _ _ ⟨hs, hg, _⟩ ↦ ⟨hs, hg⟩) fun _ hb ↦ hb).state
  exact ⟨hstate.1, fun c hc ↦ (hheld c hc).grows hstate.2⟩

/-- Every reachable state is sound, and so is every closure that the host holds. -/
theorem sound (h : Reached w held) : w.Sound ∧ ∀ c, held c → c.Sound w := by
  induction h with
  | start hstores hjournal => exact ⟨sound_start hstores hjournal, fun _ ↦ False.elim⟩
  | eval setup fuel name text chunk endpoints _ ih =>
    exact sound_after ih.2 (secure_eval ih.1 setup fuel name text chunk endpoints)
  | call setup fuel ctx _ hf harguments ih =>
    refine sound_after ih.2 ((Eval.secure_run setup fuel).call _ ctx _ _ ih.1 (fun c hc ↦ ?_)
      fun v hv c hc ↦ ?_)
    · exact ih.2 c (hf c hc)
    · exact ih.2 c (harguments v hv c hc)
  | load setup fuel ctx name _ ih =>
    exact sound_after ih.2 ((Eval.secure_run setup fuel).load _ ctx name ih.1)
  | take _ ih =>
    refine ⟨ih.1, fun c hc ↦ ?_⟩
    rcases hc with hc | hc
    · exact ih.2 c hc
    · exact ih.1.closures c hc
  | host _ hgrows hjournal hstores ih =>
    refine ⟨⟨fun c hc ↦ ?_, ?_⟩, fun c hc ↦ (ih.2 c hc).grows hgrows⟩
    · rcases hstores c hc with hc | hc
      · exact (ih.1.closures c hc).grows hgrows
      · exact (ih.2 c hc).grows hgrows
    · unfold World.Resolved
      rw [hjournal]
      exact ih.1.resolved

theorem evalInteractive (h : Reached w held) (setup : Setup) (fuel : Nat) (text : Bytes)
    (chunk : Script.Chunk) : Reached (evalInteractive setup fuel text chunk w).2 held := by
  obtain ⟨ready, endpoints, hready, hend⟩ := handles_evalInteractive setup fuel text chunk w
  exact ((h.handle hready).eval setup fuel interactiveName text chunk endpoints).handle hend

end Reached

/-- In no reachable state has an unqualified reference of a chunk led nowhere if every assignment of
the chunk stands alone in its pipeline.  A reference that leads nowhere, in whatever context, is one
that raises the error that it is not found, and leaves a note of it. -/
theorem reached_resolves {w : World} {held : Closure → Prop} (h : Reached w held)
    {chunk : Script.Chunk} (hchunk : chunk.Solo) {r : Reference} (hr : r.isPlain = true) :
    .unresolved chunk r ∉ w.journal ∧
      ∀ go ctx span splice v, ctx.chunk = chunk → Eval.findPlain ctx r.name v = none →
        Eval.evalVariable go ctx span splice r v =
          (.raised (.blaming span (utf8 "variable $" ++ r.full ++ utf8 " not found")),
            v.note (.unresolved chunk r)) := by
  constructor
  · intro hmem
    exact h.sound.1.resolved chunk r hmem hr hchunk
  · intro go ctx span splice v hctx hnone
    rw [← hctx]
    exact Eval.evalVariable_unresolved go ctx span splice hr hnone

/-- A chunk that binds a name and passes its value on from a lambda. -/
def bindThenCall : Script.Chunk :=
  .mk ⟨0, 9⟩ [
    .mk ⟨0, 3⟩ [.mk ⟨0, 3⟩ [.variable ⟨0, 1⟩ [0x78]] (.bareword ⟨2, 2⟩ []) [.bareword ⟨2, 3⟩ [0x31]]
      []],
    .mk ⟨4, 9⟩ [.mk ⟨4, 9⟩ []
      (.lambda ⟨4, 9⟩ [] (some (.mk ⟨5, 8⟩ [.mk ⟨5, 8⟩ [.mk ⟨5, 8⟩ []
        (.bareword ⟨5, 6⟩ (utf8 "put")) [.variable ⟨7, 8⟩ [0x78]] []]]))) [] []]]

/-- Such a chunk is accepted by a new shell, and the reference in its lambda is found. -/
theorem reached_resolves_bindThenCall :
    (compile (start {}) bindThenCall).isOk = true ∧ bindThenCall.Solo ∧
      .unresolved bindThenCall (.ofText [0x78]) ∉
        (eval {} 3 [] [] bindThenCall [] (start {})).2.journal := by
  have hstores : ∀ c, ¬({} : World).Stores c := by
    rintro c (⟨id, x, hx, -⟩ | ⟨id, line, hline, -⟩)
    · cases hx
    · cases hline
  have hsolo : bindThenCall.Solo := by
    simp [bindThenCall, Script.Chunk.Solo, Script.pipelinesSolo, Script.Pipeline.Solo,
      Script.formsSolo, Script.Form.Solo, Script.primariesSolo, Script.Primary.Solo,
      Script.redirectionsSolo, Script.bodySolo]
  have hreached := (Reached.start hstores rfl).eval {} 3 [] [] bindThenCall []
  exact ⟨by decide +kernel, hsolo, (reached_resolves hreached hsolo rfl).1⟩

end Conduit.Shell
