import Conduit.Proofs.Mirror.Whole
import Conduit.Proofs.Splitting.Names

/-!
# Evaluating in Pieces

A chunk of single forms that is cut in two evaluates in two pieces as it does in one.  The second
piece compiles against what the first one has bound, and those are the names that the whole chunk
has in scope at the cut, so it has the same code.  It runs over a new scope outside the globals, but
nothing is ever bound there; closures made on either side hold scopes of their own, which are paired
along the run.
-/

namespace Conduit

namespace Eval

open Act (Mirror Same Any)

variable {go : Runner} {ctx ctx' : Context} {w w' : World}

/-- A form does not ask for the span that was under evaluation before it. -/
theorem evalForm_moved (go : Runner) (ctx : Context) (form : Code.Form) (w : World) (span : Span) :
    evalForm go ctx form { w with here := span } = evalForm go ctx form w := by
  cases form <;> rfl

/-- Pipelines of which the first one is a single form do not ask for it either, unless they are
interrupted. -/
theorem evalPipelines_moved (go : Runner) (ctx : Context) (form : Code.Form)
    (rest : List (List Code.Form)) (hw : w.interrupted = false) (span : Span) :
    evalPipelines go ctx ([form] :: rest) { w with here := span } =
      evalPipelines go ctx ([form] :: rest) w := by
  have hmoved : { w with here := span }.interrupted = false := hw
  rw [evalPipelines, Act.bind_of_done (Act.checkInterrupt_clear hmoved),
    Act.bind_of_done (Act.checkInterrupt_clear hw)]
  change Act.bind _ _ _ = Act.bind _ _ _
  unfold Act.bind
  rw [evalPipeline, evalForm_moved]

end Eval

namespace Shell

open Act (Mirror Same Any)
open Eval (run)

/-! ## Ends -/

/-- The values queued on a channel, as they are printed, and whether it is closed. -/
def shownLine (line : Line) : List Bytes × Bool :=
  (line.channel.queue.map Value.repr, line.channel.closed)

/-- States that are the same but for the identity of scopes look the same: the host, the store, the
bytes and the values on the way are the same, the same modules are registered, global names are
bound to the same variables, and whatever is read is printed in the same way. -/
theorem seen_of_like {r : Pairing} {w w' : World} (h : w.Like r w') :
    (w'.environment = w.environment ∧ w'.files = w.files ∧ w'.directory = w.directory ∧
      w'.store = w.store ∧ w'.endpoints = w.endpoints ∧ w'.streams = w.streams ∧
      w'.pipes = w.pipes) ∧
    (∀ id, (w'.channels.get? id).map shownLine = (w.channels.get? id).map shownLine) ∧
    w'.modules.map (·.1) = w.modules.map (·.1) ∧
    w'.scope World.globals = w.scope World.globals ∧
    ∀ place, ((w'.variableAt place).read w').map Value.repr =
      ((w.variableAt place).read w).map Value.repr := by
  have hreprs : ∀ {vs vs' : List Value}, Value.AllLike r vs vs' →
      vs'.map Value.repr = vs.map Value.repr := by
    intro vs vs' hvs
    induction hvs with
    | nil => rfl
    | cons hv _ ih => rw [List.map_cons, List.map_cons, hv.repr_eq, ih]
  refine ⟨?_, fun id ↦ ?_, ?_, h.memory.scope h.memory.globals, fun place ↦ ?_⟩
  · exact ⟨h.congr World.environment fun _ ↦ rfl, h.congr World.files fun _ ↦ rfl,
      h.congr World.directory fun _ ↦ rfl, h.congr World.store fun _ ↦ rfl,
      h.congr World.endpoints fun _ ↦ rfl, h.congr World.streams fun _ ↦ rfl,
      h.congr World.pipes fun _ ↦ rfl⟩
  · have hline := h.line? id
    generalize w.channels.get? id = line, w'.channels.get? id = line' at hline
    cases hline with
    | none => rfl
    | some hline =>
      rw [Option.map_some, Option.map_some, shownLine, shownLine, hreprs hline.channel.queue,
        hline.channel.closed]
  · have hmodules := h.modules
    generalize w.modules = modules, w'.modules = modules' at hmodules
    induction hmodules with
    | nil => rfl
    | cons he _ ih => rw [List.map_cons, List.map_cons, he.1, ih]
  · have hread := h.read place
    generalize (w.variableAt place).read w = result,
      (w'.variableAt place).read w' = result' at hread
    cases hread with
    | ok hv => exact congrArg Except.ok hv.repr_eq
    | error e => rfl

/-- No error on either side, or errors of the same kind and with the same message. -/
def SameError : Option Error → Option Error → Prop :=
  Option.Rel fun e e' ↦ e'.kind = e.kind ∧ e'.message = e.message

/-- Two evaluations end in the same way, and in states that are the same but for the identity of
scopes. -/
inductive SameEnd : Outcome (Option Error) × World → Outcome (Option Error) × World → Prop where
  | done {r : Pairing} {e e' : Option Error} {w w' : World} (he : SameError e e')
      (hw : w.Like r w') : SameEnd (.done e, w) (.done e', w')
  | raised {r : Pairing} {w w' : World} (e : Error) (hw : w.Like r w') :
      SameEnd (.raised e, w) (.raised e, w')
  | foreign {r : Pairing} {w w' : World} (what : Bytes) (hw : w.Like r w') :
      SameEnd (.foreign what, w) (.foreign what, w')
  | halted {r : Pairing} {w w' : World} (reason : Halt) (hw : w.Like r w') :
      SameEnd (.halted reason, w) (.halted reason, w')

/-- An end with another span under evaluation. -/
def movedTo {α : Type} (span : Span) (ends : Outcome α × World) : Outcome α × World :=
  (ends.1, { ends.2 with here := span })

theorem sameEnd_of_matched {o o' : ScopeId} {r : Pairing}
    {ends ends' : Outcome (Option Error) × World} (h : Act.Matched o o' r Same ends ends')
    (span : Span) : SameEnd (movedTo span ends) (movedTo span ends') := by
  cases h with
  | @done s e e' w w' hrs hw he =>
    have hsame : SameError e e' := by
      rw [he]
      cases e with
      | none => exact .none
      | some e => exact .some ⟨rfl, rfl⟩
    exact .done hsame (Mirror.moved hw span).like
  | raised e hrs hw => exact .raised e (Mirror.moved hw span).like
  | foreign what hrs hw => exact .foreign what (Mirror.moved hw span).like
  | halted reason hrs hw => exact .halted reason (Mirror.moved hw span).like

/-- A run of single forms ends in the same way whatever the span under evaluation was. -/
theorem sameEnd_attempt {o o' : ScopeId} {r : Pairing} {go : Eval.Runner} {ctx ctx' : Context}
    (w w' : World) {span : Span} (hgo : Eval.Runner.Mirrored o o' go) (hctx : ctx.Like o o' r ctx')
    (hw : { w with here := span }.Mirrors o o' r { w' with here := span })
    {pipelines : List (List Code.Form)} (hsingle : ∀ forms ∈ pipelines, ∃ form, forms = [form])
    (back : Span) :
    SameEnd (movedTo back (Act.attempt (Eval.evalPipelines go ctx pipelines) w))
      (movedTo back (Act.attempt (Eval.evalPipelines go ctx' pipelines) w')) := by
  have hback : { w with here := back }.Like r { w' with here := back } :=
    (Mirror.moved hw back).like
  cases pipelines with
  | nil => exact .done .none hback
  | cons first rest =>
    obtain ⟨form, rfl⟩ := hsingle first List.mem_cons_self
    have hinterrupted : w'.interrupted = w.interrupted := hw.congr World.interrupted fun _ ↦ rfl
    cases hflag : w.interrupted with
    | true =>
      have hraise : ∀ ctx v, v.interrupted = true →
          Act.attempt (Eval.evalPipelines go ctx ([form] :: rest)) v =
            (.done (some (Error.interrupted.orSpan v.here)), v) := by
        intro ctx v hv
        rw [Act.attempt, Eval.evalPipelines_interrupted go ctx [form] rest hv]
      rw [hraise ctx w hflag, hraise ctx' w' (hinterrupted.trans hflag)]
      exact .done (.some ⟨rfl, rfl⟩) hback
    | false =>
      have hrun := (Eval.mirror_evalPipelines hgo hctx hw ([form] :: rest)).attempt
      have hmoved := Eval.evalPipelines_moved go ctx form rest hflag span
      have hmoved' := Eval.evalPipelines_moved go ctx' form rest (hinterrupted.trans hflag) span
      unfold Mirror Act.attempt at hrun
      rw [hmoved, hmoved'] at hrun
      exact sameEnd_of_matched hrun back

/-! ## Two chunks in turn -/

/-- Evaluates two chunks, the second one only if the first one has ended without an error. -/
def evalInTurn (setup : Setup) (fuel : Nat) (name text : Bytes) (first second : Script.Chunk)
    (endpoints : List (Option EndpointId)) : Act (Option Error) := do
  match ← eval setup fuel name text first endpoints with
  | some e => pure (some e)
  | none => eval setup fuel name text second endpoints

variable {setup : Setup} {fuel : Nat} {name text : Bytes} {first second : Script.Chunk}
  {endpoints : List (Option EndpointId)} {w w₁ : World}

/-- The state in which the code of a chunk starts to run. -/
def entered (text : Bytes) (w : World) : World := { (w.newScope {}).2 with here := wholeSpan text }

/-- The evaluation of a chunk that compiles is the run of its code, with the span that was under
evaluation put back. -/
theorem eval_eq_movedTo {chunk : Script.Chunk} {code : Code.Block}
    (h : compile w chunk = .ok code) :
    eval setup fuel name text chunk endpoints w =
      movedTo w.here (Act.attempt (Eval.evalPipelines (run setup fuel)
        (contextOver w.scopes.size name text chunk endpoints) code.pipelines) (entered text w)) :=
  eval_of_compile h setup fuel name text endpoints

/-- An evaluation without an error has compiled the chunk and run its code to the end. -/
theorem run_of_eval (h : eval setup fuel name text first endpoints w = (.done none, w₁)) :
    ∃ code v, compile w first = .ok code ∧
      Eval.evalPipelines (run setup fuel) (contextOver w.scopes.size name text first endpoints)
        code.pipelines (entered text w) = (.done (), v) ∧ w₁ = { v with here := w.here } := by
  rcases hcode : compile w first with e | code
  · rw [eval, Act.world_bind, hcode] at h
    cases h
  · rw [eval_eq_movedTo hcode] at h
    obtain ⟨houtcome, hworld⟩ := Prod.mk.inj h
    exact ⟨code, _, rfl, Act.done_of_attempt (Prod.ext houtcome rfl), hworld.symm⟩

/-- Once the first chunk has been evaluated, the names that it brings are in scope for the second.
-/
theorem compile_second (hsize : World.builtins < w.scopes.size) (hsingle : first.Single)
    (second : Script.Chunk)
    (h : eval setup fuel name text first endpoints w = (.done none, w₁)) :
    ∃ code, compile w first = .ok code ∧
      compile w₁ second = Code.compileChunk (w.scope World.builtins).names
        (Code.namesAfter (w.scope World.globals).names code.pipelines) second := by
  obtain ⟨code, v, hcode, hrun, rfl⟩ := run_of_eval h
  have hgo := Eval.binds_run setup fuel
  have hforms := Code.single_of_compileChunk hsingle hcode
  have hglobals : (entered text w).scope World.globals = w.scope World.globals :=
    World.scope_newScope_empty w World.globals
  have hbuiltins : (entered text w).scope World.builtins = w.scope World.builtins :=
    World.scope_newScope_empty w World.builtins
  have hentered : World.builtins < (entered text w).scopes.size :=
    Nat.lt_of_lt_of_le hsize (by simp [entered, World.newScope])
  have houter : (entered text w).scopes.get? w.scopes.size = some {} := Table.get?_push_size _ _
  have hapart : w.scopes.size ≠ World.globals :=
    Nat.ne_of_gt (Nat.lt_of_le_of_lt (Nat.zero_le _) hsize)
  obtain ⟨hkept, hgiven⟩ := Eval.sameGiven_of_done hgo hforms hrun rfl hentered houter hapart
  rw [hbuiltins] at hkept
  rw [hglobals, hbuiltins] at hgiven
  refine ⟨code, hcode, ?_⟩
  change Code.compileChunk (v.scope World.builtins).names (v.scope World.globals).names second = _
  rw [hkept, Code.compileChunk_congr hgiven]

/-- In one piece, the second chunk is compiled with the names that the first one brings in scope. -/
theorem compile_append (hsingle : first.Single) (second : Script.Chunk) (w : World) :
    compile w (first.append second) =
      compile w first >>= fun code ↦
        Code.compileChunk (w.scope World.builtins).names
          (Code.namesAfter (w.scope World.globals).names code.pipelines) second >>= fun rest ↦
            .ok (.mk (first.append second).span (code.pipelines ++ rest.pipelines)) :=
  Code.compileChunk_append hsingle second

/-- Code that goes on over the old scope outside the globals ends as an evaluation that starts
afresh over a new one. -/
theorem sameEnd_afresh {n : ScopeId} {r : Pairing} {v v' : World} {code : Code.Block}
    (hv : { v with here := v'.here }.Mirrors n n r v') (hcode : compile v' second = .ok code)
    (hsingle : ∀ forms ∈ code.pipelines, ∃ form, forms = [form]) (whole : Script.Chunk) :
    SameEnd
      (movedTo v'.here (Act.attempt (Eval.evalPipelines (run setup fuel)
        (contextOver n name text whole endpoints) code.pipelines) v))
      (eval setup fuel name text second endpoints v') := by
  let k := v'.scopes.size
  have hfresh : { v with here := wholeSpan text }.Mirrors n k r (entered text v') :=
    Mirror.moved hv.setApart (wholeSpan text)
  have hctx := contextOver_like n k hfresh.memory.globals name text whole second endpoints
  rw [eval_eq_movedTo hcode]
  exact sameEnd_attempt v (entered text v') (Eval.mirrored_run n k setup fuel) hctx hfresh hsingle
    v'.here

/-- A whole that is accepted has the code of its pieces, the second one compiled with the names that
the first one brings in scope. -/
theorem pieces_of_compile_append {joint : Code.Block} (hsingle : first.Single)
    (h : compile w (first.append second) = .ok joint) :
    ∃ code rest, compile w first = .ok code ∧
      Code.compileChunk (w.scope World.builtins).names
        (Code.namesAfter (w.scope World.globals).names code.pipelines) second = .ok rest ∧
      joint.pipelines = code.pipelines ++ rest.pipelines := by
  rw [compile_append hsingle] at h
  obtain ⟨code, hcode, h⟩ := Code.bind_ok h
  obtain ⟨rest, hrest, h⟩ := Code.bind_ok h
  cases h
  exact ⟨code, rest, hcode, hrest, rfl⟩

/-- A whole that is accepted ends as its two pieces in turn. -/
theorem sameEnd_append (hw : w.Whole) (hfirst : first.Single) (hsecond : second.Single)
    {joint : Code.Block} (hjoint : compile w (first.append second) = .ok joint) :
    SameEnd (eval setup fuel name text (first.append second) endpoints w)
      (evalInTurn setup fuel name text first second endpoints w) := by
  obtain ⟨code, rest, hcode, hrest, hpipelines⟩ := pieces_of_compile_append hfirst hjoint
  let n := w.scopes.size
  have hstart : (entered text w).Mirrors n n w.existing (entered text w) :=
    Mirror.moved hw.mirrors (wholeSpan text)
  have hctx := contextOver_like n n hstart.memory.globals name text (first.append second) first
    endpoints
  have hrun := Eval.mirror_evalPipelines (Eval.mirrored_run n n setup fuel) hctx hstart
    code.pipelines
  rw [eval_eq_movedTo hjoint, hpipelines, Eval.evalPipelines_append, evalInTurn, Act.bind_apply,
    eval_eq_movedTo hcode, Act.attempt, Act.attempt, Act.bind_apply]
  unfold Mirror at hrun
  generalize Eval.evalPipelines (run setup fuel)
    (contextOver n name text (first.append second) endpoints) code.pipelines
      (entered text w) = ends at hrun ⊢
  generalize hends' : Eval.evalPipelines (run setup fuel)
    (contextOver n name text first endpoints) code.pipelines (entered text w) = ends' at hrun ⊢
  cases hrun with
  | @done s _ _ v v' hrs hv _ =>
    -- The second piece is compiled anew, which gives the code that the whole goes on with.
    have hdone : eval setup fuel name text first endpoints w =
        (.done none, { v' with here := w.here }) := by
      rw [eval_eq_movedTo hcode, Act.attempt, hends']
      rfl
    obtain ⟨code', hcode', hcompile⟩ := compile_second hw.builtins hfirst second hdone
    rw [hcode] at hcode'
    cases hcode'
    rw [hrest] at hcompile
    have hforms := Code.single_of_compileChunk hsecond hrest
    exact sameEnd_afresh (Mirror.moved hv w.here) hcompile hforms (first.append second)
  | @raised s v v' e hrs hv =>
    have hhere : v'.here = v.here := hv.congr World.here fun _ ↦ rfl
    refine .done ?_ (Mirror.moved hv w.here).like
    rw [hhere]
    exact .some ⟨rfl, rfl⟩
  | foreign what hrs hv => exact .foreign what (Mirror.moved hv w.here).like
  | halted reason hrs hv => exact .halted reason (Mirror.moved hv w.here).like

/-- After the first piece the second one is accepted exactly if the whole would have been. -/
theorem isOk_compile_second (hsize : World.builtins < w.scopes.size) (hfirst : first.Single)
    (h : eval setup fuel name text first endpoints w = (.done none, w₁)) :
    (compile w₁ second).isOk = true ↔ (compile w (first.append second)).isOk = true := by
  obtain ⟨code, hcode, hcompile⟩ := compile_second hsize hfirst second h
  rw [compile_append hfirst, hcompile, hcode]
  change _ ↔ (Code.compileChunk _ _ second >>= fun rest ↦
    (.ok _ : Except Error Code.Block)).isOk = true
  rcases Code.compileChunk (w.scope World.builtins).names
    (Code.namesAfter (w.scope World.globals).names code.pipelines) second with e | rest
  · exact Iff.rfl
  · exact Iff.rfl

/-- Evaluating a chunk of single forms in one piece or in two is the same: the same error or none,
and states that are the same but for the identity of scopes.  Once the first piece has been
evaluated, the second one is accepted exactly if the whole would have been. -/
theorem eval_append (setup : Setup) (fuel : Nat) (name text : Bytes)
    (endpoints : List (Option EndpointId)) {w : World} (hw : w.Whole) {first second : Script.Chunk}
    (hfirst : first.Single) (hsecond : second.Single) :
    ((compile w (first.append second)).isOk = true →
      SameEnd (eval setup fuel name text (first.append second) endpoints w)
        (evalInTurn setup fuel name text first second endpoints w)) ∧
    ∀ w₁, eval setup fuel name text first endpoints w = (.done none, w₁) →
      ((compile w₁ second).isOk = true ↔ (compile w (first.append second)).isOk = true) := by
  constructor
  · intro haccepted
    rcases hjoint : compile w (first.append second) with e | joint
    · rw [hjoint] at haccepted
      cases haccepted
    · exact sameEnd_append hw hfirst hsecond hjoint
  · intro w₁ h
    exact isOk_compile_second hw.builtins hfirst h

/-- A chunk that binds x to a text. -/
def bindText : Script.Chunk :=
  .mk ⟨0, 3⟩ [.mk ⟨0, 3⟩ [.mk ⟨0, 3⟩ [.variable ⟨0, 1⟩ [0x78]] (.bareword ⟨2, 2⟩ [])
    [.bareword ⟨2, 3⟩ [0x31]] []]]

/-- A chunk that binds y to a lambda, which passes on the value of x. -/
def bindLambda : Script.Chunk :=
  .mk ⟨4, 12⟩ [.mk ⟨4, 12⟩ [.mk ⟨4, 12⟩ [.variable ⟨4, 5⟩ [0x79]] (.bareword ⟨6, 6⟩ [])
    [.lambda ⟨6, 12⟩ [] (some (.mk ⟨7, 11⟩ [.mk ⟨7, 11⟩ [.mk ⟨7, 11⟩ []
      (.bareword ⟨7, 9⟩ (utf8 "put")) [.variable ⟨9, 11⟩ [0x78]] []]]))] []]]

/-- An evaluation has come to its end without an error. -/
def isClean : Outcome (Option Error) → Bool
  | .done none => true
  | _ => false

/-- A new shell accepts the lambda behind the chunk that binds what it refers to, and so it does
after that chunk has been evaluated. -/
theorem eval_append_bindTextBindLambda :
    (compile (start {}) (bindText.append bindLambda)).isOk = true ∧
      SameEnd (eval {} 3 [] [] (bindText.append bindLambda) [] (start {}))
        (evalInTurn {} 3 [] [] bindText bindLambda [] (start {})) ∧
      ∃ w₁, eval {} 3 [] [] bindText [] (start {}) = (.done none, w₁) ∧
        (compile w₁ bindLambda).isOk = true := by
  have hstores : ∀ c, ¬({} : World).Stores c := by
    rintro c (⟨id, x, hx, -⟩ | ⟨id, line, hline, -⟩)
    · cases hx
    · cases hline
  have hwhole : (start {}).Whole := whole_start hstores rfl
  have hfirst : bindText.Single := by simp [bindText, Script.Chunk.Single, Script.Pipeline.Single]
  have hsecond : bindLambda.Single := by
    simp [bindLambda, Script.Chunk.Single, Script.Pipeline.Single]
  have haccepted : (compile (start {}) (bindText.append bindLambda)).isOk = true := by
    decide +kernel
  have hclean : isClean (eval {} 3 [] [] bindText [] (start {})).1 = true := by
    decide +kernel
  have hresults := eval_append {} 3 [] [] [] hwhole hfirst hsecond
  rcases hrun : eval {} 3 [] [] bindText [] (start {}) with ⟨_ | _ | _ | _, w₁⟩ <;>
    rw [hrun] at hclean
  case done e =>
    cases e with
    | none => exact ⟨haccepted, hresults.1 haccepted, w₁, rfl, (hresults.2 w₁ hrun).mpr haccepted⟩
    | some e => cases hclean
  all_goals cases hclean

end Shell

end Conduit
