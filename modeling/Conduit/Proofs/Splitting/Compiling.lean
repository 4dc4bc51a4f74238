import Conduit.Proofs.Scoping

/-!
# Compiling in Pieces

Compiling looks at the names in scope only to see whether a name is there, so names that amount to
the same beside the builtins give the same code or the same error.  Two chunks of single forms, one
after the other, compile to the code of the first one followed by that of the second one, which is
compiled with the names in scope that the first one brings.
-/

namespace Conduit

namespace Script

/-- The pipeline has one form. -/
def Pipeline.Single : Pipeline → Prop
  | .mk _ forms => forms.length = 1

/-- Every pipeline of the chunk outside the bodies of lambdas has one form. -/
def Chunk.Single : Chunk → Prop
  | .mk _ pipelines => ∀ pipeline ∈ pipelines, pipeline.Single

/-- The pipelines of two chunks, one after the other. -/
def Chunk.append : Chunk → Chunk → Chunk
  | .mk span first, .mk span' second => .mk ⟨span.start, span'.stop⟩ (first ++ second)

end Script

namespace Code

variable {builtins names names' : List Bytes}

/-! ## Names that amount to the same -/

/-- Beside the builtin names, the same names are given. -/
def SameGiven (builtins names names' : List Bytes) : Prop :=
  ∀ name, Given builtins names' name ↔ Given builtins names name

theorem SameGiven.append (h : SameGiven builtins names names') (more : List Bytes) :
    SameGiven builtins (more ++ names) (more ++ names') := by
  intro name
  have hname := h name
  unfold Given at hname ⊢
  rw [List.mem_append, List.mem_append, or_left_comm, hname, or_left_comm]

theorem compileVariable_congr (h : SameGiven builtins names names') (span : Span) (text : Bytes) :
    compileVariable builtins names' span text = compileVariable builtins names span text := by
  have hcontains : ∀ name,
      (!builtins.contains name && !names'.contains name) =
        (!builtins.contains name && !names.contains name) := by
    intro name
    have hname := h name
    unfold Given at hname
    rw [Bool.eq_iff_iff]
    simp only [Bool.and_eq_true, Bool.not_eq_true', ← Bool.not_eq_true, List.contains_iff_mem]
    rw [← not_or, ← not_or, hname]
  unfold compileVariable
  dsimp only
  rw [Bool.and_assoc, hcontains, ← Bool.and_assoc]

/-- The same code with names in scope after it that amount to the same, or the same error. -/
inductive SameCode {α : Type} (builtins : List Bytes) :
    Except Error (α × List Bytes) → Except Error (α × List Bytes) → Prop where
  | ok {names names' : List Bytes} (a : α) (h : SameGiven builtins names names') :
      SameCode builtins (.ok (a, names)) (.ok (a, names'))
  | error (e : Error) : SameCode builtins (.error e) (.error e)

mutual

theorem compilePrimary_congr : ∀ {names names' : List Bytes}, SameGiven builtins names names' →
    ∀ p : Script.Primary, compilePrimary builtins names' p = compilePrimary builtins names p
  | _, _, _, .bareword _ _ => by rw [compilePrimary, compilePrimary]
  | _, _, _, .quoted _ _ => by rw [compilePrimary, compilePrimary]
  | _, _, h, .variable span text => by
    rw [compilePrimary, compilePrimary, compileVariable_congr h]
  | _, _, h, .list _ items => by
    rw [compilePrimary, compilePrimary, compilePrimaries_congr h items]
  | _, _, h, .lambda span parameters body => by
    rw [compilePrimary, compilePrimary, compileBody_congr (h.append parameters) span body]

theorem compilePrimaries_congr : ∀ {names names' : List Bytes}, SameGiven builtins names names' →
    ∀ ps : List Script.Primary,
      compilePrimaries builtins names' ps = compilePrimaries builtins names ps
  | _, _, _, [] => by rw [compilePrimaries, compilePrimaries]
  | _, _, h, p :: rest => by
    rw [compilePrimaries, compilePrimaries, compilePrimary_congr h p, compilePrimaries_congr h rest]

theorem compileBody_congr : ∀ {names names' : List Bytes}, SameGiven builtins names names' →
    ∀ (span : Span) (body : Option Script.Chunk),
      compileBody builtins names' span body = compileBody builtins names span body
  | _, _, _, span, none => by rw [compileBody, compileBody]
  | _, _, h, span, some (.mk chunkSpan pipelines) => by
    rw [compileBody, compileBody, compileChunk, compileChunk, compilePipelines_congr h pipelines]

theorem compileHead_congr : ∀ {names names' : List Bytes}, SameGiven builtins names names' →
    ∀ p : Script.Primary, compileHead builtins names' p = compileHead builtins names p
  | _, _, _, .bareword _ _ => by rw [compileHead, compileHead]
  | _, _, _, .quoted _ _ => by rw [compileHead, compileHead]
  | _, _, h, .variable span text => by rw [compileHead, compileHead, compileVariable_congr h]
  | _, _, h, .list _ items => by
    rw [compileHead, compileHead, compilePrimaries_congr h items]
  | _, _, h, .lambda span parameters body => by
    rw [compileHead, compileHead, compileBody_congr (h.append parameters) span body]

theorem compileRedirections_congr : ∀ {names names' : List Bytes},
    SameGiven builtins names names' → ∀ rs : List Script.Redirection,
      compileRedirections builtins names' rs = compileRedirections builtins names rs
  | _, _, _, [] => by rw [compileRedirections, compileRedirections]
  | _, _, h, .mk span (.ofNat destination) mode target :: rest => by
    rw [compileRedirections, compileRedirections, compileRedirection, compileRedirection,
      compilePrimary_congr h target, compileRedirections_congr h rest]
  | _, _, h, .mk span (.negSucc _) mode target :: rest => by
    rw [compileRedirections, compileRedirections, compileRedirection, compileRedirection,
      compileRedirections_congr h rest]

theorem compileForm_congr : ∀ {names names' : List Bytes}, SameGiven builtins names names' →
    ∀ form : Script.Form,
      SameCode builtins (compileForm builtins names form) (compileForm builtins names' form)
  | names, _, h, .mk span [] head arguments redirections => by
    rw [compileForm, compileForm, compileHead_congr h head, compilePrimaries_congr h arguments,
      compileRedirections_congr h redirections]
    rcases compileHead builtins names head with e | head
    · exact .error e
    rcases compilePrimaries builtins names arguments with e | arguments
    · exact .error e
    rcases compileRedirections builtins names redirections with e | redirections
    · exact .error e
    exact .ok _ h
  | names, _, h, .mk span (target :: targets) head arguments redirections => by
    rw [compileForm, compileForm, compilePrimaries_congr h arguments]
    rcases compilePrimaries builtins names arguments with e | values
    · exact .error e
    rcases (target :: targets).mapM compileTarget with e | targets
    · exact .error e
    exact .ok _ (h.append _)

theorem compileForms_congr : ∀ {names names' : List Bytes}, SameGiven builtins names names' →
    ∀ forms : List Script.Form,
      SameCode builtins (compileForms builtins names forms) (compileForms builtins names' forms)
  | _, _, h, [] => by
    rw [compileForms, compileForms]
    exact .ok _ h
  | names, names', h, form :: rest => by
    have hform := compileForm_congr h form
    rw [compileForms, compileForms]
    generalize compileForm builtins names form = result, compileForm builtins names' form = result'
      at hform
    cases hform with
    | error e => exact .error e
    | @ok after after' compiled hafter =>
      have hrest := compileForms_congr hafter rest
      change SameCode builtins
        (compileForms builtins after rest >>= fun others ↦ .ok (compiled :: others.1, others.2))
        (compileForms builtins after' rest >>= fun others ↦ .ok (compiled :: others.1, others.2))
      generalize compileForms builtins after rest = result,
        compileForms builtins after' rest = result' at hrest
      cases hrest with
      | error e => exact .error e
      | ok others hend => exact .ok _ hend

theorem compilePipelines_congr : ∀ {names names' : List Bytes}, SameGiven builtins names names' →
    ∀ pipelines : List Script.Pipeline,
      compilePipelines builtins names' pipelines = compilePipelines builtins names pipelines
  | _, _, _, [] => by rw [compilePipelines, compilePipelines]
  | names, names', h, .mk span forms :: rest => by
    have hforms := compileForms_congr h forms
    rw [compilePipelines, compilePipelines, compilePipeline, compilePipeline]
    generalize compileForms builtins names forms = result,
      compileForms builtins names' forms = result' at hforms
    cases hforms with
    | error e => rfl
    | @ok after after' compiled hafter =>
      change (compilePipelines builtins after' rest >>= fun others ↦ .ok (compiled :: others)) =
        (compilePipelines builtins after rest >>= fun others ↦ .ok (compiled :: others))
      rw [compilePipelines_congr hafter rest]

end

theorem compileChunk_congr (h : SameGiven builtins names names') (chunk : Script.Chunk) :
    compileChunk builtins names' chunk = compileChunk builtins names chunk := by
  obtain ⟨span, pipelines⟩ := chunk
  rw [compileChunk, compileChunk, compilePipelines_congr h]

/-! ## One after the other -/

theorem compileForm_brings {form : Script.Form} {compiled : Form}
    (h : compileForm builtins names form = .ok (compiled, names')) :
    names' = compiled.brings ++ names := by
  obtain ⟨span, targets, head, arguments, redirections⟩ := form
  cases targets with
  | nil =>
    obtain ⟨_, _, _, -, -, -, rfl, rfl⟩ := compileForm_command h
    rfl
  | cons target targets =>
    obtain ⟨_, _, -, -, rfl, rfl⟩ := compileForm_assignment h
    rfl

/-- A pipeline of one form compiles to one form, and what this one brings is in scope after it. -/
theorem compilePipeline_single {pipeline : Script.Pipeline} {forms : List Form}
    (hsingle : pipeline.Single)
    (h : compilePipeline builtins names pipeline = .ok (forms, names')) :
    (∃ form, forms = [form]) ∧ names' = broughtBy forms ++ names := by
  obtain ⟨span, scripts⟩ := pipeline
  obtain ⟨script, rfl⟩ := List.length_eq_one_iff.mp hsingle
  rw [compilePipeline] at h
  obtain ⟨form, between, others, hform, hothers, rfl⟩ := compileForms_cons h
  rw [compileForms] at hothers
  cases hothers
  exact ⟨⟨form, rfl⟩, compileForm_brings hform⟩

/-- The names in scope after pipelines of one form each. -/
def namesAfter (names : List Bytes) (pipelines : List (List Form)) : List Bytes :=
  pipelines.foldl (fun names forms ↦ broughtBy forms ++ names) names

theorem mem_namesAfter {name : Bytes} {pipelines : List (List Form)} :
    name ∈ namesAfter names pipelines ↔
      (∃ forms ∈ pipelines, name ∈ broughtBy forms) ∨ name ∈ names := by
  unfold namesAfter
  induction pipelines generalizing names with
  | nil => simp
  | cons forms rest ih =>
    rw [List.foldl_cons, ih, List.mem_append, ← or_assoc]
    simp only [List.mem_cons, exists_eq_or_imp]
    rw [or_comm (b := name ∈ broughtBy forms)]

theorem compilePipelines_append {first : List Script.Pipeline}
    (hsingle : ∀ pipeline ∈ first, pipeline.Single) (second : List Script.Pipeline) :
    compilePipelines builtins names (first ++ second) =
      compilePipelines builtins names first >>= fun code ↦
        compilePipelines builtins (namesAfter names code) second >>= fun rest ↦
          .ok (code ++ rest) := by
  induction first generalizing names with
  | nil =>
    rw [List.nil_append, compilePipelines]
    change _ = compilePipelines builtins names second >>= pure
    rw [bind_pure]
  | cons pipeline others ih =>
    rw [List.cons_append, compilePipelines, compilePipelines]
    rcases hfirst : compilePipeline builtins names pipeline with e | ⟨forms, between⟩
    · rfl
    · obtain ⟨-, rfl⟩ := compilePipeline_single (hsingle pipeline List.mem_cons_self) hfirst
      change (compilePipelines builtins (broughtBy forms ++ names) (others ++ second) >>= fun rest ↦
          .ok (forms :: rest)) = (compilePipelines builtins (broughtBy forms ++ names) others >>=
            fun rest ↦ .ok (forms :: rest)) >>= _
      rw [ih fun p hp ↦ hsingle p (List.mem_cons_of_mem _ hp), bind_assoc, bind_assoc]
      refine bind_congr fun code ↦ ?_
      rw [bind_assoc]
      rfl

/-- The second chunk is compiled with what the first one brings in scope. -/
theorem compileChunk_append {first : Script.Chunk} (hsingle : first.Single)
    (second : Script.Chunk) :
    compileChunk builtins names (first.append second) =
      compileChunk builtins names first >>= fun code ↦
        compileChunk builtins (namesAfter names code.pipelines) second >>= fun rest ↦
          .ok (.mk (first.append second).span (code.pipelines ++ rest.pipelines)) := by
  obtain ⟨span, pipelines⟩ := first
  obtain ⟨span', pipelines'⟩ := second
  simp only [Script.Chunk.append, compileChunk, compilePipelines_append hsingle, bind_assoc]
  rfl

/-- The code of a chunk of single forms has pipelines of one form. -/
theorem single_of_compileChunk {chunk : Script.Chunk} {code : Block} (hsingle : chunk.Single)
    (h : compileChunk builtins names chunk = .ok code) :
    ∀ forms ∈ code.pipelines, ∃ form, forms = [form] := by
  obtain ⟨span, pipelines⟩ := chunk
  obtain ⟨compiled, hcompiled, rfl⟩ := compileChunk_mk h
  clear h
  change ∀ forms ∈ compiled, ∃ form, forms = [form]
  induction pipelines generalizing names compiled with
  | nil =>
    rw [compilePipelines] at hcompiled
    cases hcompiled
    exact nofun
  | cons pipeline rest ih =>
    obtain ⟨first, between, others, hfirst, hothers, rfl⟩ := compilePipelines_cons hcompiled
    intro forms hforms
    rcases List.mem_cons.mp hforms with rfl | hforms
    · exact (compilePipeline_single (hsingle pipeline List.mem_cons_self) hfirst).1
    · exact ih (fun p hp ↦ hsingle p (List.mem_cons_of_mem _ hp)) others hothers forms hforms

end Code

end Conduit
