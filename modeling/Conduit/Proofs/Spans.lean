import Conduit.Code.OfScript

/-!
# Spans of Code

Every span that compiled code carries is one that a node of the script carries, and so is the span of
a compile error.  A lambda without a body is compiled to a block that carries the span of the lambda.
-/

namespace Conduit

namespace Script

mutual

/-- The spans of an operand and of what is inside it. -/
def Primary.spans : Primary → List Span
  | .bareword span _ => [span]
  | .quoted span _ => [span]
  | .variable span _ => [span]
  | .list span items => span :: primariesSpans items
  | .lambda span _ body => span :: bodySpans body

def primariesSpans : List Primary → List Span
  | [] => []
  | p :: rest => p.spans ++ primariesSpans rest

def bodySpans : Option Chunk → List Span
  | none => []
  | some chunk => chunk.spans

def Redirection.spans : Redirection → List Span
  | .mk span _ _ target => span :: target.spans

def redirectionsSpans : List Redirection → List Span
  | [] => []
  | r :: rest => r.spans ++ redirectionsSpans rest

def Form.spans : Form → List Span
  | .mk span targets head arguments redirections =>
    span :: (primariesSpans targets ++ head.spans ++ primariesSpans arguments ++
      redirectionsSpans redirections)

def formsSpans : List Form → List Span
  | [] => []
  | form :: rest => form.spans ++ formsSpans rest

def Pipeline.spans : Pipeline → List Span
  | .mk span forms => span :: formsSpans forms

def pipelinesSpans : List Pipeline → List Span
  | [] => []
  | pipeline :: rest => pipeline.spans ++ pipelinesSpans rest

/-- The spans of the nodes of a chunk. -/
def Chunk.spans : Chunk → List Span
  | .mk span pipelines => span :: pipelinesSpans pipelines

end

theorem Primary.span_mem_spans (p : Primary) : p.span ∈ p.spans := by
  cases p <;> simp [Primary.span, Primary.spans]

end Script

namespace Code

mutual

/-- The spans that an expression carries. -/
def Expr.spans : Expr → List Span
  | .text _ => []
  | .variable span _ _ => [span]
  | .list items => exprsSpans items
  | .lambda _ body => body.spans

def exprsSpans : List Expr → List Span
  | [] => []
  | e :: rest => e.spans ++ exprsSpans rest

def Head.spans : Head → List Span
  | .named _ => []
  | .computed e => e.spans

def Redirection.spans : Redirection → List Span
  | .mk span _ _ target => span :: target.spans

def redirectionsSpans : List Redirection → List Span
  | [] => []
  | r :: rest => r.spans ++ redirectionsSpans rest

def Form.spans : Form → List Span
  | .command span head arguments redirections =>
    span :: (head.spans ++ exprsSpans arguments ++ redirectionsSpans redirections)
  | .assignment span values targets => span :: (exprsSpans values ++ targets.map Target.span)

def formsSpans : List Form → List Span
  | [] => []
  | form :: rest => form.spans ++ formsSpans rest

def pipelinesSpans : List (List Form) → List Span
  | [] => []
  | forms :: rest => formsSpans forms ++ pipelinesSpans rest

/-- The spans that a block carries. -/
def Block.spans : Block → List Span
  | .mk span pipelines => span :: pipelinesSpans pipelines

end

/-! ## Compiling -/

/-- What a compilation yields carries only the given spans, and what it reports is blamed on one of
them. -/
def Confined {α : Type} (spans : List Span) (carried : α → List Span) : Except Error α → Prop
  | .ok a => carried a ⊆ spans
  | .error e => ∃ span ∈ spans, e.span = some span

namespace Confined

variable {α β : Type} {spans spans' : List Span} {carried : α → List Span}
  {carried' : β → List Span}

theorem mono {x : Except Error α} (h : Confined spans carried x) (hs : spans ⊆ spans') :
    Confined spans' carried x := by
  cases x with
  | ok a => exact List.Subset.trans h hs
  | error e =>
    obtain ⟨span, hspan, he⟩ := h
    exact ⟨span, hs hspan, he⟩

theorem bind {x : Except Error α} {f : α → Except Error β} (h : Confined spans carried x)
    (hs : spans ⊆ spans') (hf : ∀ a, carried a ⊆ spans → Confined spans' carried' (f a)) :
    Confined spans' carried' (x >>= f) := by
  cases x with
  | ok a => exact hf a h
  | error e => exact mono (x := .error e) h hs

end Confined

variable {builtins : List Bytes}

theorem compileVariable_confined (names : List Bytes) (span : Span) (text : Bytes) :
    Confined [span] Expr.spans (compileVariable builtins names span text) := by
  unfold compileVariable
  dsimp only
  split
  · exact ⟨span, List.mem_singleton_self span, rfl⟩
  · exact List.Subset.refl _

theorem compileTarget_confined (p : Script.Primary) :
    Confined p.spans (fun t ↦ [t.span]) (compileTarget p) := by
  cases p with
  | «variable» span text =>
    unfold compileTarget
    exact List.Subset.refl _
  | _ => exact ⟨_, Script.Primary.span_mem_spans _, rfl⟩

/-- What is compiled from a list carries spans of its first part and of its rest. -/
theorem append_subset_append {first first' rest rest' : List Span} (h : first ⊆ first')
    (hrest : rest ⊆ rest') : first ++ rest ⊆ first' ++ rest' :=
  List.append_subset.mpr ⟨List.Subset.trans h (List.subset_append_left _ _),
    List.Subset.trans hrest (List.subset_append_right _ _)⟩

theorem compileTargets_confined (ps : List Script.Primary) :
    Confined (Script.primariesSpans ps) (fun ts ↦ ts.map Target.span) (ps.mapM compileTarget) := by
  induction ps with
  | nil => exact List.nil_subset _
  | cons p rest ih =>
    rw [List.mapM_cons, Script.primariesSpans]
    refine (compileTarget_confined p).bind (List.subset_append_left _ _) fun t ht ↦ ?_
    refine ih.bind (List.subset_append_right _ _) fun ts hts ↦ ?_
    exact append_subset_append ht hts

mutual

theorem compilePrimary_confined : ∀ (names : List Bytes) (p : Script.Primary),
    Confined p.spans Expr.spans (compilePrimary builtins names p)
  | names, .bareword span text => by
    unfold compilePrimary
    exact List.nil_subset _
  | names, .quoted span text => by
    unfold compilePrimary
    exact List.nil_subset _
  | names, .variable span text => by
    unfold compilePrimary
    exact compileVariable_confined names span text
  | names, .list span items => by
    unfold compilePrimary
    rw [Script.Primary.spans]
    refine (compilePrimaries_confined names items).bind (List.subset_cons_self _ _) fun es hes ↦ ?_
    exact List.Subset.trans hes (List.subset_cons_self _ _)
  | names, .lambda span parameters body => by
    unfold compilePrimary
    rw [Script.Primary.spans]
    refine (compileBody_confined (parameters ++ names) span body).bind (.refl _) fun block hblock ↦ ?_
    exact hblock

theorem compilePrimaries_confined : ∀ (names : List Bytes) (ps : List Script.Primary),
    Confined (Script.primariesSpans ps) exprsSpans (compilePrimaries builtins names ps)
  | names, [] => by
    unfold compilePrimaries
    exact List.nil_subset _
  | names, p :: rest => by
    unfold compilePrimaries
    rw [Script.primariesSpans]
    refine (compilePrimary_confined names p).bind (List.subset_append_left _ _) fun e he ↦ ?_
    refine (compilePrimaries_confined names rest).bind (List.subset_append_right _ _) fun es hes ↦ ?_
    exact append_subset_append he hes

theorem compileBody_confined : ∀ (names : List Bytes) (span : Span) (body : Option Script.Chunk),
    Confined (span :: Script.bodySpans body) Block.spans (compileBody builtins names span body)
  | names, span, none => by
    unfold compileBody
    exact List.Subset.refl _
  | names, span, some chunk => by
    unfold compileBody
    exact (compileChunk_confined names chunk).mono (List.subset_cons_self _ _)

theorem compileHead_confined : ∀ (names : List Bytes) (p : Script.Primary),
    Confined p.spans Head.spans (compileHead builtins names p)
  | names, .bareword span text => by
    unfold compileHead
    exact List.nil_subset _
  | names, .quoted span text => by
    unfold compileHead
    exact List.nil_subset _
  | names, .variable span text => by
    unfold compileHead
    exact (compileVariable_confined names span text).bind (.refl _) fun e he ↦ he
  | names, .list span items => by
    unfold compileHead
    rw [Script.Primary.spans]
    refine (compilePrimaries_confined names items).bind (List.subset_cons_self _ _) fun es hes ↦ ?_
    exact List.Subset.trans hes (List.subset_cons_self _ _)
  | names, .lambda span parameters body => by
    unfold compileHead
    rw [Script.Primary.spans]
    refine (compileBody_confined (parameters ++ names) span body).bind (.refl _) fun block hblock ↦ ?_
    exact hblock

theorem compileRedirection_confined : ∀ (names : List Bytes) (r : Script.Redirection),
    Confined r.spans Redirection.spans (compileRedirection builtins names r)
  | names, .mk span (.ofNat destination) mode target => by
    unfold compileRedirection
    rw [Script.Redirection.spans]
    refine (compilePrimary_confined names target).bind (List.subset_cons_self _ _) fun e he ↦ ?_
    exact List.cons_subset_cons span he
  | names, .mk span (.negSucc _) mode target => by
    unfold compileRedirection
    exact ⟨span, List.mem_cons_self, rfl⟩

theorem compileRedirections_confined : ∀ (names : List Bytes) (rs : List Script.Redirection),
    Confined (Script.redirectionsSpans rs) redirectionsSpans (compileRedirections builtins names rs)
  | names, [] => by
    unfold compileRedirections
    exact List.nil_subset _
  | names, r :: rest => by
    unfold compileRedirections
    rw [Script.redirectionsSpans]
    refine (compileRedirection_confined names r).bind (List.subset_append_left _ _) fun c hc ↦ ?_
    refine (compileRedirections_confined names rest).bind (List.subset_append_right _ _)
      fun cs hcs ↦ ?_
    exact append_subset_append hc hcs

theorem compileForm_confined : ∀ (names : List Bytes) (form : Script.Form),
    Confined form.spans (fun r ↦ r.1.spans) (compileForm builtins names form)
  | names, .mk span [] head arguments redirections => by
    unfold compileForm
    rw [Script.Form.spans, Script.primariesSpans, List.nil_append]
    refine (compileHead_confined names head).bind (fun s hs ↦ by simp [hs]) fun h hh ↦ ?_
    refine (compilePrimaries_confined names arguments).bind (fun s hs ↦ by simp [hs]) fun es hes ↦ ?_
    refine (compileRedirections_confined names redirections).bind (fun s hs ↦ by simp [hs])
      fun rs hrs ↦ ?_
    exact List.cons_subset_cons span (append_subset_append (append_subset_append hh hes) hrs)
  | names, .mk span (target :: targets) head arguments redirections => by
    unfold compileForm
    rw [Script.Form.spans]
    refine (compilePrimaries_confined names arguments).bind (fun s hs ↦ by simp [hs]) fun es hes ↦ ?_
    refine (compileTargets_confined (target :: targets)).bind (fun s hs ↦ by simp [hs])
      fun ts hts ↦ List.cons_subset_cons span (List.append_subset.mpr ⟨fun s hs ↦ ?_, fun s hs ↦ ?_⟩)
    · simp [hes hs]
    · simp [hts hs]

theorem compileForms_confined : ∀ (names : List Bytes) (forms : List Script.Form),
    Confined (Script.formsSpans forms) (fun r ↦ formsSpans r.1) (compileForms builtins names forms)
  | names, [] => by
    unfold compileForms
    exact List.nil_subset _
  | names, form :: rest => by
    unfold compileForms
    rw [Script.formsSpans]
    refine (compileForm_confined names form).bind (List.subset_append_left _ _)
      fun (compiled, names) hform ↦ ?_
    refine (compileForms_confined names rest).bind (List.subset_append_right _ _)
      fun (others, names) hothers ↦ ?_
    exact append_subset_append hform hothers

theorem compilePipelines_confined : ∀ (names : List Bytes) (pipelines : List Script.Pipeline),
    Confined (Script.pipelinesSpans pipelines) pipelinesSpans
      (compilePipelines builtins names pipelines)
  | names, [] => by
    unfold compilePipelines
    exact List.nil_subset _
  | names, .mk span forms :: rest => by
    unfold compilePipelines compilePipeline
    rw [Script.pipelinesSpans, Script.Pipeline.spans]
    refine (compileForms_confined names forms).bind (fun s hs ↦ by simp [hs])
      fun (compiled, names) hforms ↦ ?_
    refine (compilePipelines_confined names rest).bind (List.subset_append_right _ _)
      fun others hothers ↦ ?_
    exact append_subset_append (List.Subset.trans hforms (List.subset_cons_self _ _)) hothers

/-- The code of a chunk carries spans of the chunk, and so does the error if it cannot be compiled. -/
theorem compileChunk_confined : ∀ (names : List Bytes) (chunk : Script.Chunk),
    Confined chunk.spans Block.spans (compileChunk builtins names chunk)
  | names, .mk span pipelines => by
    unfold compileChunk
    rw [Script.Chunk.spans]
    refine (compilePipelines_confined names pipelines).bind (List.subset_cons_self _ _)
      fun compiled hcompiled ↦ ?_
    exact List.cons_subset_cons span hcompiled

end

end Code

end Conduit
