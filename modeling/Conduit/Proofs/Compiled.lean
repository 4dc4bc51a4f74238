import Conduit.Code.OfScript

/-!
# Compiled Code

What is known about code that a script was compiled to.  Each construct of the code comes from the
construct of the script that it stands for; in particular every assignment of a block outside the
lambdas in it is an assignment form of the chunk outside the lambdas of the chunk.
-/

namespace Conduit

namespace Script

/-- The forms of a chunk outside the bodies of lambdas. -/
def Chunk.forms : Chunk → List Form
  | .mk _ pipelines => pipelines.flatMap fun | .mk _ forms => forms

/-- A form of the chunk outside the bodies of lambdas assigns to targets. -/
def Chunk.Assigns (chunk : Chunk) (span : Span) (targets : List Target) : Prop :=
  ∃ operands head arguments redirections,
    Form.mk span operands head arguments redirections ∈ chunk.forms ∧
      operands.mapM Code.compileTarget = .ok targets ∧ operands ≠ []

end Script

namespace Code

variable {builtins names names' : List Bytes}

/-- A computation with a result goes through a result of its first part. -/
theorem bind_ok {ε α β : Type} {x : Except ε α} {f : α → Except ε β} {b : β}
    (h : (x >>= f) = .ok b) : ∃ a, x = .ok a ∧ f a = .ok b := by
  cases x with
  | ok a => exact ⟨a, rfl, h⟩
  | error e => cases h

/-! ## Inversion -/

theorem compileForm_command {span : Span} {head : Script.Primary} {arguments : List Script.Primary}
    {redirections : List Script.Redirection} {form : Form}
    (h : compileForm builtins names (.mk span [] head arguments redirections) = .ok (form, names')) :
    ∃ head' arguments' redirections', compileHead builtins names head = .ok head' ∧
      compilePrimaries builtins names arguments = .ok arguments' ∧
      compileRedirections builtins names redirections = .ok redirections' ∧
      form = .command span head' arguments' redirections' ∧ names' = names := by
  unfold compileForm at h
  obtain ⟨head', hhead, h⟩ := bind_ok h
  obtain ⟨arguments', harguments, h⟩ := bind_ok h
  obtain ⟨redirections', hredirections, h⟩ := bind_ok h
  cases h
  exact ⟨head', arguments', redirections', hhead, harguments, hredirections, rfl, rfl⟩

theorem compileForm_assignment {span : Span} {target : Script.Primary}
    {targets : List Script.Primary} {head : Script.Primary} {arguments : List Script.Primary}
    {redirections : List Script.Redirection} {form : Form}
    (h : compileForm builtins names (.mk span (target :: targets) head arguments redirections) =
      .ok (form, names')) :
    ∃ values compiled, compilePrimaries builtins names arguments = .ok values ∧
      (target :: targets).mapM compileTarget = .ok compiled ∧
      form = .assignment span values compiled ∧ names' = newNames compiled ++ names := by
  unfold compileForm at h
  obtain ⟨values, hvalues, h⟩ := bind_ok h
  obtain ⟨compiled, hcompiled, h⟩ := bind_ok h
  cases h
  exact ⟨values, compiled, hvalues, hcompiled, rfl, rfl⟩

theorem compileForms_cons {form : Script.Form} {rest : List Script.Form} {forms : List Form}
    (h : compileForms builtins names (form :: rest) = .ok (forms, names')) :
    ∃ first between others, compileForm builtins names form = .ok (first, between) ∧
      compileForms builtins between rest = .ok (others, names') ∧ forms = first :: others := by
  unfold compileForms at h
  obtain ⟨⟨first, between⟩, hfirst, h⟩ := bind_ok h
  obtain ⟨⟨others, after⟩, hothers, h⟩ := bind_ok h
  cases h
  exact ⟨first, between, others, hfirst, hothers, rfl⟩

theorem compilePipelines_cons {pipeline : Script.Pipeline} {rest : List Script.Pipeline}
    {pipelines : List (List Form)}
    (h : compilePipelines builtins names (pipeline :: rest) = .ok pipelines) :
    ∃ forms between others, compilePipeline builtins names pipeline = .ok (forms, between) ∧
      compilePipelines builtins between rest = .ok others ∧ pipelines = forms :: others := by
  unfold compilePipelines at h
  obtain ⟨⟨forms, between⟩, hforms, h⟩ := bind_ok h
  obtain ⟨others, hothers, h⟩ := bind_ok h
  cases h
  exact ⟨forms, between, others, hforms, hothers, rfl⟩

theorem compileChunk_mk {span : Span} {pipelines : List Script.Pipeline} {block : Block}
    (h : compileChunk builtins names (.mk span pipelines) = .ok block) :
    ∃ compiled, compilePipelines builtins names pipelines = .ok compiled ∧
      block = .mk span compiled := by
  unfold compileChunk at h
  obtain ⟨compiled, hcompiled, h⟩ := bind_ok h
  cases h
  exact ⟨compiled, hcompiled, rfl⟩

/-! ## Assignments -/

/-- An assignment among compiled forms comes from a form that assigns to its targets. -/
theorem mem_compileForms {forms : List Script.Form} {compiled : List Form} {span : Span}
    {values : List Expr} {targets : List Target}
    (h : compileForms builtins names forms = .ok (compiled, names'))
    (hmem : .assignment span values targets ∈ compiled) :
    ∃ operands head arguments redirections,
      Script.Form.mk span operands head arguments redirections ∈ forms ∧
        operands.mapM compileTarget = .ok targets ∧ operands ≠ [] := by
  induction forms generalizing names compiled with
  | nil =>
    unfold compileForms at h
    cases h
    cases hmem
  | cons form rest ih =>
    obtain ⟨first, between, others, hfirst, hothers, rfl⟩ := compileForms_cons h
    rcases List.mem_cons.mp hmem with rfl | hmem
    · obtain ⟨span', operands, head, arguments, redirections⟩ := form
      cases operands with
      | nil =>
        obtain ⟨_, _, _, -, -, -, heq, -⟩ := compileForm_command hfirst
        cases heq
      | cons operand operands =>
        obtain ⟨_, _, -, htargets, heq, -⟩ := compileForm_assignment hfirst
        cases heq
        exact ⟨_, head, arguments, redirections, List.mem_cons_self, htargets, by simp⟩
    · obtain ⟨operands, head, arguments, redirections, hform, htargets⟩ := ih hothers hmem
      exact ⟨operands, head, arguments, redirections, List.mem_cons_of_mem _ hform, htargets⟩

/-- An assignment of a compiled chunk outside the lambdas is a form of the chunk. -/
theorem assigns_of_mem {chunk : Script.Chunk} {code : Block} {scope : List Bytes}
    (h : ofScript scope builtins chunk = .ok code) {forms : List Form}
    (hforms : forms ∈ code.pipelines) {span : Span} {values : List Expr} {targets : List Target}
    (hmem : .assignment span values targets ∈ forms) : chunk.Assigns span targets := by
  obtain ⟨chunkSpan, pipelines⟩ := chunk
  obtain ⟨compiled, hcompiled, rfl⟩ := compileChunk_mk h
  change forms ∈ compiled at hforms
  have hpipeline : ∃ pipelineSpan scripts, Script.Pipeline.mk pipelineSpan scripts ∈ pipelines ∧
      ∃ before after, compileForms builtins before scripts = .ok (forms, after) := by
    clear h
    induction pipelines generalizing scope compiled with
    | nil =>
      unfold compilePipelines at hcompiled
      cases hcompiled
      cases hforms
    | cons pipeline rest ih =>
      obtain ⟨first, between, others, hfirst, hothers, rfl⟩ := compilePipelines_cons hcompiled
      rcases List.mem_cons.mp hforms with rfl | hforms
      · obtain ⟨pipelineSpan, scripts⟩ := pipeline
        unfold compilePipeline at hfirst
        exact ⟨pipelineSpan, scripts, List.mem_cons_self, scope, between, hfirst⟩
      · obtain ⟨pipelineSpan, scripts, hpipeline, hcompile⟩ := ih others hothers hforms
        exact ⟨pipelineSpan, scripts, List.mem_cons_of_mem _ hpipeline, hcompile⟩
  obtain ⟨pipelineSpan, scripts, hpipeline, before, after, hscripts⟩ := hpipeline
  obtain ⟨operands, head, arguments, redirections, hform, htargets⟩ := mem_compileForms hscripts hmem
  exact ⟨operands, head, arguments, redirections,
    List.mem_flatMap.mpr ⟨_, hpipeline, hform⟩, htargets⟩

end Code

end Conduit
