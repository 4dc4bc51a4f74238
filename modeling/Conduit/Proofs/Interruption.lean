import Conduit.Proofs.Compiled

/-!
# Code without Stages

Nothing is piped in a script if each of its pipelines, at every depth of lambdas, has one form.  The
code of such a script has pipelines of one form only, at every depth as well.
-/

namespace Conduit

namespace Script

mutual

/-- Every pipeline in the lambdas of an operand has one form. -/
def Primary.Unpiped : Primary → Prop
  | .bareword _ _ => True
  | .quoted _ _ => True
  | .variable _ _ => True
  | .list _ items => primariesUnpiped items
  | .lambda _ _ body => bodyUnpiped body

def primariesUnpiped : List Primary → Prop
  | [] => True
  | p :: rest => p.Unpiped ∧ primariesUnpiped rest

def bodyUnpiped : Option Chunk → Prop
  | none => True
  | some chunk => chunk.Unpiped

def Redirection.Unpiped : Redirection → Prop
  | .mk _ _ _ target => target.Unpiped

def redirectionsUnpiped : List Redirection → Prop
  | [] => True
  | r :: rest => r.Unpiped ∧ redirectionsUnpiped rest

def Form.Unpiped : Form → Prop
  | .mk _ targets head arguments redirections =>
    primariesUnpiped targets ∧ head.Unpiped ∧ primariesUnpiped arguments ∧
      redirectionsUnpiped redirections

def formsUnpiped : List Form → Prop
  | [] => True
  | form :: rest => form.Unpiped ∧ formsUnpiped rest

def Pipeline.Unpiped : Pipeline → Prop
  | .mk _ forms => forms.length = 1 ∧ formsUnpiped forms

def pipelinesUnpiped : List Pipeline → Prop
  | [] => True
  | pipeline :: rest => pipeline.Unpiped ∧ pipelinesUnpiped rest

/-- Every pipeline of the chunk, at every depth of lambdas, has one form. -/
def Chunk.Unpiped : Chunk → Prop
  | .mk _ pipelines => pipelinesUnpiped pipelines

end

end Script

namespace Code

mutual

/-- Every pipeline in the lambdas of an expression has one form. -/
def Expr.Unpiped : Expr → Prop
  | .text _ => True
  | .variable _ _ _ => True
  | .list items => exprsUnpiped items
  | .lambda _ body => body.Unpiped

def exprsUnpiped : List Expr → Prop
  | [] => True
  | e :: rest => e.Unpiped ∧ exprsUnpiped rest

def Head.Unpiped : Head → Prop
  | .named _ => True
  | .computed e => e.Unpiped

def Redirection.Unpiped : Redirection → Prop
  | .mk _ _ _ target => target.Unpiped

def redirectionsUnpiped : List Redirection → Prop
  | [] => True
  | r :: rest => r.Unpiped ∧ redirectionsUnpiped rest

def Form.Unpiped : Form → Prop
  | .command _ head arguments redirections =>
    head.Unpiped ∧ exprsUnpiped arguments ∧ redirectionsUnpiped redirections
  | .assignment _ values _ => exprsUnpiped values

def formsUnpiped : List Form → Prop
  | [] => True
  | form :: rest => form.Unpiped ∧ formsUnpiped rest

def pipelinesUnpiped : List (List Form) → Prop
  | [] => True
  | forms :: rest => (forms.length = 1 ∧ formsUnpiped forms) ∧ pipelinesUnpiped rest

/-- Every pipeline of the block, at every depth of lambdas, has one form. -/
def Block.Unpiped : Block → Prop
  | .mk _ pipelines => pipelinesUnpiped pipelines

end

/-! ## Compiling -/

variable {builtins : List Bytes}

theorem compileVariable_unpiped {names : List Bytes} {span : Span} {text : Bytes} {e : Expr}
    (h : compileVariable builtins names span text = .ok e) : e.Unpiped := by
  unfold compileVariable at h
  dsimp only at h
  split at h <;> cases h
  trivial

mutual

theorem compilePrimary_unpiped : ∀ {names : List Bytes} {p : Script.Primary} {e : Expr},
    p.Unpiped → compilePrimary builtins names p = .ok e → e.Unpiped
  | names, .bareword _ text, e, _, h => by
    unfold compilePrimary at h
    cases h
    trivial
  | names, .quoted _ text, e, _, h => by
    unfold compilePrimary at h
    cases h
    trivial
  | names, .variable span text, e, _, h => by
    unfold compilePrimary at h
    exact compileVariable_unpiped h
  | names, .list _ items, e, hp, h => by
    unfold compilePrimary at h
    obtain ⟨compiled, hitems, h⟩ := bind_ok h
    cases h
    have hp' : Script.primariesUnpiped items := hp
    exact compilePrimaries_unpiped hp' hitems
  | names, .lambda span parameters body, e, hp, h => by
    unfold compilePrimary at h
    obtain ⟨compiled, hbody, h⟩ := bind_ok h
    cases h
    have hp' : Script.bodyUnpiped body := hp
    exact compileBody_unpiped hp' hbody

theorem compilePrimaries_unpiped : ∀ {names : List Bytes} {items : List Script.Primary}
    {es : List Expr}, Script.primariesUnpiped items →
      compilePrimaries builtins names items = .ok es → exprsUnpiped es
  | names, [], es, _, h => by
    unfold compilePrimaries at h
    cases h
    trivial
  | names, p :: rest, es, ⟨hfirst, hrest⟩, h => by
    unfold compilePrimaries at h
    obtain ⟨e, he, h⟩ := bind_ok h
    obtain ⟨others, hothers, h⟩ := bind_ok h
    cases h
    exact ⟨compilePrimary_unpiped hfirst he, compilePrimaries_unpiped hrest hothers⟩

theorem compileBody_unpiped : ∀ {names : List Bytes} {span : Span} {body : Option Script.Chunk}
    {block : Block}, Script.bodyUnpiped body → compileBody builtins names span body = .ok block →
      block.Unpiped
  | names, span, none, block, _, h => by
    unfold compileBody at h
    cases h
    trivial
  | names, span, some chunk, block, hbody, h => by
    unfold compileBody at h
    exact compileChunk_unpiped hbody h

theorem compileHead_unpiped : ∀ {names : List Bytes} {p : Script.Primary} {head : Head},
    p.Unpiped → compileHead builtins names p = .ok head → head.Unpiped
  | names, .bareword _ text, head, _, h => by
    unfold compileHead at h
    cases h
    trivial
  | names, .quoted _ text, head, _, h => by
    unfold compileHead at h
    cases h
    trivial
  | names, .variable span text, head, _, h => by
    unfold compileHead at h
    obtain ⟨e, he, h⟩ := bind_ok h
    cases h
    exact compileVariable_unpiped he
  | names, .list _ items, head, hp, h => by
    unfold compileHead at h
    obtain ⟨compiled, hitems, h⟩ := bind_ok h
    cases h
    have hp' : Script.primariesUnpiped items := hp
    exact compilePrimaries_unpiped hp' hitems
  | names, .lambda span parameters body, head, hp, h => by
    unfold compileHead at h
    obtain ⟨compiled, hbody, h⟩ := bind_ok h
    cases h
    have hp' : Script.bodyUnpiped body := hp
    exact compileBody_unpiped hp' hbody

theorem compileRedirections_unpiped : ∀ {names : List Bytes} {rs : List Script.Redirection}
    {compiled : List Redirection}, Script.redirectionsUnpiped rs →
      compileRedirections builtins names rs = .ok compiled → redirectionsUnpiped compiled
  | names, [], compiled, _, h => by
    unfold compileRedirections at h
    cases h
    trivial
  | names, .mk span destination mode target :: rest, compiled, ⟨hfirst, hrest⟩, h => by
    unfold compileRedirections at h
    obtain ⟨r, hr, h⟩ := bind_ok h
    obtain ⟨others, hothers, h⟩ := bind_ok h
    cases h
    refine ⟨?_, compileRedirections_unpiped hrest hothers⟩
    cases destination with
    | ofNat destination =>
      unfold compileRedirection at hr
      obtain ⟨e, he, hr⟩ := bind_ok hr
      cases hr
      have htarget : target.Unpiped := hfirst
      exact compilePrimary_unpiped htarget he
    | negSucc _ =>
      unfold compileRedirection at hr
      cases hr

theorem compileForm_unpiped : ∀ {names names' : List Bytes} {form : Script.Form} {compiled : Form},
    form.Unpiped → compileForm builtins names form = .ok (compiled, names') → compiled.Unpiped
  | names, names', .mk span [] head arguments redirections, compiled, hform, h => by
    obtain ⟨_, _, _, hhead, harguments, hredirections, rfl, -⟩ := compileForm_command h
    obtain ⟨-, hform, hform', hform''⟩ := hform
    exact ⟨compileHead_unpiped hform hhead, compilePrimaries_unpiped hform' harguments,
      compileRedirections_unpiped hform'' hredirections⟩
  | names, names', .mk span (target :: targets) head arguments redirections, compiled, hform, h => by
    obtain ⟨_, _, hvalues, -, rfl, -⟩ := compileForm_assignment h
    exact compilePrimaries_unpiped hform.2.2.1 hvalues

theorem compileForms_unpiped : ∀ {names names' : List Bytes} {forms : List Script.Form}
    {compiled : List Form}, Script.formsUnpiped forms →
      compileForms builtins names forms = .ok (compiled, names') →
        compiled.length = forms.length ∧ formsUnpiped compiled
  | names, names', [], compiled, _, h => by
    unfold compileForms at h
    cases h
    exact ⟨rfl, trivial⟩
  | names, names', form :: rest, compiled, ⟨hform, hrest⟩, h => by
    obtain ⟨first, between, others, hfirst, hothers, rfl⟩ := compileForms_cons h
    obtain ⟨hlength, hforms⟩ := compileForms_unpiped hrest hothers
    exact ⟨congrArg (· + 1) hlength, compileForm_unpiped hform hfirst, hforms⟩

theorem compilePipelines_unpiped : ∀ {names : List Bytes} {pipelines : List Script.Pipeline}
    {compiled : List (List Form)}, Script.pipelinesUnpiped pipelines →
      compilePipelines builtins names pipelines = .ok compiled → pipelinesUnpiped compiled
  | names, [], compiled, _, h => by
    unfold compilePipelines at h
    cases h
    trivial
  | names, .mk span forms :: rest, compiled, ⟨⟨hone, hforms⟩, hrest⟩, h => by
    obtain ⟨first, between, others, hfirst, hothers, rfl⟩ := compilePipelines_cons h
    unfold compilePipeline at hfirst
    obtain ⟨hlength, hcompiled⟩ := compileForms_unpiped hforms hfirst
    exact ⟨⟨hlength.trans hone, hcompiled⟩, compilePipelines_unpiped hrest hothers⟩

theorem compileChunk_unpiped : ∀ {names : List Bytes} {chunk : Script.Chunk} {block : Block},
    chunk.Unpiped → compileChunk builtins names chunk = .ok block → block.Unpiped
  | names, .mk span pipelines, block, hchunk, h => by
    obtain ⟨compiled, hcompiled, rfl⟩ := compileChunk_mk h
    have hchunk' : Script.pipelinesUnpiped pipelines := hchunk
    exact compilePipelines_unpiped hchunk' hcompiled

end

end Code

end Conduit
