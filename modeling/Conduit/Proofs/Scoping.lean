import Conduit.Proofs.Compiled

/-!
# Names in Scope

Code is scoped by some known names if each unqualified variable in it is known where it stands: from
outside, as a parameter of a lambda around it, or as a target of an assignment that makes up an
earlier pipeline of the same block or of one around it.  Targets of an assignment that is one of
several stages do not count, since whether and when the stage gets to bind them is not known.

A chunk in which every assignment stands alone in its pipeline compiles to code that is scoped by the
names it is compiled against.
-/

namespace Conduit

namespace Script

/-- A form with targets. -/
def Form.isAssignment : Form → Bool
  | .mk _ targets _ _ _ => !targets.isEmpty

mutual

/-- In the lambdas of an operand, every assignment stands alone in its pipeline. -/
def Primary.Solo : Primary → Prop
  | .bareword _ _ => True
  | .quoted _ _ => True
  | .variable _ _ => True
  | .list _ items => primariesSolo items
  | .lambda _ _ body => bodySolo body

def primariesSolo : List Primary → Prop
  | [] => True
  | p :: rest => p.Solo ∧ primariesSolo rest

def bodySolo : Option Chunk → Prop
  | none => True
  | some chunk => chunk.Solo

def Redirection.Solo : Redirection → Prop
  | .mk _ _ _ target => target.Solo

def redirectionsSolo : List Redirection → Prop
  | [] => True
  | r :: rest => r.Solo ∧ redirectionsSolo rest

def Form.Solo : Form → Prop
  | .mk _ targets head arguments redirections =>
    primariesSolo targets ∧ head.Solo ∧ primariesSolo arguments ∧ redirectionsSolo redirections

def formsSolo : List Form → Prop
  | [] => True
  | form :: rest => form.Solo ∧ formsSolo rest

/-- An assignment in the pipeline is its only form. -/
def Pipeline.Solo : Pipeline → Prop
  | .mk _ forms => (forms.length = 1 ∨ ∀ form ∈ forms, form.isAssignment = false) ∧ formsSolo forms

def pipelinesSolo : List Pipeline → Prop
  | [] => True
  | pipeline :: rest => pipeline.Solo ∧ pipelinesSolo rest

/-- Every assignment of the chunk, at every depth of lambdas, stands alone in its pipeline. -/
def Chunk.Solo : Chunk → Prop
  | .mk _ pipelines => pipelinesSolo pipelines

end

end Script

namespace Code

/-- The names that a form binds when it succeeds. -/
def Form.brings : Form → List Bytes
  | .command _ _ _ _ => []
  | .assignment _ _ targets => newNames targets

/-- The names that a pipeline of one form binds when it succeeds. -/
def broughtBy : List Form → List Bytes
  | [form] => form.brings
  | _ => []

mutual

/-- The unqualified variables of an expression are known where they stand. -/
def Expr.Scoped (known : Bytes → Prop) : Expr → Prop
  | .text _ => True
  | .variable _ _ r => r.isPlain = true → known r.name
  | .list items => exprsScoped known items
  | .lambda parameters body => body.Scoped fun name ↦ name ∈ parameters ∨ known name

def exprsScoped (known : Bytes → Prop) : List Expr → Prop
  | [] => True
  | e :: rest => e.Scoped known ∧ exprsScoped known rest

def Head.Scoped (known : Bytes → Prop) : Head → Prop
  | .named _ => True
  | .computed e => e.Scoped known

def Redirection.Scoped (known : Bytes → Prop) : Redirection → Prop
  | .mk _ _ _ target => target.Scoped known

def redirectionsScoped (known : Bytes → Prop) : List Redirection → Prop
  | [] => True
  | r :: rest => r.Scoped known ∧ redirectionsScoped known rest

def Form.Scoped (known : Bytes → Prop) : Form → Prop
  | .command _ head arguments redirections =>
    head.Scoped known ∧ exprsScoped known arguments ∧ redirectionsScoped known redirections
  | .assignment _ values _ => exprsScoped known values

def formsScoped (known : Bytes → Prop) : List Form → Prop
  | [] => True
  | form :: rest => form.Scoped known ∧ formsScoped known rest

/-- What a pipeline brings is known in the ones after it. -/
def pipelinesScoped (known : Bytes → Prop) : List (List Form) → Prop
  | [] => True
  | forms :: rest =>
    formsScoped known forms ∧ pipelinesScoped (fun name ↦ name ∈ broughtBy forms ∨ known name) rest

/-- The unqualified variables of a block are known where they stand. -/
def Block.Scoped (known : Bytes → Prop) : Block → Prop
  | .mk _ pipelines => pipelinesScoped known pipelines

end

theorem broughtBy_of_ne {forms : List Form} (h : ∀ form, forms ≠ [form]) : broughtBy forms = [] := by
  unfold broughtBy
  split
  · exact absurd rfl (h _)
  · rfl

/-! ## More known names -/

mutual

theorem Expr.Scoped.mono {known known' : Bytes → Prop}
    (hknown : ∀ name, known name → known' name) :
    ∀ {e : Expr}, e.Scoped known → e.Scoped known'
  | .text _, _ => trivial
  | .variable _ _ _, h => fun hplain ↦ hknown _ (h hplain)
  | .list _, h => exprsScoped_mono hknown h
  | .lambda _ _, h => Block.Scoped.mono (fun name ↦ Or.imp_right (hknown name)) h

theorem exprsScoped_mono {known known' : Bytes → Prop}
    (hknown : ∀ name, known name → known' name) :
    ∀ {es : List Expr}, exprsScoped known es → exprsScoped known' es
  | [], _ => trivial
  | _ :: _, ⟨h, hrest⟩ => ⟨Expr.Scoped.mono hknown h, exprsScoped_mono hknown hrest⟩

theorem Head.Scoped.mono {known known' : Bytes → Prop}
    (hknown : ∀ name, known name → known' name) :
    ∀ {head : Head}, head.Scoped known → head.Scoped known'
  | .named _, _ => trivial
  | .computed _, h => Expr.Scoped.mono hknown h

theorem Redirection.Scoped.mono {known known' : Bytes → Prop}
    (hknown : ∀ name, known name → known' name) :
    ∀ {r : Redirection}, r.Scoped known → r.Scoped known'
  | .mk _ _ _ _, h => Expr.Scoped.mono hknown h

theorem redirectionsScoped_mono {known known' : Bytes → Prop}
    (hknown : ∀ name, known name → known' name) :
    ∀ {rs : List Redirection}, redirectionsScoped known rs → redirectionsScoped known' rs
  | [], _ => trivial
  | _ :: _, ⟨h, hrest⟩ => ⟨Redirection.Scoped.mono hknown h, redirectionsScoped_mono hknown hrest⟩

theorem Form.Scoped.mono {known known' : Bytes → Prop}
    (hknown : ∀ name, known name → known' name) :
    ∀ {form : Form}, form.Scoped known → form.Scoped known'
  | .command _ _ _ _, ⟨hhead, harguments, hredirections⟩ =>
    ⟨Head.Scoped.mono hknown hhead, exprsScoped_mono hknown harguments,
      redirectionsScoped_mono hknown hredirections⟩
  | .assignment _ _ _, h => exprsScoped_mono hknown h

theorem formsScoped_mono {known known' : Bytes → Prop}
    (hknown : ∀ name, known name → known' name) :
    ∀ {forms : List Form}, formsScoped known forms → formsScoped known' forms
  | [], _ => trivial
  | _ :: _, ⟨h, hrest⟩ => ⟨Form.Scoped.mono hknown h, formsScoped_mono hknown hrest⟩

theorem pipelinesScoped_mono {known known' : Bytes → Prop}
    (hknown : ∀ name, known name → known' name) :
    ∀ {pipelines : List (List Form)}, pipelinesScoped known pipelines →
      pipelinesScoped known' pipelines
  | [], _ => trivial
  | _ :: _, ⟨h, hrest⟩ =>
    ⟨formsScoped_mono hknown h,
      pipelinesScoped_mono (fun name ↦ Or.imp_right (hknown name)) hrest⟩

theorem Block.Scoped.mono {known known' : Bytes → Prop}
    (hknown : ∀ name, known name → known' name) :
    ∀ {block : Block}, block.Scoped known → block.Scoped known'
  | .mk _ _, h => pipelinesScoped_mono hknown h

end

/-! ## Compiled code is scoped -/

/-- The names that code is compiled against. -/
def Given (builtins names : List Bytes) (name : Bytes) : Prop := name ∈ builtins ∨ name ∈ names

/-- The names that are given inside a lambda are its parameters and those outside it. -/
theorem given_append {builtins names parameters : List Bytes} {name : Bytes}
    (h : Given builtins (parameters ++ names) name) :
    name ∈ parameters ∨ Given builtins names name := by
  rcases h with h | h
  · exact .inr (.inl h)
  · rcases List.mem_append.mp h with h | h
    · exact .inl h
    · exact .inr (.inr h)

variable {builtins : List Bytes}

theorem compileVariable_scoped {names : List Bytes} {span : Span} {text : Bytes} {e : Expr}
    (h : compileVariable builtins names span text = .ok e) : e.Scoped (Given builtins names) := by
  unfold compileVariable at h
  dsimp only at h
  split at h
  · cases h
  · rename_i hfound
    cases h
    intro hplain
    rw [hplain] at hfound
    simp only [Bool.true_and, Bool.and_eq_true, Bool.not_eq_true', not_and, Bool.not_eq_false,
      List.contains_iff_mem] at hfound
    unfold Given
    by_cases hbuiltin : (Reference.ofText (splitRest text).2).name ∈ builtins
    · exact .inl hbuiltin
    · refine .inr (hfound ?_)
      simpa using hbuiltin

/-- Several forms, or one that is no assignment, bring nothing into scope. -/
theorem compileForms_commands {names names' : List Bytes} {forms : List Script.Form}
    {compiled : List Form} (hforms : ∀ form ∈ forms, form.isAssignment = false)
    (h : compileForms builtins names forms = .ok (compiled, names')) : names' = names := by
  induction forms generalizing compiled with
  | nil =>
    unfold compileForms at h
    cases h
    rfl
  | cons form rest ih =>
    obtain ⟨first, between, others, hfirst, hothers, rfl⟩ := compileForms_cons h
    obtain ⟨span, targets, head, arguments, redirections⟩ := form
    cases targets with
    | nil =>
      obtain ⟨_, _, _, -, -, -, -, rfl⟩ := compileForm_command hfirst
      exact ih (fun form hform ↦ hforms form (List.mem_cons_of_mem _ hform)) hothers
    | cons target targets => cases hforms _ List.mem_cons_self

mutual

theorem compilePrimary_scoped : ∀ {names : List Bytes} {p : Script.Primary} {e : Expr}, p.Solo →
    compilePrimary builtins names p = .ok e → e.Scoped (Given builtins names)
  | names, .bareword _ text, e, _, h => by
    unfold compilePrimary at h
    cases h
    trivial
  | names, .quoted _ text, e, _, h => by
    unfold compilePrimary at h
    cases h
    trivial
  | names, .variable span text, e, _, h => by
    unfold compilePrimary at h
    exact compileVariable_scoped h
  | names, .list _ items, e, hsolo, h => by
    unfold compilePrimary at h
    obtain ⟨compiled, hitems, h⟩ := bind_ok h
    cases h
    have hsolo' : Script.primariesSolo items := hsolo
    exact compilePrimaries_scoped hsolo' hitems
  | names, .lambda span parameters body, e, hsolo, h => by
    unfold compilePrimary at h
    obtain ⟨compiled, hbody, h⟩ := bind_ok h
    cases h
    have hsolo' : Script.bodySolo body := hsolo
    exact (compileBody_scoped hsolo' hbody).mono fun _ ↦ given_append

theorem compilePrimaries_scoped : ∀ {names : List Bytes} {items : List Script.Primary}
    {es : List Expr}, Script.primariesSolo items →
      compilePrimaries builtins names items = .ok es → exprsScoped (Given builtins names) es
  | names, [], es, _, h => by
    unfold compilePrimaries at h
    cases h
    trivial
  | names, p :: rest, es, ⟨hfirst, hrest⟩, h => by
    unfold compilePrimaries at h
    obtain ⟨e, he, h⟩ := bind_ok h
    obtain ⟨others, hothers, h⟩ := bind_ok h
    cases h
    exact ⟨compilePrimary_scoped hfirst he, compilePrimaries_scoped hrest hothers⟩

theorem compileBody_scoped : ∀ {names : List Bytes} {span : Span} {body : Option Script.Chunk}
    {block : Block}, Script.bodySolo body → compileBody builtins names span body = .ok block →
      block.Scoped (Given builtins names)
  | names, span, none, block, _, h => by
    unfold compileBody at h
    cases h
    trivial
  | names, span, some chunk, block, hsolo, h => by
    unfold compileBody at h
    exact compileChunk_scoped hsolo h

theorem compileHead_scoped : ∀ {names : List Bytes} {p : Script.Primary} {head : Head}, p.Solo →
    compileHead builtins names p = .ok head → head.Scoped (Given builtins names)
  | names, .bareword _ text, head, _, h => by
    unfold compileHead at h
    cases h
    trivial
  | names, .quoted _ text, head, _, h => by
    unfold compileHead at h
    cases h
    trivial
  | names, .variable span text, head, _, h => by
    unfold compileHead at h
    obtain ⟨e, he, h⟩ := bind_ok h
    cases h
    exact compileVariable_scoped he
  | names, .list _ items, head, hsolo, h => by
    unfold compileHead at h
    obtain ⟨compiled, hitems, h⟩ := bind_ok h
    cases h
    have hsolo' : Script.primariesSolo items := hsolo
    exact compilePrimaries_scoped hsolo' hitems
  | names, .lambda span parameters body, head, hsolo, h => by
    unfold compileHead at h
    obtain ⟨compiled, hbody, h⟩ := bind_ok h
    cases h
    have hsolo' : Script.bodySolo body := hsolo
    exact (compileBody_scoped hsolo' hbody).mono fun _ ↦ given_append

theorem compileRedirections_scoped : ∀ {names : List Bytes} {rs : List Script.Redirection}
    {compiled : List Redirection}, Script.redirectionsSolo rs →
      compileRedirections builtins names rs = .ok compiled →
        redirectionsScoped (Given builtins names) compiled
  | names, [], compiled, _, h => by
    unfold compileRedirections at h
    cases h
    trivial
  | names, .mk span destination mode target :: rest, compiled, ⟨hfirst, hrest⟩, h => by
    unfold compileRedirections at h
    obtain ⟨r, hr, h⟩ := bind_ok h
    obtain ⟨others, hothers, h⟩ := bind_ok h
    cases h
    refine ⟨?_, compileRedirections_scoped hrest hothers⟩
    cases destination with
    | ofNat destination =>
      unfold compileRedirection at hr
      obtain ⟨e, he, hr⟩ := bind_ok hr
      cases hr
      have htarget : target.Solo := hfirst
      exact compilePrimary_scoped htarget he
    | negSucc _ =>
      unfold compileRedirection at hr
      cases hr

theorem compileForm_scoped : ∀ {names names' : List Bytes} {form : Script.Form} {compiled : Form},
    form.Solo → compileForm builtins names form = .ok (compiled, names') →
      compiled.Scoped (Given builtins names) ∧ names' = compiled.brings ++ names
  | names, names', .mk span [] head arguments redirections, compiled, hsolo, h => by
    obtain ⟨_, _, _, hhead, harguments, hredirections, rfl, rfl⟩ := compileForm_command h
    obtain ⟨-, hsoloHead, hsoloArguments, hsoloRedirections⟩ := hsolo
    exact ⟨⟨compileHead_scoped hsoloHead hhead, compilePrimaries_scoped hsoloArguments harguments,
      compileRedirections_scoped hsoloRedirections hredirections⟩, rfl⟩
  | names, names', .mk span (target :: targets) head arguments redirections, compiled, hsolo, h => by
    obtain ⟨_, _, hvalues, -, rfl, rfl⟩ := compileForm_assignment h
    exact ⟨compilePrimaries_scoped hsolo.2.2.1 hvalues, rfl⟩

/-- The forms of a pipeline are scoped by the names before it, and after it the names that it brings
are in scope as well. -/
theorem compileForms_scoped : ∀ {names names' : List Bytes} {forms : List Script.Form}
    {compiled : List Form}, (forms.length = 1 ∨ ∀ form ∈ forms, form.isAssignment = false) →
      Script.formsSolo forms → compileForms builtins names forms = .ok (compiled, names') →
        formsScoped (Given builtins names) compiled ∧
          ∀ name, name ∈ names' → name ∈ broughtBy compiled ∨ name ∈ names
  | names, names', [], compiled, _, _, h => by
    unfold compileForms at h
    cases h
    exact ⟨trivial, fun _ ↦ .inr⟩
  | names, names', [form], compiled, _, hsolo, h => by
    obtain ⟨first, between, others, hfirst, hothers, rfl⟩ := compileForms_cons h
    obtain ⟨hscoped, rfl⟩ := compileForm_scoped hsolo.1 hfirst
    unfold compileForms at hothers
    cases hothers
    exact ⟨⟨hscoped, trivial⟩, fun name hname ↦ List.mem_append.mp hname⟩
  | names, names', form :: other :: rest, compiled, halone, hsolo, h => by
    have hcommands : ∀ f ∈ form :: other :: rest, f.isAssignment = false :=
      halone.resolve_left (by simp)
    have hnames := compileForms_commands hcommands h
    obtain ⟨first, between, others, hfirst, hothers, rfl⟩ := compileForms_cons h
    have hbetween : between = names := by
      have hrest := compileForms_commands
        (fun f hf ↦ hcommands f (List.mem_cons_of_mem _ hf)) hothers
      exact hrest.symm.trans hnames
    rw [hbetween] at hfirst hothers
    obtain ⟨hscoped, -⟩ := compileForm_scoped hsolo.1 hfirst
    obtain ⟨hrest, -⟩ := compileForms_scoped
      (.inr fun f hf ↦ hcommands f (List.mem_cons_of_mem _ hf)) hsolo.2 hothers
    exact ⟨⟨hscoped, hrest⟩, fun name hname ↦ .inr (hnames ▸ hname)⟩

theorem compilePipelines_scoped : ∀ {names : List Bytes} {pipelines : List Script.Pipeline}
    {compiled : List (List Form)}, Script.pipelinesSolo pipelines →
      compilePipelines builtins names pipelines = .ok compiled →
        pipelinesScoped (Given builtins names) compiled
  | names, [], compiled, _, h => by
    unfold compilePipelines at h
    cases h
    trivial
  | names, .mk span forms :: rest, compiled, ⟨⟨halone, hforms⟩, hrest⟩, h => by
    obtain ⟨first, between, others, hfirst, hothers, rfl⟩ := compilePipelines_cons h
    unfold compilePipeline at hfirst
    obtain ⟨hscoped, hnames⟩ := compileForms_scoped halone hforms hfirst
    refine ⟨hscoped, pipelinesScoped_mono (fun name hname ↦ ?_)
      (compilePipelines_scoped hrest hothers)⟩
    rcases hname with hname | hname
    · exact .inr (.inl hname)
    · exact (hnames name hname).imp_right .inr

theorem compileChunk_scoped : ∀ {names : List Bytes} {chunk : Script.Chunk} {block : Block},
    chunk.Solo → compileChunk builtins names chunk = .ok block →
      block.Scoped (Given builtins names)
  | names, .mk span pipelines, block, hsolo, h => by
    obtain ⟨compiled, hcompiled, rfl⟩ := compileChunk_mk h
    have hsolo' : Script.pipelinesSolo pipelines := hsolo
    exact compilePipelines_scoped hsolo' hcompiled

end

end Code

end Conduit
