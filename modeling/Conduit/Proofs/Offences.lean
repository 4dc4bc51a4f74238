import Mathlib.Tactic.Common
import Conduit.Proofs.Compiled

/-!
# The First Offence

Compiling checks three things: a variable that is read without a qualifier has to be in scope where
it stands, a target has to be a variable, and a redirection must not have a negative destination.
The nodes that are checked are listed here in the order of the source, each with what stands around
it: the forms that come earlier in each chunk around it, and the parameters of each lambda.  A name
is in scope at a node if it is a builtin, is given from outside, or is introduced by something
around the node.

A chunk compiles if and only if every node on the list meets its demand.  Otherwise the error is
about the first one that does not.
-/

namespace Conduit

namespace Script

/-! ## What is checked -/

/-- What is asked of a node: that a variable is in scope unless it is qualified, that a target is a
variable, or that a number is not negative. -/
inductive Demand where
  | read (reference : Reference)
  | target (operand : Primary)
  | destination (number : Int)

/-- What is said when a demand is not met. -/
def Demand.message : Demand → Bytes
  | .read reference => Code.notFound reference
  | .target _ => utf8 "assignment target must be a variable"
  | .destination _ => utf8 "bad redirection destination"

/-- Something around a node: a chunk, in which some forms come earlier, or a lambda. -/
inductive Layer where
  | chunk (earlier : List Form)
  | lambda (parameters : List Bytes)

/-- A node that is checked, and what stands around it, from the inside out. -/
structure Site where
  span : Span
  demand : Demand
  around : List Layer

/-- The variable that a text refers to, with or without the mark for splicing. -/
def referenceOf (text : Bytes) : Reference := .ofText (splitRest text).2

/-- One of the targets of the form is a variable of this name, unqualified or local. -/
def Form.Introduces (name : Bytes) : Form → Prop
  | .mk _ targets _ _ _ => ∃ span text, .variable span text ∈ targets ∧
      (referenceOf text).isLocal = true ∧ (referenceOf text).name = name

/-- The name is a parameter, or a form that comes earlier introduces it. -/
def Layer.Introduces (name : Bytes) : Layer → Prop
  | .chunk earlier => ∃ form ∈ earlier, form.Introduces name
  | .lambda parameters => name ∈ parameters

/-- The name is in scope where these layers stand around. -/
def InScope (builtins given : List Bytes) (around : List Layer) (name : Bytes) : Prop :=
  name ∈ builtins ∨ name ∈ given ∨ ∃ layer ∈ around, layer.Introduces name

/-- The node meets its demand. -/
def Site.Met (builtins given : List Bytes) (site : Site) : Prop :=
  match site.demand with
  | .read reference => reference.isPlain = true → InScope builtins given site.around reference.name
  | .target operand => ∃ span text, operand = .variable span text
  | .destination number => 0 ≤ number

mutual

/-- The nodes that are checked in an operand that is evaluated, in order. -/
def Primary.sites (around : List Layer) : Primary → List Site
  | .bareword _ _ => []
  | .quoted _ _ => []
  | .variable span text => [⟨span, .read (referenceOf text), around⟩]
  | .list _ items => primariesSites around items
  | .lambda _ parameters body => bodySites (.lambda parameters :: around) body

def primariesSites (around : List Layer) : List Primary → List Site
  | [] => []
  | p :: rest => p.sites around ++ primariesSites around rest

def bodySites (around : List Layer) : Option Chunk → List Site
  | none => []
  | some chunk => chunk.sites around

/-- The destination of a redirection comes before its target. -/
def Redirection.sites (around : List Layer) : Redirection → List Site
  | .mk span destination _ target => ⟨span, .destination destination, around⟩ :: target.sites around

def redirectionsSites (around : List Layer) : List Redirection → List Site
  | [] => []
  | r :: rest => r.sites around ++ redirectionsSites around rest

/-- A command has its head, its arguments and its redirections checked, and an assignment its values
and then its targets. -/
def Form.sites (around : List Layer) : Form → List Site
  | .mk _ [] head arguments redirections =>
    head.sites around ++ primariesSites around arguments ++ redirectionsSites around redirections
  | .mk _ (target :: targets) _ arguments _ =>
    primariesSites around arguments ++
      (target :: targets).map fun operand ↦ ⟨operand.span, .target operand, around⟩

/-- The nodes that are checked in forms of a chunk in which other forms come earlier. -/
def formsSites (around : List Layer) (earlier : List Form) : List Form → List Site
  | [] => []
  | form :: rest =>
    form.sites (.chunk earlier :: around) ++ formsSites around (earlier ++ [form]) rest

def pipelinesSites (around : List Layer) (earlier : List Form) : List Pipeline → List Site
  | [] => []
  | .mk _ forms :: rest =>
    formsSites around earlier forms ++ pipelinesSites around (earlier ++ forms) rest

/-- The nodes that are checked in a chunk, in order. -/
def Chunk.sites (around : List Layer) : Chunk → List Site
  | .mk _ pipelines => pipelinesSites around [] pipelines

end

end Script

namespace Code

open Script (Site Layer)

/-! ## Judgments -/

/-- A result is there only if all sites meet their demands, and otherwise the error is about the
first one that does not. -/
def Judges {α : Type} (met : Site → Prop) (sites : List Site) : Except Error α → Prop
  | .ok _ => ∀ site ∈ sites, met site
  | .error e => ∃ before site after, sites = before ++ site :: after ∧
      (∀ earlier ∈ before, met earlier) ∧ ¬met site ∧
        e = compileError site.span site.demand.message

namespace Judges

variable {α β : Type} {met : Site → Prop} {sites others : List Site}

theorem bind {x : Except Error α} {f : α → Except Error β} (h : Judges met sites x)
    (hf : ∀ a, x = .ok a → Judges met others (f a)) : Judges met (sites ++ others) (x >>= f) := by
  cases x with
  | error e =>
    obtain ⟨before, site, after, rfl, hbefore, hsite, rfl⟩ := h
    exact ⟨before, site, after ++ others, by simp, hbefore, hsite, rfl⟩
  | ok a =>
    have hmet : ∀ site ∈ sites, met site := h
    have hnext : Judges met others (f a) := hf a rfl
    change Judges met (sites ++ others) (f a)
    rcases hfa : f a with e | b <;> rw [hfa] at hnext
    · obtain ⟨before, site, after, rfl, hbefore, hsite, rfl⟩ := hnext
      refine ⟨sites ++ before, site, after, by simp, fun earlier hearlier ↦ ?_, hsite, rfl⟩
      exact (List.mem_append.mp hearlier).elim (hmet earlier) (hbefore earlier)
    · intro site hsite
      exact (List.mem_append.mp hsite).elim (hmet site) (hnext site)

/-- What is done with a result does not matter. -/
theorem result {x : Except Error α} (h : Judges met sites x) (f : α → β) :
    Judges met sites (x >>= fun a ↦ .ok (f a)) := by
  cases x with
  | error e => exact h
  | ok a => exact h

/-- One node is checked. -/
theorem single {site : Site} {x : Except Error α} (hok : ∀ a, x = .ok a → met site)
    (herror : ∀ e, x = .error e → ¬met site ∧ e = compileError site.span site.demand.message) :
    Judges met [site] x := by
  cases x with
  | error e =>
    obtain ⟨hsite, rfl⟩ := herror e rfl
    exact ⟨[], site, [], rfl, nofun, hsite, rfl⟩
  | ok a => simpa [Judges] using hok a rfl

/-- The first site that does not meet its demand is determined. -/
theorem first_unique {before before' after after' : List Site} {site site' : Site}
    (h : before ++ site :: after = before' ++ site' :: after') (hbefore : ∀ s ∈ before, met s)
    (hsite : ¬met site) (hbefore' : ∀ s ∈ before', met s) (hsite' : ¬met site') : site = site' := by
  rcases List.append_eq_append_iff.mp h with ⟨between, rfl, hrest⟩ | ⟨between, rfl, hrest⟩
  · cases between with
    | nil => exact (List.cons.inj hrest).1
    | cons s between =>
      obtain ⟨rfl, -⟩ := List.cons.inj hrest
      exact absurd (hbefore' site (by simp)) hsite
  · cases between with
    | nil => exact (List.cons.inj hrest).1.symm
    | cons s between =>
      obtain ⟨rfl, -⟩ := List.cons.inj hrest
      exact absurd (hbefore site' (by simp)) hsite'

theorem error_iff {x : Except Error α} (h : Judges met sites x) (e : Error) :
    x = .error e ↔ ∃ before site after, sites = before ++ site :: after ∧
      (∀ earlier ∈ before, met earlier) ∧ ¬met site ∧
        e = compileError site.span site.demand.message := by
  constructor
  · rintro rfl
    exact h
  · rintro ⟨before, site, after, rfl, hbefore, hsite, rfl⟩
    cases x with
    | ok a => exact absurd (h site (by simp)) hsite
    | error e =>
      obtain ⟨before', site', after', hsites, hbefore', hsite', rfl⟩ := h
      rw [first_unique hsites hbefore hsite hbefore' hsite']

theorem ok_iff {x : Except Error α} (h : Judges met sites x) :
    (∃ a, x = .ok a) ↔ ∀ site ∈ sites, met site := by
  cases x with
  | ok a => exact ⟨fun _ ↦ h, fun _ ↦ ⟨a, rfl⟩⟩
  | error e =>
    obtain ⟨before, site, after, rfl, -, hsite, -⟩ := h
    exact ⟨nofun, fun hmet ↦ absurd (hmet site (by simp)) hsite⟩

end Judges

/-! ## Names -/

variable {builtins given names : List Bytes} {around : List Layer}

/-- The names that are handed on while compiling are those that are in scope beside the builtins. -/
def Tracks (given : List Bytes) (around : List Layer) (names : List Bytes) : Prop :=
  ∀ name, name ∈ names ↔ name ∈ given ∨ ∃ layer ∈ around, layer.Introduces name

namespace Tracks

theorem inScope_iff (h : Tracks given around names) (name : Bytes) :
    Script.InScope builtins given around name ↔ name ∈ builtins ∨ name ∈ names :=
  or_congr_right (h name).symm

theorem lambda (h : Tracks given around names) (parameters : List Bytes) :
    Tracks given (.lambda parameters :: around) (parameters ++ names) := by
  intro name
  rw [List.mem_append, h name, or_left_comm]
  simp [Layer.Introduces]

/-- A chunk begins with the names around it. -/
theorem chunk (h : Tracks given around names) : Tracks given (.chunk [] :: around) names := by
  intro name
  rw [h name]
  simp [Layer.Introduces]

/-- After some forms the names that they introduce are in scope as well. -/
theorem forms {earlier forms : List Script.Form} {names' : List Bytes}
    (h : Tracks given (.chunk earlier :: around) names)
    (hnames : ∀ name, name ∈ names' ↔ (∃ form ∈ forms, form.Introduces name) ∨ name ∈ names) :
    Tracks given (.chunk (earlier ++ forms) :: around) names' := by
  intro name
  have hchunk : ∀ earlier, (∃ layer ∈ Layer.chunk earlier :: around, layer.Introduces name) ↔
      (∃ form ∈ earlier, form.Introduces name) ∨ ∃ layer ∈ around, layer.Introduces name :=
    fun earlier ↦ by simp [Layer.Introduces]
  rw [hnames name, h name, hchunk, hchunk]
  simp only [List.mem_append, or_and_right, exists_or]
  rw [or_left_comm, or_left_comm (b := ∃ form, form ∈ earlier ∧ _), or_assoc]

end Tracks

/-! ## Checks -/

theorem compileVariable_judges (hnames : Tracks given around names) (span : Span) (text : Bytes) :
    Judges (Site.Met builtins given) [⟨span, .read (Script.referenceOf text), around⟩]
      (compileVariable builtins names span text) := by
  have hmet : Site.Met builtins given ⟨span, .read (Script.referenceOf text), around⟩ ↔
      ((Script.referenceOf text).isPlain && !builtins.contains (Script.referenceOf text).name &&
        !names.contains (Script.referenceOf text).name) = false := by
    change (_ → _) ↔ _
    rw [hnames.inScope_iff, Bool.and_assoc]
    cases (Script.referenceOf text).isPlain <;> simp [or_iff_not_imp_left]
  have hcompile : compileVariable builtins names span text =
      if ((Script.referenceOf text).isPlain && !builtins.contains (Script.referenceOf text).name &&
        !names.contains (Script.referenceOf text).name) = true
      then .error (compileError span (notFound (Script.referenceOf text)))
      else .ok (.variable span (splitRest text).1 (Script.referenceOf text)) := rfl
  rw [hcompile]
  split
  · rename_i hoffends
    refine .single nofun fun e he ↦ ⟨fun h ↦ ?_, (Except.error.inj he).symm⟩
    rw [hmet.mp h] at hoffends
    cases hoffends
  · rename_i hfound
    exact .single (fun _ _ ↦ hmet.mpr (Bool.eq_false_iff.mpr hfound)) nofun

theorem compileTarget_judges (p : Script.Primary) (around : List Layer) :
    Judges (Site.Met builtins given) [⟨p.span, .target p, around⟩] (compileTarget p) := by
  cases p with
  | «variable» span text => exact .single (fun _ _ ↦ ⟨span, text, rfl⟩) nofun
  | _ =>
    refine .single nofun fun e he ↦ ⟨?_, (Except.error.inj he).symm⟩
    rintro ⟨span, text, h⟩
    cases h

theorem compileTargets_judges (ps : List Script.Primary) (around : List Layer) :
    Judges (Site.Met builtins given) (ps.map fun p ↦ ⟨p.span, .target p, around⟩)
      (ps.mapM compileTarget) := by
  induction ps with
  | nil => exact fun _ hsite ↦ nomatch hsite
  | cons p rest ih =>
    rw [List.mapM_cons]
    exact (compileTarget_judges p around).bind fun target _ ↦
      ih.result fun targets ↦ target :: targets

/-- The names that compiled targets bring are those that the form introduces. -/
theorem mem_newNames {ps : List Script.Primary} {targets : List Target} {name : Bytes}
    (h : ps.mapM compileTarget = .ok targets) :
    name ∈ newNames targets ↔ ∃ span text, .variable span text ∈ ps ∧
      (Script.referenceOf text).isLocal = true ∧ (Script.referenceOf text).name = name := by
  induction ps generalizing targets with
  | nil =>
    cases h
    simp [newNames]
  | cons p rest ih =>
    rw [List.mapM_cons] at h
    obtain ⟨target, htarget, h⟩ := bind_ok h
    obtain ⟨others, hothers, h⟩ := bind_ok h
    cases h
    cases p with
    | «variable» span text =>
      obtain rfl : ⟨span, (splitRest text).1, Script.referenceOf text⟩ = target :=
        Except.ok.inj htarget
      have hrest := ih hothers
      unfold newNames at hrest ⊢
      rw [List.filter_cons]
      split
      · rename_i hlocal
        rw [List.map_cons, List.mem_cons, hrest]
        constructor
        · rintro (rfl | ⟨span', text', hmem, h⟩)
          · exact ⟨span, text, List.mem_cons_self, hlocal, rfl⟩
          · exact ⟨span', text', List.mem_cons_of_mem _ hmem, h⟩
        · rintro ⟨span', text', hmem, hlocal', hname⟩
          rcases List.mem_cons.mp hmem with heq | hmem
          · cases heq
            exact .inl hname.symm
          · exact .inr ⟨span', text', hmem, hlocal', hname⟩
      · rename_i hlocal
        rw [hrest]
        constructor
        · rintro ⟨span', text', hmem, h⟩
          exact ⟨span', text', List.mem_cons_of_mem _ hmem, h⟩
        · rintro ⟨span', text', hmem, hlocal', hname⟩
          rcases List.mem_cons.mp hmem with heq | hmem
          · cases heq
            exact absurd hlocal' hlocal
          · exact ⟨span', text', hmem, hlocal', hname⟩
    | _ => cases htarget

/-- The head of a command is an operand, unless it is a bareword. -/
theorem compileHead_eq {p : Script.Primary} (h : ∀ span text, p ≠ .bareword span text) :
    compileHead builtins names p =
      compilePrimary builtins names p >>= fun e ↦ .ok (.computed e) := by
  cases p with
  | bareword span text => exact absurd rfl (h span text)
  | quoted span text => simp only [compileHead, compilePrimary]; rfl
  | «variable» span text => simp only [compileHead, compilePrimary]
  | list span items => simp only [compileHead, compilePrimary, bind_assoc]; rfl
  | lambda span parameters body => simp only [compileHead, compilePrimary, bind_assoc]; rfl

/-- The names in scope after a form. -/
theorem mem_compileForm {form : Script.Form} {compiled : Form} {names' : List Bytes} {name : Bytes}
    (h : compileForm builtins names form = .ok (compiled, names')) :
    name ∈ names' ↔ form.Introduces name ∨ name ∈ names := by
  obtain ⟨span, targets, head, arguments, redirections⟩ := form
  cases targets with
  | nil =>
    obtain ⟨_, _, _, -, -, -, -, rfl⟩ := compileForm_command h
    simp [Script.Form.Introduces]
  | cons target targets =>
    obtain ⟨_, compiledTargets, -, htargets, -, rfl⟩ := compileForm_assignment h
    rw [List.mem_append, mem_newNames htargets]
    rfl

/-- The names in scope after forms of a pipeline. -/
theorem mem_names_compileForms {forms : List Script.Form} {compiled : List Form}
    {names' : List Bytes} {name : Bytes}
    (h : compileForms builtins names forms = .ok (compiled, names')) :
    name ∈ names' ↔ (∃ form ∈ forms, form.Introduces name) ∨ name ∈ names := by
  induction forms generalizing names compiled with
  | nil =>
    rw [compileForms] at h
    cases h
    simp
  | cons form rest ih =>
    obtain ⟨first, between, others, hfirst, hothers, rfl⟩ := compileForms_cons h
    rw [ih hothers, mem_compileForm hfirst]
    simp only [List.mem_cons, exists_eq_or_imp]
    rw [← or_assoc, or_comm (b := form.Introduces name)]

mutual

theorem compilePrimary_judges : ∀ {names : List Bytes} {around : List Layer},
    Tracks given around names → ∀ p : Script.Primary,
      Judges (Site.Met builtins given) (p.sites around) (compilePrimary builtins names p)
  | _, _, _, .bareword _ _ => by
    rw [compilePrimary, Script.Primary.sites]
    exact fun _ hsite ↦ nomatch hsite
  | _, _, _, .quoted _ _ => by
    rw [compilePrimary, Script.Primary.sites]
    exact fun _ hsite ↦ nomatch hsite
  | _, _, hnames, .variable span text => by
    rw [compilePrimary, Script.Primary.sites]
    exact compileVariable_judges hnames span text
  | _, _, hnames, .list _ items => by
    rw [compilePrimary, Script.Primary.sites]
    exact (compilePrimaries_judges hnames items).result Expr.list
  | _, _, hnames, .lambda span parameters body => by
    rw [compilePrimary, Script.Primary.sites]
    exact (compileBody_judges (hnames.lambda parameters) span body).result (Expr.lambda parameters)

theorem compilePrimaries_judges : ∀ {names : List Bytes} {around : List Layer},
    Tracks given around names → ∀ ps : List Script.Primary,
      Judges (Site.Met builtins given) (Script.primariesSites around ps)
        (compilePrimaries builtins names ps)
  | _, _, _, [] => by
    rw [compilePrimaries, Script.primariesSites]
    exact fun _ hsite ↦ nomatch hsite
  | _, _, hnames, p :: rest => by
    rw [compilePrimaries, Script.primariesSites]
    exact (compilePrimary_judges hnames p).bind fun e _ ↦
      (compilePrimaries_judges hnames rest).result fun es ↦ e :: es

theorem compileBody_judges : ∀ {names : List Bytes} {around : List Layer},
    Tracks given around names → ∀ (span : Span) (body : Option Script.Chunk),
      Judges (Site.Met builtins given) (Script.bodySites around body)
        (compileBody builtins names span body)
  | _, _, _, span, none => by
    rw [compileBody, Script.bodySites]
    exact fun _ hsite ↦ nomatch hsite
  | _, _, hnames, span, some chunk => by
    rw [compileBody, Script.bodySites]
    exact compileChunk_judges hnames chunk

theorem compileRedirections_judges : ∀ {names : List Bytes} {around : List Layer},
    Tracks given around names → ∀ rs : List Script.Redirection,
      Judges (Site.Met builtins given) (Script.redirectionsSites around rs)
        (compileRedirections builtins names rs)
  | _, _, _, [] => by
    rw [compileRedirections, Script.redirectionsSites]
    exact fun _ hsite ↦ nomatch hsite
  | names, around, hnames, .mk span destination mode target :: rest => by
    have hfirst : Judges (Site.Met builtins given)
        (Script.Redirection.sites around (.mk span destination mode target))
        (compileRedirection builtins names (.mk span destination mode target)) := by
      rw [Script.Redirection.sites]
      cases destination with
      | negSucc number =>
        rw [compileRedirection]
        exact ⟨[], _, _, rfl, nofun, (Int.negSucc_not_nonneg number).mp, rfl⟩
      | ofNat number =>
        have hdestination : Judges (Site.Met builtins given)
            [⟨span, .destination (.ofNat number), around⟩] (.ok () : Except Error Unit) :=
          .single (fun _ _ ↦ Int.natCast_nonneg number) nofun
        rw [compileRedirection]
        exact hdestination.bind fun _ _ ↦
          (compilePrimary_judges hnames target).result (Redirection.mk span number mode)
    rw [compileRedirections, Script.redirectionsSites]
    exact hfirst.bind fun r _ ↦
      (compileRedirections_judges hnames rest).result fun rs ↦ r :: rs

theorem compileForm_judges : ∀ {names : List Bytes} {around : List Layer},
    Tracks given around names → ∀ form : Script.Form,
      Judges (Site.Met builtins given) (form.sites around) (compileForm builtins names form)
  | names, around, hnames, .mk span [] head arguments redirections => by
    have hhead : Judges (Site.Met builtins given) (head.sites around)
        (compileHead builtins names head) := by
      by_cases hbare : ∃ span text, head = .bareword span text
      · obtain ⟨span', text, rfl⟩ := hbare
        rw [compileHead, Script.Primary.sites]
        exact fun _ hsite ↦ nomatch hsite
      · rw [compileHead_eq fun span text h ↦ hbare ⟨span, text, h⟩]
        exact (compilePrimary_judges hnames head).result Head.computed
    rw [compileForm, Script.Form.sites, List.append_assoc]
    exact hhead.bind fun head _ ↦ (compilePrimaries_judges hnames arguments).bind fun arguments _ ↦
      (compileRedirections_judges hnames redirections).result fun redirections ↦
        (Form.command span head arguments redirections, names)
  | names, around, hnames, .mk span (target :: targets) head arguments redirections => by
    rw [compileForm, Script.Form.sites]
    exact (compilePrimaries_judges hnames arguments).bind fun values _ ↦
      (compileTargets_judges (target :: targets) around).result fun targets ↦
        (Form.assignment span values targets, newNames targets ++ names)

theorem compileForms_judges : ∀ {names : List Bytes} {around : List Layer}
    {earlier : List Script.Form}, Tracks given (.chunk earlier :: around) names →
      ∀ forms : List Script.Form, Judges (Site.Met builtins given)
        (Script.formsSites around earlier forms) (compileForms builtins names forms)
  | _, _, _, _, [] => by
    rw [compileForms, Script.formsSites]
    exact fun _ hsite ↦ nomatch hsite
  | names, around, earlier, hnames, form :: rest => by
    rw [compileForms, Script.formsSites]
    refine (compileForm_judges hnames form).bind fun (compiled, between) hform ↦ ?_
    have hbetween : Tracks given (.chunk (earlier ++ [form]) :: around) between :=
      hnames.forms fun name ↦ by simpa using mem_compileForm hform
    exact (compileForms_judges hbetween rest).result fun (others, after) ↦
      (compiled :: others, after)

theorem compilePipelines_judges : ∀ {names : List Bytes} {around : List Layer}
    {earlier : List Script.Form}, Tracks given (.chunk earlier :: around) names →
      ∀ pipelines : List Script.Pipeline, Judges (Site.Met builtins given)
        (Script.pipelinesSites around earlier pipelines) (compilePipelines builtins names pipelines)
  | _, _, _, _, [] => by
    rw [compilePipelines, Script.pipelinesSites]
    exact fun _ hsite ↦ nomatch hsite
  | names, around, earlier, hnames, .mk span forms :: rest => by
    rw [compilePipelines, Script.pipelinesSites, compilePipeline]
    refine (compileForms_judges hnames forms).bind fun (compiled, between) hforms ↦ ?_
    have hbetween : Tracks given (.chunk (earlier ++ forms) :: around) between :=
      hnames.forms fun name ↦ mem_names_compileForms hforms
    exact (compilePipelines_judges hbetween rest).result fun others ↦ compiled :: others

theorem compileChunk_judges : ∀ {names : List Bytes} {around : List Layer},
    Tracks given around names → ∀ chunk : Script.Chunk,
      Judges (Site.Met builtins given) (chunk.sites around) (compileChunk builtins names chunk)
  | _, _, hnames, .mk span pipelines => by
    rw [compileChunk, Script.Chunk.sites]
    exact (compilePipelines_judges hnames.chunk pipelines).result (Block.mk span)

end

/-- A chunk compiles exactly if every node that is checked in it meets its demand.  The error of any
other chunk is of kind `Compile` and is blamed on the first node, in the order of the source, that
does not. -/
theorem ofScript_accepts (scope builtins : List Bytes) (chunk : Script.Chunk) :
    ((∃ code, ofScript scope builtins chunk = .ok code) ↔
      ∀ site ∈ chunk.sites [], site.Met builtins scope) ∧
    ∀ e, ofScript scope builtins chunk = .error e ↔
      ∃ before site after, chunk.sites [] = before ++ site :: after ∧
        (∀ earlier ∈ before, earlier.Met builtins scope) ∧ ¬site.Met builtins scope ∧
          e = ⟨.compile, site.demand.message, some site.span⟩ := by
  have hjudges :
      Judges (Site.Met builtins scope) (chunk.sites []) (ofScript scope builtins chunk) :=
    compileChunk_judges (fun name ↦ by simp) chunk
  exact ⟨hjudges.ok_iff, hjudges.error_iff⟩

end Code

end Conduit
