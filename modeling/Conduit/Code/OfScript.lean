import Conduit.Code
import Conduit.Script

/-!
# Compiling Scripts

Compiling checks what can be known before anything runs.  An unqualified variable must be a builtin
name or a name in scope: one given from outside, a parameter of an enclosing lambda, or a target
assigned earlier in the same block or in an enclosing one.  The head of a command is not checked
when it is a bareword.  The first offence in traversal order is reported; an assignment has its
values checked before its targets, and a redirection its destination before its target.
-/

namespace Conduit.Code

open Script (Primary Pipeline Chunk)

/-- A compile error blamed on a span. -/
def compileError (span : Span) (message : Bytes) : Error := ⟨.compile, message, some span⟩

/-- The message about a variable that is not there. -/
def notFound (reference : Reference) : Bytes :=
  utf8 "variable $" ++ reference.full ++ utf8 " not found"

/-- The expression for a variable, if the names in scope have it. -/
def compileVariable (builtins names : List Bytes) (span : Span) (text : Bytes) :
    Except Error Expr :=
  let (splice, full) := splitRest text
  let reference := Reference.ofText full
  if reference.isPlain && !builtins.contains reference.name && !names.contains reference.name then
    .error (compileError span (notFound reference))
  else .ok (.variable span splice reference)

/-- The target that an operand denotes. -/
def compileTarget : Primary → Except Error Target
  | .variable span text =>
    let (rest, full) := splitRest text
    .ok ⟨span, rest, Reference.ofText full⟩
  | other => .error (compileError other.span (utf8 "assignment target must be a variable"))

/-- The names that an assignment brings into scope. -/
def newNames (targets : List Target) : List Bytes :=
  (targets.filter fun target => target.reference.isLocal).map fun target => target.reference.name

mutual

/-- Compiles an operand. -/
def compilePrimary (builtins names : List Bytes) : Primary → Except Error Expr
  | .bareword _ text => .ok (.text text)
  | .quoted _ text => .ok (.text text)
  | .variable span text => compileVariable builtins names span text
  | .list _ items => do .ok (.list (← compilePrimaries builtins names items))
  | .lambda span parameters body => do
    .ok (.lambda parameters (← compileBody builtins (parameters ++ names) span body))

/-- Compiles operands from left to right. -/
def compilePrimaries (builtins names : List Bytes) : List Primary → Except Error (List Expr)
  | [] => .ok []
  | p :: rest => do
    let e ← compilePrimary builtins names p
    .ok (e :: (← compilePrimaries builtins names rest))

/-- Compiles the body of a lambda.  Without a body the lambda does nothing. -/
def compileBody (builtins names : List Bytes) (span : Span) : Option Chunk → Except Error Block
  | none => .ok (.mk span [])
  | some chunk => compileChunk builtins names chunk

/-- Compiles the head of a command. -/
def compileHead (builtins names : List Bytes) : Primary → Except Error Head
  | .bareword _ text => .ok (.named (Reference.ofText text))
  | .quoted _ text => .ok (.computed (.text text))
  | .variable span text => do .ok (.computed (← compileVariable builtins names span text))
  | .list _ items => do .ok (.computed (.list (← compilePrimaries builtins names items)))
  | .lambda span parameters body => do
    .ok (.computed (.lambda parameters (← compileBody builtins (parameters ++ names) span body)))

/-- Compiles one redirection. -/
def compileRedirection (builtins names : List Bytes) :
    Script.Redirection → Except Error Redirection
  | .mk span (.ofNat destination) mode target => do
    .ok (.mk span destination mode (← compilePrimary builtins names target))
  | .mk span (.negSucc _) _ _ =>
    .error (compileError span (utf8 "bad redirection destination"))

/-- Compiles redirections from left to right. -/
def compileRedirections (builtins names : List Bytes) :
    List Script.Redirection → Except Error (List Redirection)
  | [] => .ok []
  | r :: rest => do
    let compiled ← compileRedirection builtins names r
    .ok (compiled :: (← compileRedirections builtins names rest))

/-- Compiles a form, with the names in scope after it. -/
def compileForm (builtins names : List Bytes) : Script.Form → Except Error (Form × List Bytes)
  | .mk span [] head arguments redirections => do
    let head ← compileHead builtins names head
    let arguments ← compilePrimaries builtins names arguments
    let redirections ← compileRedirections builtins names redirections
    .ok (.command span head arguments redirections, names)
  | .mk span (target :: targets) _ arguments _ => do
    let values ← compilePrimaries builtins names arguments
    let targets ← (target :: targets).mapM compileTarget
    .ok (.assignment span values targets, newNames targets ++ names)

/-- Compiles forms from left to right, with the names in scope after them. -/
def compileForms (builtins names : List Bytes) :
    List Script.Form → Except Error (List Form × List Bytes)
  | [] => .ok ([], names)
  | form :: rest => do
    let (compiled, names) ← compileForm builtins names form
    let (others, names) ← compileForms builtins names rest
    .ok (compiled :: others, names)

/-- Compiles a pipeline, with the names in scope after it. -/
def compilePipeline (builtins names : List Bytes) :
    Pipeline → Except Error (List Form × List Bytes)
  | .mk _ forms => compileForms builtins names forms

/-- Compiles pipelines from left to right. -/
def compilePipelines (builtins names : List Bytes) :
    List Pipeline → Except Error (List (List Form))
  | [] => .ok []
  | pipeline :: rest => do
    let (forms, names) ← compilePipeline builtins names pipeline
    .ok (forms :: (← compilePipelines builtins names rest))

/-- Compiles a chunk. -/
def compileChunk (builtins names : List Bytes) : Chunk → Except Error Block
  | .mk span pipelines => do .ok (.mk span (← compilePipelines builtins names pipelines))

end

/-- The code of a chunk, in a scope and beside the builtin names. -/
def ofScript (scope builtins : List Bytes) (chunk : Chunk) : Except Error Block :=
  compileChunk builtins scope chunk

end Conduit.Code
