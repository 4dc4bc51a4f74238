import Conduit.Proofs.Bindings.Shell
import Conduit.Proofs.Evolution
import Conduit.Proofs.Persistent.Binding
import Conduit.Proofs.Rules.Shell
import Conduit.Proofs.SearchPath

/-!
# The Search Path in Every State

A shell starts with the variable of the search path bound among the builtins.  Nothing that is
evaluated binds the name to another variable or puts another variable in its place, and the environment
stays one that a process can have.  In every state that a shell reaches, by evaluations, uses of
modules, assignments from outside and other changes by its host, the variable and the environment are
therefore two views of one text.
-/

namespace Conduit

open World (Binds Onward)

/-! ## Relations between states -/

namespace World

/-- The environment stays proper. -/
def StaysProper (w w' : World) : Prop := w.environment.Proper → w'.environment.Proper

instance : Liberal StaysProper where
  refl _ h := h
  trans _ _ _ h h' := h' ∘ h
  calm h := h.environment
  handles h := h.environment
  note _ _ _ h := h
  newScope _ _ h := h
  failedLoad _ _ h := h
  load _ _ _ h := h
  define _ _ _ _ h := h

instance : Mobile StaysProper where
  move _ _ h := h

/-- Names stay bound to the variables to which they are bound. -/
def StaysBound (w w' : World) : Prop :=
  ∀ scope name id, (w.scope scope).lookup name = some id →
    (w'.scope scope).lookup name = some id

instance : Std.Refl StaysBound := ⟨fun _ _ _ _ h ↦ h⟩

instance : IsTrans World StaysBound := ⟨fun _ _ _ h h' _ _ _ hid ↦ h' _ _ _ (h _ _ _ hid)⟩

variable {w w' : World}

theorem StaysBound.of_scopes (h : w'.scopes = w.scopes) : StaysBound w w' := by
  intro scope name id hid
  rwa [World.scope, h]

/-- A name is bound in a scope to a certain variable. -/
def BoundTo (w : World) (scope : ScopeId) (name : Bytes) (x : Variable) : Prop :=
  ∃ id, (w.scope scope).lookup name = some id ∧ w.vars.get? id = some x

/-- The variable of the search path is not replaced where it stays bound. -/
theorem BoundTo.later {scope : ScopeId} {name : Bytes} (h : w.BoundTo scope name .paths)
    (hbound : StaysBound w w') (honward : Onward w w') : w'.BoundTo scope name .paths := by
  obtain ⟨id, hid, hx⟩ := h
  obtain ⟨x, hx', hbecomes⟩ := honward.vars id _ hx
  cases hbecomes
  exact ⟨id, hbound _ _ _ hid, hx'⟩

end World

/-- Rules that allow everything. -/
def Rules.lax : Rules where
  past := []
  fits _ _ := True
  known _ _ := True
  blames _ _ := True
  absent := True
  fits_whole _ := trivial
  known_append _ _ := trivial
  known_body _ _ _ := trivial
  blames_append _ _ := trivial
  blames_fits _ _ := trivial

theorem Value.obeys_lax (v : Value) (journal : List Event) : v.Obeys .lax journal :=
  ⟨fun _ _ ↦ ⟨trivial, fun _ _ ↦ trivial⟩, .inl trivial⟩

namespace Shell

open Eval (run resolve)
open World (StaysProper StaysBound BoundTo ShowsPath)

variable {w w' : World}

/-! ## Starting -/

theorem bind_boundTo {scope : ScopeId} (hscope : scope < w.scopes.size) (name : Bytes)
    (x : Variable) : (bind scope w (name, x)).BoundTo scope name x := by
  refine ⟨w.vars.size, ?_, Table.get?_push_size _ _⟩
  exact (World.lookup_scope_define _ _ _ _ _ _).trans (if_pos ⟨rfl, rfl, hscope⟩)

theorem foldl_bind_boundTo {scope : ScopeId} {name : Bytes} {x : Variable}
    {entries : List (Bytes × Variable)} (hname : ∀ entry ∈ entries, entry.1 ≠ name)
    (h : w.BoundTo scope name x) : (entries.foldl (bind scope) w).BoundTo scope name x := by
  induction entries generalizing w with
  | nil => exact h
  | cons entry rest ih =>
    obtain ⟨hentry, hrest⟩ := List.forall_mem_cons.mp hname
    obtain ⟨id, hid, hx⟩ := h
    refine ih hrest ⟨id, ?_, (Table.get?_push_of_lt (Table.lt_size_of_get? hx)).trans hx⟩
    refine (World.lookup_scope_define _ _ _ _ _ _).trans ?_
    rw [if_neg fun h ↦ hentry h.2.1.symm]
    exact hid

theorem standardStreams_boundTo {scope : ScopeId} {name : Bytes} {x : Variable}
    (h : w.BoundTo scope name x) : (standardStreams w).BoundTo scope name x := h

/-- A shell starts with the search path among the builtins. -/
theorem start_boundTo (w : World) : (start w).BoundTo World.builtins (utf8 "paths") .paths := by
  have hfunctions : ∀ builtins : List Builtin, ∀ entry ∈ builtins.map builtinVariable,
      entry.1 ≠ utf8 "paths" := by
    intro builtins entry hentry
    obtain ⟨b, -, rfl⟩ := List.mem_map.mp hentry
    intro heq
    exact absurd (List.cons.inj heq).1 (by decide)
  let bare : World := { w with scopes := ⟨[{}, {}]⟩ }
  have hscope : World.builtins < bare.scopes.size := Nat.one_lt_two
  have hfirst := bind_boundTo hscope (utf8 "paths") .paths
  rw [start]
  refine standardStreams_boundTo ?_
  rw [builtinVariables, List.foldl_cons]
  exact foldl_bind_boundTo (hfunctions _) hfirst

/-! ## Evaluating -/

theorem staysBound_eval (setup : Setup) (fuel : Nat) (name text : Bytes) (chunk : Script.Chunk)
    (endpoints : List (Option EndpointId)) :
    (eval setup fuel name text chunk endpoints).Keeps StaysBound := by
  intro w
  rcases hcompile : compile w chunk with e | code
  · rw [eval, Act.world_bind, hcompile]
    exact refl_of StaysBound w
  · rw [eval, Act.world_bind, hcompile]
    have hnew : Binds (ownAssignments chunk) w (w.newScope {}).2 := .newScope {} w
    exact (hnew.trans (binds_code setup fuel hcompile _ rfl _ _)).kept

theorem staysBound_use (setup : Setup) (fuel : Nat) (ctx : Context) (name : Bytes) :
    (Eval.use (run setup fuel) ctx name).Keeps StaysBound :=
  fun w ↦ (Eval.keeps_use ((Eval.binds_run setup fuel).inContext ctx) name w).kept

/-! ## Histories -/

/-- Variables and scopes are as they were, events may have been noted, and the environment stays
proper. -/
structure Tends (w w' : World) : Prop where
  vars : w'.vars = w.vars
  scopes : w'.scopes = w.scopes
  journal : w.journal <+: w'.journal
  environment : StaysProper w w'

/-- A host that assigns values to places and changes what else there is but variables and scopes. -/
def assigning : Regime where
  host w w' := Tends w w' ∨
    ∃ place v, w.Located place ∧ w' = (Act.writePlace place v w).2

theorem assigning_proper (h : assigning.host w w') : StaysProper w w' := by
  rcases h with h | ⟨place, v, -, rfl⟩
  · exact h.environment
  · have hcalm : w.Calm (fun _ ↦ True) (Act.writePlace place v w).2 :=
      Act.calm_writePlace place (by simp) w
    exact hcalm.environment

theorem assigning_bound (h : assigning.host w w') : StaysBound w w' := by
  rcases h with h | ⟨place, v, -, rfl⟩
  · exact .of_scopes h.scopes
  · have hcalm : w.Calm (fun _ ↦ True) (Act.writePlace place v w).2 :=
      Act.calm_writePlace place (by simp) w
    exact .of_scopes hcalm.scopes

theorem assigning_obeys : assigning.Obeys .lax where
  host h hw := by
    rcases h with h | ⟨place, v, hplace, rfl⟩
    · exact ⟨hw.of_vars h.journal h.vars h.scopes fun v _ ↦ .inr (v.obeys_lax _),
        .of_vars h.journal h.vars⟩
    · have hwrite := Eval.complies_writePlace ⟨hw, trivial⟩ hplace (v.obeys_lax _)
      exact ⟨hwrite.obeys.toLawful, hwrite.onward⟩
  setup _ _ _ _ _ _ _ _ := trivial
  chunk _ _ _ := trivial

/-- In every state that a shell reaches, the search path is where it was and the environment is
proper. -/
theorem Evolves.paths {w₀ : World} (hvars : w₀.vars = .empty) (hproper : w₀.environment.Proper)
    (h : Evolves assigning (start w₀) w) :
    w.environment.Proper ∧ w.BoundTo World.builtins (utf8 "paths") .paths := by
  have hstart : (start w₀).Lawful .lax :=
    lawful_start hvars List.nil_prefix fun v _ ↦ v.obeys_lax _
  have honward : Onward (start w₀) w :=
    (h.lawful (fun _ _ ↦ trivial) (fun _ _ ↦ trivial) assigning_obeys hstart).2
  have hbound : StaysBound (start w₀) w :=
    h.keeps (fun _ _ ↦ assigning_bound) staysBound_eval staysBound_use
  have henvironment : StaysProper (start w₀) w :=
    h.keeps (fun _ _ ↦ assigning_proper) keeps_eval keeps_use
  refine ⟨henvironment ?_, (start_boundTo w₀).later hbound honward⟩
  rwa [start_environment]

/-! ## References -/

theorem resolve_paths {id : VariableId}
    (hid : (w.scope World.builtins).lookup (utf8 "paths") = some id) (go : Eval.Runner)
    (ctx : Context) :
    resolve go ctx (utf8 "builtin") (utf8 "paths") w = (.done (some (.bound id)), w) := by
  have hresolve : resolve go ctx (utf8 "builtin") (utf8 "paths") w =
      (.done (((w.scope World.builtins).lookup (utf8 "paths")).map .bound), w) := rfl
  rw [hresolve, hid]
  rfl

theorem resolve_environment {qualifier : Bytes} (h : Eval.isEnvironment qualifier = true)
    (go : Eval.Runner) (ctx : Context) (w : World) :
    resolve go ctx qualifier (utf8 "PATH") w = (.done (some (.env (utf8 "PATH"))), w) := by
  have hqualifier : qualifier = utf8 "env" ∨ qualifier = utf8 "external" ∨
      qualifier = utf8 "e" ∨ qualifier = utf8 "E" := by
    simpa [Eval.isEnvironment] using h
  rcases hqualifier with rfl | rfl | rfl | rfl <;> rfl

/-- In every state that a shell reaches, references to the search path among the builtins lead to one
place and those to `PATH` in the environment to another, and the two show the same text.  At the
first place a function, a list with an item that is no text and a list with a colon in some item are
refused with an error of the kind for types, and the state stays as it is.  Any other value without
zero bytes is taken, and its directories are shown afterwards; so is a text that is given to `PATH`.
What the search path reads as can be given to it and is read again. -/
theorem paths_and_environment_agree {w₀ : World} (hvars : w₀.vars = .empty)
    (hproper : w₀.environment.Proper) (h : Evolves assigning (start w₀) w) :
    ∃ place,
      (∀ go ctx, resolve go ctx (utf8 "builtin") (utf8 "paths") w = (.done (some place), w)) ∧
      (∀ go ctx qualifier, Eval.isEnvironment qualifier = true →
        resolve go ctx qualifier (utf8 "PATH") w = (.done (some (.env (utf8 "PATH"))), w)) ∧
      (∃ text directories, w.ShowsPath place text directories) ∧
      (∀ v : Value, v.RefusedByPaths →
        ∃ e, Act.writePlace place v w = (.raised e, w) ∧ e.kind = .type) ∧
      (∀ v : Value, v ≠ .absent → v.ZeroFree → ¬v.RefusedByPaths →
        ∃ w' text directories, Act.writePlace place v w = (.done (), w') ∧
          v.Directories directories ∧ w'.ShowsPath place text directories) ∧
      (∀ content : Bytes, 0 ∉ content →
        ∃ w' directories,
          Act.writePlace (.env (utf8 "PATH")) (.text content) w = (.done (), w') ∧
            w'.ShowsPath place content directories) ∧
      ∀ v, Act.readPlace place w = (.done v, w) →
        ∃ w', Act.writePlace place v w = (.done (), w') ∧
          Act.readPlace place w' = (.done v, w') := by
  obtain ⟨henvironment, id, hid, hx⟩ := h.paths hvars hproper
  have hplace : w.variableAt (.bound id) = .paths := by
    change (w.vars.get? id).getD default = .paths
    rw [hx]
    rfl
  refine ⟨.bound id, resolve_paths hid, fun go ctx qualifier hqualifier ↦
    resolve_environment hqualifier go ctx w, ⟨_, _, Act.showsPath hplace⟩, fun v hv ↦
    Act.writePlace_refused hplace hv, fun v habsent hzero hv ↦
    Act.writePlace_accepted henvironment hplace habsent hzero hv, fun content hcontent ↦
    Act.writePlace_environment henvironment hplace hcontent, fun v hv ↦
    Act.writePlace_own henvironment hplace hv⟩

/-- A world with two directories in its search path, and with more colons than it takes to tell them
apart. -/
def twoDirectories : World := { environment := ⟨[(utf8 "PATH", utf8 "/bin::/sbin:")]⟩ }

theorem paths_and_environment_agree_twoDirectories :
    twoDirectories.vars = .empty ∧ twoDirectories.environment.Proper ∧
      ∃ place,
        Act.readPlace place (start twoDirectories) =
          (.done (.list [.text (utf8 "/bin"), .text (utf8 "/sbin")]), start twoDirectories) ∧
        (∃ e, Act.writePlace place (.list [.text (utf8 "/a"), .text (utf8 "b:c")])
          (start twoDirectories) = (.raised e, start twoDirectories) ∧ e.kind = .type) ∧
        ∃ w, Act.writePlace place (.list [.text (utf8 "/a"), .text [], .text (utf8 "/b")])
            (start twoDirectories) = (.done (), w) ∧
          Act.readPlace place w = (.done (.list [.text (utf8 "/a"), .text (utf8 "/b")]), w) := by
  have hproper : twoDirectories.environment.Proper := ⟨by decide, by decide⟩
  obtain ⟨place, -, -, ⟨text, directories, hshown⟩, hrefused, haccepted, -⟩ :=
    paths_and_environment_agree rfl hproper (.refl (start twoDirectories))
  have hcolon : (Value.list ([utf8 "/a", utf8 "b:c"].map .text)).RefusedByPaths :=
    Value.refusedByPaths_list.mpr (by decide)
  refine ⟨rfl, hproper, place, ?_, hrefused _ hcolon, ?_⟩
  · have hdirectories : directories = [utf8 "/bin", utf8 "/sbin"] := by
      rw [hshown.directories_eq, World.searchPath, start_environment]
      decide
    rw [hshown.paths, hdirectories]
    rfl
  · have hfree : (Value.list ([utf8 "/a", [], utf8 "/b"].map .text)).ZeroFree :=
      Value.zeroFree_list.mpr (by decide)
    have htaken : ¬(Value.list ([utf8 "/a", [], utf8 "/b"].map .text)).RefusedByPaths := by
      rw [Value.refusedByPaths_list]
      decide
    obtain ⟨w, text, directories, hwrite, hdirectories, hlater⟩ :=
      haccepted _ (by simp) hfree htaken
    have hkept : directories = [utf8 "/a", utf8 "/b"] := by
      rw [hdirectories.eq_filter]
      decide
    refine ⟨w, hwrite, ?_⟩
    rw [hlater.paths, hkept]
    rfl

end Shell

end Conduit
