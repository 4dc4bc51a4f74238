import Conduit.Proofs.Evolution
import Conduit.Proofs.Modules
import Conduit.Proofs.Quiet

/-!
# How Loads Come to an End

A load comes back with the module registered, raises an error that names the module, lets a foreign
exception through, or does not come back because the evaluation of a module body does not.  Loads are
not kept from being loaded again while they are in progress: a module that refers to itself is loaded
in a load of itself without end.  Where the modules that a history loads do not import each other in
a cycle, the loads in progress are of different modules at every moment.
-/

namespace Conduit

open World (Loads)
open Event (Nested begun nest Acyclic)

/-! ## Actions that do not come to an end -/

namespace Act

variable {α β : Type} {act : Act α} {next : α → Act β} {w w' : World} {reason : Halt}

theorem halted_of_bind_done {a : α} (h : act w = (.done a, w'))
    (hn : (next a w').1 = .halted reason) : ((act >>= next) w).1 = .halted reason := by
  rw [bind_of_done h]
  exact hn

theorem halted_bind (h : (act w).1 = .halted reason) : ((act >>= next) w).1 = .halted reason := by
  rw [bind_apply]
  rcases hact : act w with ⟨_ | _ | _ | _, w₁⟩ <;> rw [hact] at h <;> cases h
  rfl

theorem halted_attempt {act : Act Unit} (h : (act w).1 = .halted reason) :
    (act.attempt w).1 = .halted reason := by
  unfold attempt
  rcases hact : act w with ⟨_ | _ | _ | _, w₁⟩ <;> rw [hact] at h <;> cases h
  rfl

end Act

namespace Eval

variable {α β : Type} {setup : Setup} {go : Runner} {ctx : Context} {name : Bytes} {w : World}

/-! ## How loads end -/

/-- What the load of a module, begun in one state, evaluates in another one: code for the text of the
module file, in a context that knows the file, the text and the chunk. -/
structure IsBody (setup : Setup) (w : World) (name : Bytes) (ctx : Context) (code : Code.Block)
    (v : World) : Prop where
  source : ctx.name = moduleFile setup name
  read : ∃ text, readSource w.files w.directory (moduleFile setup name) = ⟨none, text⟩ ∧
    text.getD [] = ctx.text
  parsed : ∃ parser, setup.parser = some parser ∧ parser ctx.text = .ok ctx.chunk
  compiled : Code.ofScript [] (w.scope World.builtins).names ctx.chunk = .ok code
  modules : v.modules = w.modules
  journal : v.journal = w.journal ++ [.loadBegan name, .bodyBegan name ctx.text]

/-- How a load may end that begins in a state.  It raises nothing but errors that say why the module
cannot be loaded, and for the rest it ends like its body. -/
inductive LoadEnds (setup : Setup) (go : Runner) (w : World) (name : Bytes) : Outcome α → Prop
  | done (a : α) : LoadEnds setup go w name (.done a)
  | raised (why : Bytes) : LoadEnds setup go w name (.raised (loadError name why))
  | foreign {ctx : Context} {code : Code.Block} {v : World} {what : Bytes} :
      IsBody setup w name ctx code v → (evalBlock go ctx code v).1 = .foreign what →
        LoadEnds setup go w name (.foreign what)
  | halted {ctx : Context} {code : Code.Block} {v : World} {reason : Halt} :
      IsBody setup w name ctx code v → (evalBlock go ctx code v).1 = .halted reason →
        LoadEnds setup go w name (.halted reason)

namespace LoadEnds

variable {act : Act α} {next : α → Act β} {v : World}

theorem bind (h : LoadEnds setup go w name (act v).1)
    (hn : ∀ a v', act v = (.done a, v') → LoadEnds setup go w name (next a v').1) :
    LoadEnds setup go w name ((act >>= next) v).1 := by
  rw [Act.bind_apply]
  rcases hact : act v with ⟨a | e | what | reason, v'⟩ <;> rw [hact] at h
  case done => exact hn a v' hact
  all_goals
    cases h
    constructor
    all_goals assumption

/-- The body itself, once its errors have been caught. -/
theorem attempt {ctx : Context} {code : Code.Block} (h : IsBody setup w name ctx code v) :
    LoadEnds setup go w name ((evalBlock go ctx code).attempt v).1 := by
  unfold Act.attempt
  rcases hact : evalBlock go ctx code v with ⟨_ | e | what | reason, v'⟩
  · exact .done _
  · exact .done _
  · exact .foreign h (congrArg Prod.fst hact)
  · exact .halted h (congrArg Prod.fst hact)

end LoadEnds

theorem runModule_ends {text : Bytes} {chunk : Script.Chunk} {code : Code.Block} {v : World}
    (hbody : ∀ scope outer endpoints v', v'.modules = v.modules → v'.journal = v.journal →
      IsBody setup w name
        { name := moduleFile setup name, text, label := utf8 "module " ++ name, scope, outer,
          endpoints, chunk } code v') :
    LoadEnds setup go w name
      (runModule go ctx name (moduleFile setup name) text chunk code v).1 := by
  unfold runModule
  rw [Act.change_bind, Act.change_bind, Act.change_bind]
  refine .bind (.attempt (hbody _ _ _ _ ?_ ?_)) fun error v' _ ↦ ?_
  · exact (World.Handles.forkEndpoints _ ctx.endpoints).modules
  · exact (World.Handles.forkEndpoints _ ctx.endpoints).journal
  · split
    · exact .done _
    · exact .raised _

/-- A file that parses and compiles is evaluated, and then the module is registered. -/
theorem loadFile_of_code {name text : Bytes} {chunk : Script.Chunk} {code : Code.Block}
    {w w' : World} (hparse : parseModule setup name (moduleFile setup name) w =
      (.done (text, chunk), w'))
    (hcode : Code.ofScript [] (w'.scope World.builtins).names chunk = .ok code) :
    loadFile setup go ctx name w = (do
      Act.modify (World.note (.bodyBegan name text))
      let scope ← runModule go ctx name (moduleFile setup name) text chunk code
      Act.modify (register name scope) : Act Unit) w' := by
  unfold loadFile
  simp only [Act.bind_of_done hparse, Act.world_bind, hcode]

theorem loadFile_of_error {name text : Bytes} {chunk : Script.Chunk} {e : Error} {w w' : World}
    (hparse : parseModule setup name (moduleFile setup name) w = (.done (text, chunk), w'))
    (hcode : Code.ofScript [] (w'.scope World.builtins).names chunk = .error e) :
    loadFile setup go ctx name w =
      (.raised (loadError name (e.report (moduleFile setup name) text)), w') := by
  unfold loadFile
  simp only [Act.bind_of_done hparse, Act.world_bind, hcode]
  rfl

theorem loadFile_ends (setup : Setup) (go : Runner) (ctx : Context) (name : Bytes) (w : World) :
    LoadEnds setup go w name (loadFile setup go ctx name (w.note (.loadBegan name))).1 := by
  rcases parseModule_cases setup name (moduleFile setup name) (w.note (.loadBegan name)) with
    ⟨why, v, hparse⟩ | ⟨found, parser, chunk, hread, hparser, hchunk, hparse⟩
  · unfold loadFile
    rw [Act.bind_apply, hparse]
    exact .raised why
  · rcases hcode : Code.ofScript [] (w.scope World.builtins).names chunk with e | code
    · rw [loadFile_of_error hparse hcode]
      exact .raised _
    · rw [loadFile_of_code hparse hcode, Act.modify_bind]
      refine .bind (runModule_ends fun scope outer endpoints v hmodules hjournal ↦ ?_) fun _ _ _ ↦ .done _
      refine ⟨rfl, ⟨found, hread, rfl⟩, ⟨parser, hparser, hchunk⟩, hcode, hmodules, ?_⟩
      rw [hjournal]
      simp [World.note]

theorem loadModule_ends (setup : Setup) (go : Runner) (ctx : Context) (name : Bytes) (w : World) :
    LoadEnds setup go w name (loadModule setup go ctx name w).1 := by
  unfold loadModule
  split
  · exact .raised _
  · exact loadFile_ends setup go ctx name w

/-- How the use of a module may end, given the bound on nested requests: like a load with the bound
that is left in it, unless there is none left or nothing to load. -/
inductive UseEnds (setup : Setup) (w : World) (name : Bytes) : Nat → Outcome α → Prop
  | done {fuel : Nat} (a : α) : UseEnds setup w name fuel (.done a)
  | spent : UseEnds setup w name 0 (.halted .outOfFuel)
  | load {fuel : Nat} {outcome : Outcome α} : LoadEnds setup (run setup fuel) w name outcome →
      UseEnds setup w name (fuel + 1) outcome

/-- A registered module is not loaded. -/
theorem use_registered (go : Runner) (ctx : Context) {name : Bytes} {w : World}
    (h : (w.module? name).isSome) : use go ctx name w = (.done (), w) := by
  have hnone : (w.module? name).isNone = false := by rwa [Option.isNone_eq_false_iff]
  unfold use
  rw [Act.world_bind, hnone]
  rfl

theorem UseEnds.bind {act : Act α} {next : α → Act β} {fuel : Nat} {v : World}
    (h : UseEnds setup w name fuel (act v).1)
    (hn : ∀ a v', act v = (.done a, v') → UseEnds setup w name fuel (next a v').1) :
    UseEnds setup w name fuel ((act >>= next) v).1 := by
  rw [Act.bind_apply]
  rcases hact : act v with ⟨a | e | what | reason, v'⟩ <;> rw [hact] at h
  case done => exact hn a v' hact
  all_goals cases h
  case halted.spent => exact .spent
  case raised.load hload =>
    cases hload
    exact .load (.raised _)
  case foreign.load hload =>
    cases hload with
    | foreign hbody hwhat => exact .load (.foreign hbody hwhat)
  case halted.load hload =>
    cases hload with
    | halted hbody hreason => exact .load (.halted hbody hreason)

theorem use_ends (setup : Setup) (fuel : Nat) (ctx : Context) (name : Bytes) (w : World) :
    UseEnds setup w name fuel (use (run setup fuel) ctx name w).1 := by
  unfold use
  rw [Act.world_bind]
  split
  · cases fuel with
    | zero => exact .spent
    | succ fuel => exact .load (loadModule_ends setup (run setup fuel) ctx name w)
  · exact .done _

theorem loads_use (setup : Setup) (fuel : Nat) (ctx : Context) (name : Bytes) :
    (use (run setup fuel) ctx name).Keeps Loads :=
  Shell.keeps_use setup fuel ctx name

/-! ## References into modules -/

/-- Whether a qualifier is the name of a module. -/
def namesModule (qualifier : Bytes) : Bool :=
  !([utf8 "local", utf8 "up", utf8 "builtin", [], utf8 "shared"].contains qualifier ||
    isEnvironment qualifier)

/-- A reference into a module uses the module and then looks up the name in its scope. -/
theorem resolve_module (go : Runner) (ctx : Context) {qualifier : Bytes}
    (h : namesModule qualifier = true) (name : Bytes) :
    resolve go ctx qualifier name = (do
      use go ctx qualifier
      let w ← Act.world
      pure (((w.module? qualifier).bind fun id ↦ (w.scope id).lookup name).map .bound)) := by
  simp only [namesModule, List.contains_cons, List.contains_nil, Bool.or_false, Bool.not_eq_true',
    Bool.or_eq_false_iff, beq_eq_false_iff_ne, ne_eq] at h
  obtain ⟨⟨hlocal, hup, hbuiltin, hempty, hshared⟩, henvironment⟩ := h
  have hnonempty : qualifier.isEmpty = false := by simpa using hempty
  funext w
  unfold resolve
  rw [Act.world_bind, if_neg hlocal, if_neg hup, if_neg hbuiltin, hnonempty, henvironment]
  simp [hshared]

theorem resolve_registered (go : Runner) (ctx : Context) {qualifier : Bytes}
    (h : namesModule qualifier = true) (name : Bytes) {w : World} {id : ScopeId}
    (hid : w.module? qualifier = some id) :
    resolve go ctx qualifier name w = (.done (((w.scope id).lookup name).map .bound), w) := by
  have huse : use go ctx qualifier w = (.done (), w) := use_registered go ctx (by rw [hid]; rfl)
  rw [resolve_module go ctx h, Act.bind_of_done huse, Act.world_bind, hid]
  rfl

/-- A reference into a module ends like the use of the module. -/
theorem resolve_ends (setup : Setup) (fuel : Nat) (ctx : Context) {qualifier : Bytes}
    (h : namesModule qualifier = true) (name : Bytes) (w : World) :
    UseEnds setup w qualifier fuel (resolve (run setup fuel) ctx qualifier name w).1 := by
  rw [resolve_module _ _ h]
  exact (use_ends setup fuel ctx qualifier w).bind fun _ _ _ ↦ .done _

end Eval

/-! ## Histories -/

namespace World

/-- A host may register modules under new names, and notes nothing. -/
def Registers (w w' : World) : Prop :=
  (∀ name id, w.module? name = some id → w'.module? name = some id) ∧ w'.journal = w.journal

/-- Later on loads have nested, and what was registered still is and has not been loaded again. -/
def Proceeds (w w' : World) : Prop :=
  ∃ events, w'.journal = w.journal ++ events ∧ Nested events ∧
    ∀ name id, w.module? name = some id → w'.module? name = some id ∧ name ∉ begun events

namespace Proceeds

variable {w w' w'' : World}

theorem of_loads (h : Loads w w') : Proceeds w w' := by
  obtain ⟨events, hevents, hnested, hbegun, -⟩ := id h
  refine ⟨events, hevents, hnested, fun name id hname ↦ ⟨h.kept hname, fun hmem ↦ ?_⟩⟩
  rw [hbegun name hmem] at hname
  cases hname

theorem of_registers (h : Registers w w') : Proceeds w w' :=
  ⟨[], by rw [h.2, List.append_nil], .nil, fun name id hname ↦ ⟨h.1 name id hname, nofun⟩⟩

instance : Std.Refl Proceeds := ⟨fun w ↦ .of_loads (refl_of Loads w)⟩

instance : IsTrans World Proceeds where
  trans w w' w'' := by
    rintro ⟨events, hevents, hnested, hkept⟩ ⟨events', hevents', hnested', hkept'⟩
    refine ⟨events ++ events', ?_, hnested.append hnested', fun name id hname ↦ ?_⟩
    · rw [hevents', hevents, List.append_assoc]
    · obtain ⟨hname', hbegun⟩ := hkept name id hname
      obtain ⟨hname'', hbegun'⟩ := hkept' name id hname'
      rw [Event.begun_append, List.mem_append]
      exact ⟨hname'', not_or.mpr ⟨hbegun, hbegun'⟩⟩

end Proceeds

end World

namespace Shell

open Eval (run resolve namesModule UseEnds)
open World (Registers Proceeds)

/-- A shell whose host may register modules, with whatever setup and chunks. -/
def registering : Regime := { host := Registers }

theorem Evolves.proceeds {w w' : World} (h : Evolves registering w w') : Proceeds w w' :=
  h.keeps (fun _ _ ↦ .of_registers)
    (fun setup fuel name text chunk endpoints w ↦
      .of_loads (keeps_eval setup fuel name text chunk endpoints w))
    fun setup fuel ctx name w ↦ .of_loads (Eval.loads_use setup fuel ctx name w)

/-- A context without endpoints. -/
def bareContext : Context :=
  { name := [], text := [], label := [], scope := World.globals, outer := World.builtins,
    endpoints := [] }

/-- The text of a file that assigns an operand to `x`. -/
def assignX (value : Script.Primary) : Script.Chunk :=
  .mk ⟨0, 8⟩ [.mk ⟨0, 8⟩ [.mk ⟨0, 8⟩ [.variable ⟨0, 1⟩ (utf8 "x")] default [value] []]]

/-- A parser for the two texts below. -/
def pairParser : Parser := fun text ↦
  .ok (assignX (if text = utf8 "x = 1" then .bareword ⟨4, 5⟩ (utf8 "1")
    else .variable ⟨4, 8⟩ (utf8 "b:x")))

/-- A new shell that finds a module `a` which refers to a module `b`. -/
def pairWorld : World :=
  { Shell.start {} with
    files := ⟨⟨[.directory, .file (utf8 "x = $b:x") false, .file (utf8 "x = 1") false]⟩,
      [([], 0), ([utf8 "a.stsh"], 1), ([utf8 "b.stsh"], 2)]⟩ }

/-- The use of the first module. -/
def pairUse : Outcome Unit × World :=
  Eval.use (run { parser := some pairParser } 3) bareContext (utf8 "a") pairWorld

/-- The shell in which the first module has been used. -/
def pairUsed : World := pairUse.2

theorem begun_pairUsed : begun pairUsed.journal = [utf8 "a", utf8 "b"] := by
  decide +kernel

end Shell

namespace Eval

/-! ## A module that imports itself -/

/-- The text `x = $a:x`, which refers to the module `a`. -/
def selfImport : Script.Chunk := Shell.assignX (.variable ⟨4, 8⟩ (utf8 "a:x"))

/-- A shell that parses every text as that one. -/
def selfSetup : Setup := { parser := some fun _ ↦ .ok selfImport }

/-- A file tree with the file of the module `a`. -/
def selfFiles : Host.FileTree :=
  ⟨⟨[.directory, .file (utf8 "x = $a:x") false]⟩, [([], 0), ([utf8 "a.stsh"], 1)]⟩

/-- Code for such a chunk. -/
def selfCode : Code.Block :=
  .mk ⟨0, 8⟩ [[.assignment ⟨0, 8⟩ [.variable ⟨4, 8⟩ false (.ofText (utf8 "a:x"))]
    [⟨⟨0, 1⟩, false, .ofText (utf8 "x")⟩]]]

theorem selfImport_code (builtins : List Bytes) :
    Code.ofScript [] builtins selfImport = .ok selfCode := rfl

theorem selfFiles_source :
    readSource selfFiles [] (moduleFile selfSetup (utf8 "a")) = ⟨none, some (utf8 "x = $a:x")⟩ := by
  decide +kernel

/-- Nothing stops the module from being loaded: it is where it is looked for and not registered. -/
structure SelfReady (w : World) : Prop where
  files : w.files = selfFiles
  directory : w.directory = []
  unregistered : w.module? (utf8 "a") = none
  interrupted : w.interrupted = false

theorem parseModule_self {w : World} (hw : SelfReady w) :
    parseModule selfSetup (utf8 "a") (moduleFile selfSetup (utf8 "a")) w =
      (.done (utf8 "x = $a:x", selfImport), { w with parses := w.parses + 1 }) := by
  have hread : readSource w.files w.directory (moduleFile selfSetup (utf8 "a")) =
      ⟨none, some (utf8 "x = $a:x")⟩ := by
    rw [hw.files, hw.directory, selfFiles_source]
  unfold parseModule
  rw [Act.world_bind, hread]
  rfl

/-- The body of the module begins by loading the module. -/
theorem evalBlock_self {go : Runner} {ctx : Context} {w : World} (hw : SelfReady w)
    (hload : ∀ w, SelfReady w → (go (.load ctx (utf8 "a")) w).1 = .halted .outOfFuel) :
    (evalBlock go ctx selfCode w).1 = .halted .outOfFuel := by
  let begun : World := { w with here := ⟨0, 8⟩ }.note (.form ⟨0, 8⟩ w.interrupted)
  have hbegin : beginForm ⟨0, 8⟩ w = (.done (), begun) := rfl
  have hbegun : SelfReady begun := ⟨hw.files, hw.directory, hw.unregistered, hw.interrupted⟩
  have hcheck : Act.checkInterrupt w = (.done (), w) := Act.checkInterrupt_clear hw.interrupted
  have huse : (use go ctx (utf8 "a") begun).1 = .halted .outOfFuel := by
    unfold use
    rw [Act.world_bind, hbegun.unregistered]
    exact hload begun hbegun
  have hresolve : (resolve go ctx (utf8 "a") (utf8 "x") begun).1 = .halted .outOfFuel := by
    rw [resolve_module go ctx (by decide +kernel)]
    exact Act.halted_bind huse
  have hvalues : (evalExprs go ctx [.variable ⟨4, 8⟩ false (.ofText (utf8 "a:x"))] begun).1 =
      .halted .outOfFuel :=
    Act.halted_bind (Act.halted_bind hresolve)
  have hform : (evalForm go ctx (.assignment ⟨0, 8⟩ [.variable ⟨4, 8⟩ false (.ofText (utf8 "a:x"))]
      [⟨⟨0, 1⟩, false, .ofText (utf8 "x")⟩]) w).1 = .halted .outOfFuel :=
    Act.halted_of_bind_done hbegin (Act.halted_bind hvalues)
  exact Act.halted_of_bind_done hcheck (Act.halted_bind hform)

/-- However deep loads may nest, the load of the module does not come to an end. -/
theorem load_self (fuel : Nat) {ctx : Context} {w : World} (hctx : ctx.endpoints = [])
    (hw : SelfReady w) :
    (run selfSetup fuel (.load ctx (utf8 "a")) w).1 = .halted .outOfFuel := by
  induction fuel generalizing ctx w with
  | zero => rfl
  | succ fuel ih =>
    let began : World := w.note (.loadBegan (utf8 "a"))
    have hbegan : SelfReady began := ⟨hw.files, hw.directory, hw.unregistered, hw.interrupted⟩
    have hbody : ∀ v, SelfReady v → (runModule (run selfSetup fuel) ctx (utf8 "a")
        (moduleFile selfSetup (utf8 "a")) (utf8 "x = $a:x") selfImport selfCode v).1 =
          .halted .outOfFuel := by
      intro v hv
      unfold runModule
      rw [Act.change_bind, Act.change_bind, Act.change_bind, hctx]
      refine Act.halted_bind (Act.halted_attempt (evalBlock_self ?_ fun u hu ↦ ih rfl hu))
      exact ⟨hv.files, hv.directory, hv.unregistered, hv.interrupted⟩
    have hfile : (loadFile selfSetup (run selfSetup fuel) ctx (utf8 "a") began).1 =
        .halted .outOfFuel := by
      rw [loadFile_of_code (parseModule_self hbegan) (selfImport_code _)]
      refine Act.halted_of_bind_done rfl (Act.halted_bind (hbody _ ?_))
      exact ⟨hw.files, hw.directory, hw.unregistered, hw.interrupted⟩
    have hgood : isBadModuleName (utf8 "a") = false := by decide +kernel
    change (loadModule selfSetup (run selfSetup fuel) ctx (utf8 "a") w).1 = _
    unfold loadModule
    rw [hgood]
    have hnote : Act.modify (World.note (.loadBegan (utf8 "a"))) w = (.done (), began) := rfl
    exact Act.halted_of_bind_done hnote hfile

/-- A new shell in which the module can be found. -/
def selfWorld : World := { Shell.start {} with files := selfFiles }

end Eval

end Conduit
