import Conduit.Proofs.Action
import Conduit.Proofs.Unicode
import Conduit.Shell

/-!
# What is Parsed

A source file is parsed only after it has been read, and what is parsed is its content as a whole,
which is valid UTF-8.  The exception is a directory: it can be opened but not read, which goes
unnoticed, so that it is parsed as an empty text.  The parser is asked nothing else: every load of a
module may as well be given a parser that knows only what the file of this module holds when the load
begins.
-/

namespace Conduit

open Host (FileTree Path Errno)

/-! ## Files -/

namespace Host.FileTree

/-- Seen from a current directory, a path text names a directory. -/
def NamesDirectory (files : FileTree) (current : Path) (name : Bytes) : Prop :=
  ∃ path id, files.resolve current name = .ok (path, id) ∧ files.node? id = some .directory

/-- Seen from a current directory, a path text names something that is no directory, and this is all
that can be read from it. -/
def Holds (files : FileTree) (current : Path) (name text : Bytes) : Prop :=
  ∃ path id, files.resolve current name = .ok (path, id) ∧ files.node? id ≠ some .directory ∧
    files.content id = text

variable {files : FileTree} {current : Path} {name text : Bytes}

/-- A file is opened for reading if its path leads to something, and opening it changes nothing. -/
theorem openFile_read (files : FileTree) (current : Path) (name : Bytes) :
    files.openFile current .read name =
      (files.resolve current name).map fun found ↦ (files, found.2) := by
  unfold openFile resolve
  cases route name with
  | error reason => rfl
  | ok r =>
    change (files.follow current r >>= _) = ((files.follow current r >>= _).map _)
    cases files.follow current r with
    | error reason => rfl
    | ok path =>
      dsimp only [bind, Except.bind]
      cases hfind : files.find? path with
      | none => rfl
      | some id =>
        have hdirectory : files.isDirectory path = (files.node? id == some .directory) := by
          rw [isDirectory, hfind]
          rfl
        dsimp only
        rw [hdirectory]
        cases r.toDirectory <;> rcases files.node? id with _ | _ | _ | _ <;> rfl

theorem content_directory {id : Host.NodeId} (h : files.node? id = some .directory) :
    files.content id = [] := by
  rw [content, h]

end Host.FileTree

/-! ## Reading -/

/-- A text is the encoding of some characters. -/
def Encoded (text : Bytes) : Prop :=
  ∃ characters : List Char, characters.flatMap String.utf8EncodeChar = text

/-- A text is what is parsed for a path: the content of a file as a whole, which is valid, or the empty
text if the path names a directory. -/
def Presents (files : FileTree) (current : Path) (name text : Bytes) : Prop :=
  files.Holds current name text ∧ Encoded text ∨ files.NamesDirectory current name ∧ text = []

section Reading

variable {files : FileTree} {current : Path} {name text : Bytes}

theorem readSource_of_error {reason : Errno} (h : files.resolve current name = .error reason) :
    readSource files current name =
      ⟨some ⟨.io, utf8 "open " ++ name ++ utf8 ": " ++ reason.text, none⟩, none⟩ := by
  unfold readSource
  rw [FileTree.openFile_read, h]
  rfl

theorem readSource_of_ok {path : Path} {id : Host.NodeId}
    (h : files.resolve current name = .ok (path, id)) :
    readSource files current name =
      if Text.Unicode.isValid (files.content id) then ⟨none, some (files.content id)⟩
      else ⟨some ⟨.generic, name ++ utf8 ": source is not valid UTF-8", none⟩,
        some (files.content id)⟩ := by
  unfold readSource
  rw [FileTree.openFile_read, h]
  rfl

theorem readSource_holds (h : files.Holds current name text) :
    (readSource files current name).text = some text ∧
      ((readSource files current name).error = none ↔ Encoded text) := by
  obtain ⟨path, id, hresolve, -, rfl⟩ := h
  rw [readSource_of_ok hresolve]
  split
  case isTrue hvalid =>
    exact ⟨rfl, iff_of_true rfl ((Text.Unicode.isValid_iff_exists _).mp hvalid)⟩
  case isFalse hinvalid =>
    exact ⟨rfl, iff_of_false nofun (mt (Text.Unicode.isValid_iff_exists _).mpr hinvalid)⟩

theorem readSource_directory (h : files.NamesDirectory current name) :
    readSource files current name = ⟨none, some []⟩ := by
  obtain ⟨path, id, hresolve, hnode⟩ := h
  rw [readSource_of_ok hresolve, FileTree.content_directory hnode]
  rfl

/-- Whatever a path leads to is a directory or holds a text. -/
theorem exists_of_resolve {path : Path} {id : Host.NodeId}
    (h : files.resolve current name = .ok (path, id)) :
    files.NamesDirectory current name ∨ ∃ text, files.Holds current name text := by
  by_cases hnode : files.node? id = some .directory
  · exact .inl ⟨path, id, h, hnode⟩
  · exact .inr ⟨files.content id, path, id, h, hnode, rfl⟩

theorem readSource_eq_iff (files : FileTree) (current : Path) (name : Bytes) (found : Option Bytes) :
    readSource files current name = ⟨none, found⟩ ↔
      ∃ text, found = some text ∧ Presents files current name text := by
  constructor
  · intro h
    have herror : (readSource files current name).error = none := by rw [h]
    rcases hresolve : files.resolve current name with reason | ⟨path, id⟩
    · rw [readSource_of_error hresolve] at herror
      cases herror
    · rcases exists_of_resolve hresolve with hdirectory | ⟨text, htext⟩
      · rw [readSource_directory hdirectory] at h
        cases h
        exact ⟨[], rfl, .inr ⟨hdirectory, rfl⟩⟩
      · obtain ⟨hfound, hvalid⟩ := readSource_holds htext
        rw [h] at hfound
        exact ⟨text, hfound, .inl ⟨htext, hvalid.mp herror⟩⟩
  · rintro ⟨text, rfl, ⟨htext, hencoded⟩ | ⟨hdirectory, rfl⟩⟩
    · obtain ⟨hfound, hvalid⟩ := readSource_holds htext
      rw [← hvalid.mpr hencoded, ← hfound]
    · exact readSource_directory hdirectory

end Reading

/-! ## Parsing -/

open Classical in
/-- A setup whose parser answers for known texts, where another one answers for all others. -/
noncomputable def Setup.knowing (setup : Setup) (known : Bytes → Prop) (other : Parser) : Setup :=
  { setup with
    parser := setup.parser.map fun parser text ↦ if known text then parser text else other text }

namespace Eval

theorem moduleFile_knowing (setup : Setup) (known : Bytes → Prop) (other : Parser) (name : Bytes) :
    moduleFile (setup.knowing known other) name = moduleFile setup name := rfl

theorem parseModule_knowing (setup : Setup) (other : Parser) (name file : Bytes) (w : World) :
    parseModule (setup.knowing (Presents w.files w.directory file) other) name file w =
      parseModule setup name file w := by
  unfold parseModule
  rw [Act.world_bind, Act.world_bind]
  rcases hread : readSource w.files w.directory file with ⟨_ | e, found⟩
  · obtain ⟨text, rfl, htext⟩ := (readSource_eq_iff _ _ _ _).mp hread
    cases hparser : setup.parser with
    | none => simp only [Setup.knowing, hparser, Option.map_none]
    | some parser =>
      simp only [Setup.knowing, hparser, Option.map_some, Option.getD_some, Act.bind_apply, parse,
        if_pos htext]
  · rfl

/-- A load asks the parser for nothing but what the file of the module holds. -/
theorem loadModule_knowing (setup : Setup) (other : Parser) (go : Runner) (ctx : Context)
    (name : Bytes) (w : World) :
    loadModule (setup.knowing (Presents w.files w.directory (moduleFile setup name)) other) go ctx
      name w = loadModule setup go ctx name w := by
  have hfile : ∀ v, v.files = w.files → v.directory = w.directory →
      loadFile (setup.knowing (Presents w.files w.directory (moduleFile setup name)) other) go ctx
        name v = loadFile setup go ctx name v := by
    intro v hfiles hdirectory
    have hparse := parseModule_knowing setup other name (moduleFile setup name) v
    rw [hfiles, hdirectory] at hparse
    unfold loadFile
    simp only [moduleFile_knowing, Act.bind_apply, hparse]
  unfold loadModule
  split
  · rfl
  · rw [Act.modify_bind, Act.modify_bind]
    unfold Act.ensuring
    rw [hfile (w.note (.loadBegan name)) rfl rfl]

/-- Carries out requests like `run`, but gives each load a parser that knows only what the file of the
module holds when the load begins.  For every other text it answers as another parser does. -/
noncomputable def runKnowing (setup : Setup) (other : Parser) : Nat → Runner
  | 0, _ => Act.halt .outOfFuel
  | fuel + 1, .call ctx f arguments => callFn (runKnowing setup other fuel) ctx f arguments
  | fuel + 1, .load ctx name => fun w ↦
    loadModule (setup.knowing (Presents w.files w.directory (moduleFile setup name)) other)
      (runKnowing setup other fuel) ctx name w

theorem runKnowing_eq (setup : Setup) (other : Parser) (fuel : Nat) :
    runKnowing setup other fuel = run setup fuel := by
  induction fuel with
  | zero => rfl
  | succ fuel ih =>
    funext request
    cases request with
    | call ctx f arguments => rw [runKnowing, run, ih]
    | load ctx name =>
      funext w
      rw [runKnowing, run, ih]
      exact loadModule_knowing setup other (run setup fuel) ctx name w

end Eval

namespace Shell

open Eval (run runKnowing)

/-- Running a file gives the error of reading it, or runs the text that was read. -/
theorem source_cases (setup : Setup) (fuel : Nat) (file : Bytes) (w : World) :
    (∃ e, (readSource w.files w.directory file).error = some e ∧
      source setup fuel file w = (.done (some e), w)) ∨
    ∃ text, Presents w.files w.directory file text ∧
      source setup fuel file w = sourceText setup fuel text w := by
  unfold source
  rw [Act.world_bind]
  rcases hread : readSource w.files w.directory file with ⟨_ | e, found⟩
  · obtain ⟨text, rfl, htext⟩ := (readSource_eq_iff _ _ _ _).mp hread
    exact .inr ⟨text, htext, rfl⟩
  · exact .inl ⟨e, rfl, rfl⟩

/-- A source file is read without an error if it can be opened and is no directory and its content is
valid, or if it is a directory.  What is read is the content as a whole, or nothing at all for a
directory; a path that cannot be opened gives an error and no text.  Running a file parses what was
read and nothing else, and not even that after an error.  In whatever is run, each load may as well be
given a parser that knows only what the file of the module holds at that moment, as a whole. -/
theorem parses_what_is_read (setup : Setup) (other : Parser) (fuel : Nat) (file : Bytes) (w : World) :
    ((readSource w.files w.directory file).error = none ↔
      (∃ text, w.files.Holds w.directory file text ∧ Encoded text) ∨
        w.files.NamesDirectory w.directory file) ∧
    (∀ text, w.files.Holds w.directory file text →
      (readSource w.files w.directory file).text = some text) ∧
    (∀ reason, w.files.resolve w.directory file = .error reason →
      readSource w.files w.directory file =
        ⟨some ⟨.io, utf8 "open " ++ file ++ utf8 ": " ++ reason.text, none⟩, none⟩) ∧
    (w.files.NamesDirectory w.directory file →
      readSource w.files w.directory file = ⟨none, some []⟩) ∧
    ((∃ e, (readSource w.files w.directory file).error = some e ∧
        source setup fuel file w = (.done (some e), w)) ∨
      ∃ text, Presents w.files w.directory file text ∧
        source setup fuel file w = sourceText setup fuel text w) ∧
    run setup fuel = runKnowing setup other fuel := by
  refine ⟨⟨fun h ↦ ?_, ?_⟩, fun text htext ↦ (readSource_holds htext).1,
    fun reason ↦ readSource_of_error, readSource_directory, source_cases setup fuel file w,
    (Eval.runKnowing_eq setup other fuel).symm⟩
  · obtain ⟨text, -, ⟨htext, hencoded⟩ | ⟨hdirectory, -⟩⟩ :=
      (readSource_eq_iff w.files w.directory file _).mp (congrArg (SourceRead.mk · _) h)
    · exact .inl ⟨text, htext, hencoded⟩
    · exact .inr hdirectory
  · rintro (⟨text, htext, hencoded⟩ | hdirectory)
    · exact (readSource_holds htext).2.mpr hencoded
    · rw [readSource_directory hdirectory]

/-- A directory and a file beside it. -/
def filesAndDirectory : FileTree :=
  (FileTree.root.add [utf8 "d"] .directory).add [utf8 "f"] (.file (utf8 "nop") false)

/-- The file is read as it is, the directory as an empty text, and what does not exist is not read. -/
theorem parses_what_is_read_directory :
    let w : World := { files := filesAndDirectory }
    (w.files.Holds [] (utf8 "f") (utf8 "nop") ∧
      readSource w.files [] (utf8 "f") = ⟨none, some (utf8 "nop")⟩) ∧
    (w.files.NamesDirectory [] (utf8 "d") ∧ readSource w.files [] (utf8 "d") = ⟨none, some []⟩) ∧
    (w.files.resolve [] (utf8 "g") = .error .noSuchEntry ∧
      (readSource w.files [] (utf8 "g")).text = none) := by
  intro w
  have hholds : w.files.Holds [] (utf8 "f") (utf8 "nop") :=
    ⟨[utf8 "f"], 2, rfl, by decide, rfl⟩
  have hencoded : Encoded (utf8 "nop") := ⟨"nop".toList, by decide +kernel⟩
  have hdirectory : w.files.NamesDirectory [] (utf8 "d") := ⟨[utf8 "d"], 1, rfl, rfl⟩
  have hmissing : w.files.resolve [] (utf8 "g") = .error .noSuchEntry := rfl
  have hread := fun file ↦ parses_what_is_read {} (fun _ ↦ .ok default) 0 file w
  obtain ⟨herror, htext, -⟩ := hread (utf8 "f")
  obtain ⟨-, -, -, hempty, -⟩ := hread (utf8 "d")
  obtain ⟨-, -, hnone, -⟩ := hread (utf8 "g")
  refine ⟨⟨hholds, ?_⟩, ⟨hdirectory, hempty hdirectory⟩, hmissing, ?_⟩
  · have h := herror.mpr (.inl ⟨utf8 "nop", hholds, hencoded⟩)
    exact congrArg₂ SourceRead.mk h (htext (utf8 "nop") hholds)
  · exact congrArg SourceRead.text (hnone .noSuchEntry hmissing)

end Shell

end Conduit
