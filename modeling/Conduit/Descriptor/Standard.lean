import Conduit.Bytes
import Conduit.Host.Errno

/-!
# Installing Standard Descriptors

A process has a table of open descriptors, each with the file it refers to and a mark for closing it
when a program is executed.  Installing standard descriptors puts given descriptors into the places
0, 1 and 2, or the null device where none is given.  Sources are first copied out of those places,
so that filling one place cannot destroy what another still needs.
-/

namespace Conduit.Descriptor

open Host (Errno)

/-- A file that a descriptor refers to. -/
inductive File where
  | named (label : Bytes)
  | nullReader
  | nullWriter
  deriving DecidableEq, Repr

/-- An open descriptor. -/
structure Entry where
  file : File
  closeOnExec : Bool
  deriving DecidableEq, Repr

/-- The open descriptors of a process. -/
structure OpenTable where
  entries : List (Nat × Entry)
  deriving DecidableEq, Repr

namespace OpenTable

/-- What a descriptor refers to, if it is open. -/
def get? (t : OpenTable) (d : Nat) : Option Entry := t.entries.lookup d

/-- The table with a descriptor closed. -/
def close (t : OpenTable) (d : Nat) : OpenTable := ⟨t.entries.filter fun entry => entry.1 ≠ d⟩

/-- The table with a descriptor made to refer to a file. -/
def set (t : OpenTable) (d : Nat) (e : Entry) : OpenTable := ⟨(d, e) :: (t.close d).entries⟩

/-- The table of a program that is executed. -/
def executed (t : OpenTable) : OpenTable := ⟨t.entries.filter fun entry => !entry.2.closeOnExec⟩

/-- The lowest free descriptor from a number on, among as many numbers as `count` says and the one
after them. -/
def lowestFree (t : OpenTable) : Nat → Nat → Nat
  | 0, d => d
  | count + 1, d => if (t.get? d).isSome then t.lowestFree count (d + 1) else d

/-- The lowest free descriptor from a number on. -/
def free (t : OpenTable) (low : Nat) : Nat := t.lowestFree t.entries.length low

/-- Opens a file under the lowest free descriptor. -/
def openFile (t : OpenTable) (file : File) : Nat × OpenTable :=
  (t.free 0, t.set (t.free 0) ⟨file, false⟩)

/-- Copies a descriptor to the lowest free one from a number on. -/
def copyAbove (t : OpenTable) (source low : Nat) : Option (Nat × OpenTable) :=
  (t.get? source).map fun e => (t.free low, t.set (t.free low) ⟨e.file, false⟩)

/-- Makes a descriptor refer to the file of another and be kept when a program is executed. -/
def install (t : OpenTable) (source target : Nat) : Option OpenTable :=
  (t.get? source).map fun e => t.set target ⟨e.file, false⟩

end OpenTable

/-- Where the null device is opened for a standard place: for reading in the first one and for
writing in the others. -/
def nullFor (place : Nat) : File := if place = 0 then .nullReader else .nullWriter

/-- The report of a fault on the error stream. -/
def fault (call : String) (reason : Errno) : Bytes :=
  utf8 call ++ utf8 ": " ++ reason.text ++ [Bytes.newline]

/-- Finds a source for one standard place: the place itself when it is to stay, else a copy above
the standard places. -/
def prepare (t : OpenTable) (place : Nat) (wanted : Int) : Except (Bytes × OpenTable) (Nat × OpenTable) :=
  let (source, t) := if wanted < 0 then t.openFile (nullFor place) else (wanted.toNat, t)
  if source = place then .ok (place, t)
  else
    match t.copyAbove source 3 with
    | some result => .ok result
    | none => .error (fault "fcntl" .badDescriptor, t)

/-- Finds sources for the standard places from one on. -/
def prepareAll (t : OpenTable) : Nat → List Int → Except (Bytes × OpenTable) (List (Nat × Nat) × OpenTable)
  | _, [] => .ok ([], t)
  | place, wanted :: rest => do
    let (source, t) ← prepare t place wanted
    let (sources, t) ← prepareAll t (place + 1) rest
    .ok ((source, place) :: sources, t)

/-- Fills standard places from their sources, and closes the copies. -/
def fill (t : OpenTable) : List (Nat × Nat) → Except (Bytes × OpenTable) OpenTable
  | [] => .ok t
  | (source, place) :: rest =>
    match t.install source place with
    | some t => fill (if source = place then t else t.close source) rest
    | none => .error (fault (if source = place then "fcntl" else "dup2") .badDescriptor, t)

/-- The first three of the descriptors asked for; a missing one counts as none. -/
def standardSources (wanted : List Int) : List Int := (wanted ++ [-1, -1, -1]).take 3

/-- What installing standard descriptors gives: whether it succeeded, what was reported, and the
table. -/
structure Installation where
  succeeded : Bool
  report : Bytes
  table : OpenTable
  deriving DecidableEq, Repr

/-- Installs standard descriptors. -/
def installStandard (wanted : List Int) (t : OpenTable) : Installation :=
  let result := do
    let (sources, t) ← prepareAll t 0 (standardSources wanted)
    fill t sources
  match result with
  | .ok t => ⟨true, [], t⟩
  | .error (report, t) => ⟨false, report, t⟩

end Conduit.Descriptor
